import Vai.Pagination
/-!
# PageSpec — when the pages have every matching row once

Both backends cut their pages out of listings (`lists_iff`): a store has one, where its order and then the sort decide, the
database one for each statement.  `pages_partition_iff` says when the pages that a client reads, up to the count that the
first response reports, have every matching row once.
-/
namespace Vai

open Sorting Pages

namespace ListQuery

/-- `from_params` lets it through. -/
def Accepted (allowedColumns : List Text) (q : ListQuery) : Prop :=
  ∃ page perPage sortStr, fromParams page perPage sortStr allowedColumns = .ok q

/-- The same request for another page. -/
def onPage (q : ListQuery) (page : Nat) : ListQuery := { q with page := page }

variable {allowedColumns : List Text} {q : ListQuery}

theorem column_of_parseSortPart {part : Text} {sf : SortField} (h : parseSortPart allowedColumns part = .ok sf) :
    sf.column ∈ allowedColumns := by
  unfold parseSortPart at h
  split at h
  · cases h
  · split at h
    · rename_i hcol
      cases h
      exact hcol
    · cases h

theorem column_of_mapM {parts : List Text} {sort : List SortField}
    (h : parts.mapM (parseSortPart allowedColumns) = .ok sort) : ∀ sf ∈ sort, sf.column ∈ allowedColumns := by
  induction parts generalizing sort with
  | nil =>
    cases h
    simp
  | cons part parts ih =>
    rw [List.mapM_cons] at h
    cases hpart : parseSortPart allowedColumns part with
    | error e =>
      rw [hpart] at h
      cases h
    | ok sf =>
      cases hparts : parts.mapM (parseSortPart allowedColumns) with
      | error e =>
        rw [hpart, hparts] at h
        cases h
      | ok sort' =>
        rw [hpart, hparts] at h
        cases h
        intro sf' hsf'
        rcases List.mem_cons.1 hsf' with rfl | hsf'
        · exact column_of_parseSortPart hpart
        · exact ih hparts sf' hsf'

theorem column_of_parseSort {sortStr : Text} {sort : List SortField} (h : parseSort sortStr allowedColumns = .ok sort) :
    ∀ sf ∈ sort, sf.column ∈ allowedColumns := by
  unfold parseSort at h
  split at h
  · cases h
    simp
  · exact column_of_mapM h

/-- What a request is that is let through. -/
structure InBounds (allowedColumns : List Text) (q : ListQuery) : Prop where
  page_pos : 1 ≤ q.page
  page_lt : q.page < 2 ^ 32
  perPage_pos : 1 ≤ q.perPage
  perPage_le : q.perPage ≤ 100
  columns : ∀ sf ∈ q.sort, sf.column ∈ allowedColumns

theorem Accepted.inBounds (h : q.Accepted allowedColumns) : q.InBounds allowedColumns := by
  obtain ⟨page, perPage, sortStr, h⟩ := h
  unfold fromParams at h
  dsimp only at h
  split at h
  · cases h
  · rename_i hpage
    split at h
    · cases h
    · rename_i hperPage
      split at h
      · cases h
      · rename_i sort hsort
        cases h
        rw [not_or] at hperPage
        have hne : ∀ n : UInt32, n ≠ 0 → 1 ≤ n.toNat := fun n hn => Nat.pos_of_ne_zero fun h => hn (UInt32.toNat_inj.1 h)
        refine ⟨hne _ hpage, UInt32.toNat_lt _, hne _ hperPage.1, ?_, column_of_parseSort hsort⟩
        have := hperPage.2
        rw [UInt32.not_lt, UInt32.le_iff_toNat_le] at this
        exact this

theorem Accepted.onPage (h : q.Accepted allowedColumns) {page : Nat} (h1 : 1 ≤ page) (h2 : page < 2 ^ 32) :
    (q.onPage page).Accepted allowedColumns := by
  obtain ⟨page', perPage, sortStr, h⟩ := h
  refine ⟨some (UInt32.ofNat page), perPage, sortStr, ?_⟩
  have htoNat : (UInt32.ofNat page).toNat = page := UInt32.toNat_ofNat_of_lt' h2
  have hne : UInt32.ofNat page ≠ 0 := fun h0 => by
    have := congrArg UInt32.toNat h0
    rw [htoNat, UInt32.toNat_zero] at this
    omega
  unfold fromParams at h ⊢
  dsimp only at h ⊢
  rw [Option.getD_some, if_neg hne, htoNat]
  split at h
  · cases h
  · split at h
    · cases h
    · rename_i hperPage
      rw [if_neg hperPage]
      split at h
      · cases h
      · cases h
        rfl

/-! ## Bounds and columns -/

/-- The offset is what it should be, without an overflow. -/
def OffsetExact (q : ListQuery) : Prop := q.sqlLimitOffset.2.toInt = ((q.page : Int) - 1) * q.perPage

theorem sqlLimitOffset_eq (h : q.InBounds allowedColumns) :
    q.sqlLimitOffset = (Int64.ofNat q.perPage, Int64.ofNat ((q.page - 1) * q.perPage)) := by
  have hpage := h.perPage_le
  have hall : q.perPage ≠ allRows := by
    unfold allRows
    omega
  have hmin : min (Int64.ofNat q.perPage) (Int64.maxValue / 2) = Int64.ofNat q.perPage := by
    have hle : Int64.ofNat q.perPage ≤ Int64.maxValue / 2 := by
      rw [Int64.le_iff_toInt_le, Int64.toInt_ofNat_of_lt (by omega)]
      have hmax : (Int64.maxValue / 2).toInt = 4611686018427387903 := by decide
      omega
    exact if_pos hle
  unfold sqlLimitOffset
  rw [if_neg hall, hmin, ← Int64.ofNat_mul]

theorem offset_lt (h : q.InBounds allowedColumns) : (q.page - 1) * q.perPage < 2 ^ 39 := by
  have h1 := h.page_lt
  calc (q.page - 1) * q.perPage
      ≤ 2 ^ 32 * 100 := Nat.mul_le_mul (by omega) h.perPage_le
    _ < 2 ^ 39 := by decide

theorem InBounds.offsetExact (h : q.InBounds allowedColumns) : q.OffsetExact := by
  have hlt := offset_lt h
  unfold OffsetExact
  rw [sqlLimitOffset_eq h, Int64.toInt_ofNat_of_lt (by omega), Nat.cast_mul, Nat.cast_sub h.page_pos, Nat.cast_one]

/-- The clause names columns that the endpoint allows, as the database calls them. -/
def OrdersByAllowed (q : ListQuery) (e : Endpoint) : Prop :=
  ∃ terms, (∀ t ∈ terms, ∃ c ∈ e.allowedSort, e.columnMap.lookup c = some t.1) ∧
    q.sqlOrderBy e.columnMap = orderByText terms

theorem InBounds.ordersByAllowed {e : Endpoint} (h : q.InBounds e.allowedSort) : q.OrdersByAllowed e := by
  refine ⟨q.orderTerms e.columnMap, fun t ht => ?_, rfl⟩
  unfold orderTerms at ht
  obtain ⟨sf, hsf, hmap⟩ := List.mem_filterMap.1 ht
  obtain ⟨dbCol, hlookup, rfl⟩ := Option.map_eq_some_iff.1 hmap
  exact ⟨sf.column, h.columns sf hsf, hlookup⟩

theorem limit_ne (h : q.InBounds allowedColumns) : Int64.ofNat q.perPage ≠ Int64.maxValue := fun heq => by
  have hle := h.perPage_le
  have := congrArg Int64.toInt heq
  rw [Int64.toInt_ofNat_of_lt (by omega), Int64.toInt_maxValue] at this
  omega

theorem sqlLimited_eq {α : Type} (h : q.InBounds allowedColumns) (sorted : List α) :
    q.sqlLimited sorted = pageOf q.perPage (q.page - 1) sorted := by
  have hle := h.perPage_le
  have hlt := offset_lt h
  unfold sqlLimited pageOf
  rw [sqlLimitOffset_eq h]
  dsimp only
  rw [if_neg (limit_ne h), Int64.toNatClampNeg_ofNat_of_lt (by omega), Int64.toNatClampNeg_ofNat_of_lt (by omega)]

end ListQuery

theorem take_drop_eq {α : Type} (s : List α) (offset limit : Nat) :
    (if s.length ≤ offset then [] else (s.drop offset).take (min (offset + limit) s.length - offset)) =
      (s.drop offset).take limit := by
  split
  · rename_i hend
    rw [List.drop_eq_nil_of_le hend, List.take_nil]
  · -- the end of the page, or of the list
    rcases Nat.le_total (offset + limit) s.length with hin | hout
    · rw [Nat.min_eq_left hin, Nat.add_sub_cancel_left]
    · rw [Nat.min_eq_right hout, List.take_of_length_le (by rw [List.length_drop]),
        List.take_of_length_le (by rw [List.length_drop]; omega)]

theorem paginateInMemory_eq {α : Type} {allowedColumns : List Text} {q : ListQuery} (h : q.InBounds allowedColumns)
    (items : List α) (sortKey : α → Text → Text) : paginateInMemory items q sortKey =
      ⟨pageOf q.perPage (q.page - 1) (sortPasses (q.sort.map (sortFieldLe sortKey)) items), items.length⟩ := by
  have hle := h.perPage_le
  have hlt := ListQuery.offset_lt h
  have hlength := (perm_sortPasses (q.sort.map (sortFieldLe sortKey)) items).length_eq
  have hoffset : (UInt64.ofNat ((q.page - 1) * q.perPage)).toNat = (q.page - 1) * q.perPage :=
    UInt64.toNat_ofNat_of_lt' (by rw [UInt64.size]; omega)
  have hsum : (UInt64.ofNat ((q.page - 1) * q.perPage) + UInt64.ofNat q.perPage).toNat =
      (q.page - 1) * q.perPage + q.perPage := by
    rw [← UInt64.ofNat_add, UInt64.toNat_ofNat_of_lt' (by rw [UInt64.size]; omega)]
  unfold paginateInMemory pageOf
  rw [ListQuery.sqlLimitOffset_eq h]
  simp only [Int64.toUInt64_ofNat', hoffset, hsum, if_neg (ListQuery.limit_ne h), take_drop_eq]
  rw [hlength]

/-! ## The orders of the backends -/

section Orders

variable {α : Type}

open Classical in
/-- The order in which a store lists its items. -/
noncomputable def storeOrder (rows : List α) (a b : α) : Bool := decide (rows.idxOf a ≤ rows.idxOf b)

/-- The order of the pages: in a store, what the sort leaves together stays in the store's order. -/
noncomputable def ListBackend.order (e : Endpoint) (q : ListQuery) (rows : List α) : ListBackend α → α → α → Bool
  | .inMemory sortKey => lexLe (q.sort.map (sortFieldLe sortKey) ++ [storeOrder rows])
  | .sql columns => columns.orderedBy (e.orderBy q)

theorem isOrder_apply {le : α → α → Bool} (h : IsOrder le) (dir : SortDirection) : IsOrder (dir.apply le) := by
  cases dir with
  | asc => exact h
  | desc => exact isOrder_swap h

theorem isOrder_sortFieldLe (sortKey : α → Text → Text) (sf : SortField) : IsOrder (sortFieldLe sortKey sf) :=
  isOrder_apply (isOrder_key isOrder_le fun a => sortKey a sf.column) sf.direction

theorem ListBackend.isOrder_order (e : Endpoint) (q : ListQuery) (rows : List α) (b : ListBackend α) :
    IsOrder (b.order e q rows) := by
  classical
  cases b with
  | inMemory sortKey =>
    refine isOrder_lexLe fun le hle => ?_
    rcases List.mem_append.1 hle with hle | hle
    · obtain ⟨sf, -, rfl⟩ := List.mem_map.1 hle
      exact isOrder_sortFieldLe sortKey sf
    · rw [List.mem_singleton.1 hle]
      exact isOrder_key (isOrder_le (β := Nat)) fun a => rows.idxOf a
  | sql columns =>
    refine isOrder_lexLe fun le hle => ?_
    obtain ⟨t, -, rfl⟩ := List.mem_map.1 hle
    exact isOrder_apply (columns.isOrder t.1) t.2

/-- What `lexRel` orders by a last relation, `lexLe` orders by a last order. -/
theorem lexLe_of_lexRel {R : α → α → Prop} {le : α → α → Bool} (hR : ∀ a b, R a b → le a b = true) :
    ∀ {les : List (α → α → Bool)} {a b : α}, lexRel R les a b → lexLe (les ++ [le]) a b = true
  | [], a, b, h => by
    rw [List.nil_append, lexLe_cons]
    exact ⟨hR a b h, fun _ => rfl⟩
  | le' :: les, a, b, h => by
    rw [List.cons_append, lexLe_cons]
    exact ⟨h.1, fun hba => lexLe_of_lexRel hR (h.2 hba)⟩

theorem listing_sortPasses (e : Endpoint) (q : ListQuery) {rows : List α} (hrows : rows.Nodup) (sortKey : α → Text → Text) :
    Listing (ListBackend.order e q rows (.inMemory sortKey)) rows (sortPasses (q.sort.map (sortFieldLe sortKey)) rows) := by
  classical
  have horders : ∀ le ∈ q.sort.map (sortFieldLe sortKey), IsOrder le := fun le hle => by
    obtain ⟨sf, -, rfl⟩ := List.mem_map.1 hle
    exact isOrder_sortFieldLe sortKey sf
  have hstore : rows.Pairwise fun a b => storeOrder rows a b = true := by
    rw [List.pairwise_iff_getElem]
    intro i j hi hj hij
    unfold storeOrder
    rw [decide_eq_true_iff, hrows.idxOf_getElem i hi, hrows.idxOf_getElem j hj]
    exact hij.le
  exact ⟨perm_sortPasses _ rows, (pairwise_sortPasses horders hstore).imp (lexLe_of_lexRel fun _ _ h => h)⟩

theorem store_antisymm (e : Endpoint) (q : ListQuery) (rows : List α) (sortKey : α → Text → Text) :
    ∀ a ∈ rows, ∀ b ∈ rows, ListBackend.order e q rows (.inMemory sortKey) a b = true →
      ListBackend.order e q rows (.inMemory sortKey) b a = true → a = b := by
  classical
  intro a ha b hb hab hba
  have hlast := lexLe_antisymm hab hba (storeOrder rows) (List.mem_append_right _ List.mem_cons_self)
  unfold storeOrder at hlast
  rw [decide_eq_true_iff, decide_eq_true_iff] at hlast
  exact (List.idxOf_inj ha).1 (le_antisymm hlast.1 hlast.2)

/-- **Both backends cut a page out of a listing.** -/
theorem lists_iff {e : Endpoint} {q : ListQuery} (h : q.InBounds e.allowedSort) {rows : List α} (hrows : rows.Nodup)
    (b : ListBackend α) (r : ListResult α) : b.Lists e rows q r ↔
      ∃ sorted, Listing (b.order e q rows) rows sorted ∧ r = ⟨pageOf q.perPage (q.page - 1) sorted, rows.length⟩ := by
  cases b with
  | inMemory sortKey =>
    have hlisting := listing_sortPasses e q hrows sortKey
    have hlists : (ListBackend.inMemory sortKey).Lists e rows q r ↔ r = paginateInMemory rows q sortKey := Iff.rfl
    rw [hlists, paginateInMemory_eq h]
    constructor
    · rintro rfl
      exact ⟨_, hlisting, rfl⟩
    · rintro ⟨sorted, hsorted, rfl⟩
      rw [listing_unique hsorted hlisting (store_antisymm e q rows sortKey)]
  | sql columns =>
    refine exists_congr fun sorted => and_congr_right fun _ => ?_
    rw [ListQuery.sqlLimited_eq h]

end Orders

/-! ## Reading all pages -/

section Responses

variable {α : Type}

/-- The rows of a table, each once. -/
structure Table (α : Type) where
  rows : List α
  nodup : rows.Nodup

/-- A request that `from_params` lets through. -/
def AcceptedQuery (allowedColumns : List Text) := { q : ListQuery // q.Accepted allowedColumns }

/-- The pages up to the count that the first one reports have every matching row once, and later pages are empty. -/
def Partition (matching : List α) (response : Nat → PaginatedResponse α) : Prop :=
  ((List.range (response 1).totalPages).flatMap fun k => (response (k + 1)).data).Perm matching ∧
    ∀ page, (response 1).totalPages < page → page < 2 ^ 32 → (response page).data = []

/-- Whatever the backend answers to the requests for the pages. -/
def PagesPartition (e : Endpoint) (b : ListBackend α) (t : Table α) (f : RowFilter α) (q : ListQuery) : Prop :=
  ∀ results : Nat → ListResult α,
    (∀ page, 1 ≤ page → page < 2 ^ 32 → b.Lists e (f.asked t.rows) (q.onPage page) (results page)) →
    Partition (t.rows.filter f.accepts) fun page => f.respond (q.onPage page) (results page)

/-- When the pages have every row once.  For a filter of the backend: the count of pages fits, and in the database the
order cuts the matching rows at the end of every page.  For a filter of the handler: of the rows that come up to a matching
one, there are no more than a page has. -/
def KeepsRows (e : Endpoint) (b : ListBackend α) (t : Table α) (q : ListQuery) : RowFilter α → Prop
  | .pushed p => divCeil (t.rows.filter p).length q.perPage < 2 ^ 32 ∧ match b with
    | .inMemory _ => True
    | .sql columns => ∀ k, 0 < k → k * q.perPage < (t.rows.filter p).length →
      Cut (columns.orderedBy (e.orderBy q)) (t.rows.filter p) (k * q.perPage)
  | .clientSide p => ∀ row ∈ t.rows, p row = true → (t.rows.countP fun r => b.order e q t.rows r row) ≤ q.perPage

variable {e : Endpoint} {b : ListBackend α} {t : Table α} {q : ListQuery}

theorem divCeil_le_iff {n d m : Nat} (hd : 0 < d) : divCeil n d ≤ m ↔ n ≤ m * d := by
  unfold divCeil
  split
  · rename_i hpos
    rw [Nat.succ_le_iff, Nat.div_lt_iff_lt_mul hd]
    refine ⟨Nat.le_of_lt, fun h => lt_of_le_of_ne h ?_⟩
    rintro rfl
    rw [Nat.mul_mod_left] at hpos
    omega
  · rename_i hzero
    obtain ⟨k, rfl⟩ := Nat.dvd_of_mod_eq_zero (Nat.eq_zero_of_not_pos hzero)
    rw [Nat.mul_div_cancel_left k hd, Nat.mul_comm d, Nat.mul_le_mul_right_iff hd]

theorem partition_congr {matching : List α} {response response' : Nat → PaginatedResponse α}
    (h : ∀ page, 1 ≤ page → page < 2 ^ 32 → response page = response' page) (htotal : (response 1).totalPages < 2 ^ 32) :
    Partition matching response ↔ Partition matching response' := by
  unfold Partition
  have hdata : (List.range (response 1).totalPages).flatMap (fun k => (response (k + 1)).data) =
      (List.range (response 1).totalPages).flatMap fun k => (response' (k + 1)).data := by
    refine List.flatMap_congr fun k hk => ?_
    rw [h (k + 1) (by omega) (by have := List.mem_range.1 hk; omega)]
  rw [hdata, h 1 le_rfl (by decide)]
  refine and_congr_right fun _ => forall_congr' fun page => forall_congr' fun hlt => forall_congr' fun hpage => ?_
  rw [h page (by omega) hpage]

section Accepted

variable (hq : q.Accepted e.allowedSort)

include hq

theorem totalPages_eq (items : List α) (total page : Nat) :
    (PaginatedResponse.new items total (q.onPage page)).totalPages = divCeil total q.perPage % 2 ^ 32 := by
  have hbounds := hq.inBounds
  have hne : ¬ (q.perPage = 0 ∨ q.perPage = ListQuery.allRows) := by
    have h1 := hbounds.perPage_pos
    have h2 := hbounds.perPage_le
    unfold ListQuery.allRows
    omega
  exact if_neg hne

theorem totalPages_lt (f : RowFilter α) (page : Nat) (r : ListResult α) :
    (f.respond (q.onPage page) r).totalPages < 2 ^ 32 := by
  have hlt : ∀ n, n % 2 ^ 32 < 2 ^ 32 := fun n => Nat.mod_lt n (by decide)
  cases f with
  | pushed p => exact (totalPages_eq hq _ _ page).trans_lt (hlt _)
  | clientSide p => exact (totalPages_eq hq _ _ page).trans_lt (hlt _)

theorem pagesPartition_iff (f : RowFilter α) (hrows : (f.asked t.rows).Nodup) : PagesPartition e b t f q ↔
    ∀ s : Nat → List α, (∀ k, Listing (b.order e q (f.asked t.rows)) (f.asked t.rows) (s k)) →
      Partition (t.rows.filter f.accepts) fun page =>
        f.respond (q.onPage page) ⟨pageOf q.perPage (page - 1) (s (page - 1)), (f.asked t.rows).length⟩ := by
  have hlists : ∀ page, 1 ≤ page → page < 2 ^ 32 → ∀ r, b.Lists e (f.asked t.rows) (q.onPage page) r ↔
      ∃ sorted, Listing (b.order e q (f.asked t.rows)) (f.asked t.rows) sorted ∧
        r = ⟨pageOf q.perPage (page - 1) sorted, (f.asked t.rows).length⟩ := fun page h1 h2 r =>
    lists_iff (hq.onPage h1 h2).inBounds hrows b r
  constructor
  · intro hall s hs
    exact hall _ fun page h1 h2 => (hlists page h1 h2 _).2 ⟨s (page - 1), hs _, rfl⟩
  · intro hall results hresults
    obtain ⟨s₀, hs₀⟩ := exists_listing (b.isOrder_order e q (f.asked t.rows)) (f.asked t.rows)
    have hpage : ∀ k, ∃ sorted, Listing (b.order e q (f.asked t.rows)) (f.asked t.rows) sorted ∧
        (k + 1 < 2 ^ 32 → results (k + 1) = ⟨pageOf q.perPage k sorted, (f.asked t.rows).length⟩) := by
      intro k
      by_cases hk : k + 1 < 2 ^ 32
      · obtain ⟨sorted, hsorted, heq⟩ := (hlists (k + 1) (by omega) hk _).1 (hresults (k + 1) (by omega) hk)
        exact ⟨sorted, hsorted, fun _ => heq⟩
      · exact ⟨s₀, hs₀, fun h => absurd h hk⟩
    choose s hs heq using hpage
    refine (partition_congr (fun page h1 h2 => ?_) (totalPages_lt hq f 1 _)).2 (hall s hs)
    have hresult := heq (page - 1) (by omega)
    rw [Nat.sub_add_cancel h1] at hresult
    rw [hresult]

/-- **A filter of the backend.** -/
theorem pushed_partition_iff (p : α → Bool) : PagesPartition e b t (.pushed p) q ↔ KeepsRows e b t q (.pushed p) := by
  have hpos := hq.inBounds.perPage_pos
  have hrows : (t.rows.filter p).Nodup := t.nodup.filter p
  have horder := b.isOrder_order e q (t.rows.filter p)
  have hperm := pages_perm_iff horder hrows q.perPage (divCeil (t.rows.filter p).length q.perPage % 2 ^ 32)
  have hcount : divCeil (t.rows.filter p).length q.perPage < 2 ^ 32 ↔
      (t.rows.filter p).length ≤ divCeil (t.rows.filter p).length q.perPage % 2 ^ 32 * q.perPage := by
    rw [← divCeil_le_iff hpos]
    constructor
    · intro h
      rw [Nat.mod_eq_of_lt h]
    · intro h
      exact h.trans_lt (Nat.mod_lt _ (by decide))
  have hcuts : KeepsRows e b t q (.pushed p) ↔ divCeil (t.rows.filter p).length q.perPage < 2 ^ 32 ∧
      ∀ k, 0 < k → k * q.perPage < (t.rows.filter p).length →
        Cut (b.order e q (t.rows.filter p)) (t.rows.filter p) (k * q.perPage) := by
    cases b with
    | sql columns => exact Iff.rfl
    | inMemory sortKey =>
      refine and_congr_right fun _ => iff_of_true trivial fun k hk hlt => ?_
      exact cut_of_antisymm horder hrows (store_antisymm e q _ sortKey) (Nat.mul_pos hk hpos) hlt
  have htotal : ∀ r, ((RowFilter.pushed p).respond (q.onPage 1) ⟨r, (t.rows.filter p).length⟩).totalPages =
      divCeil (t.rows.filter p).length q.perPage % 2 ^ 32 := fun r => totalPages_eq hq _ _ 1
  rw [hcuts, hcount, ← hperm, pagesPartition_iff hq (.pushed p) hrows]
  refine forall_congr' fun s => forall_congr' fun hs => ?_
  unfold Partition
  rw [show (RowFilter.pushed p).asked t.rows = t.rows.filter p from rfl, htotal]
  refine and_iff_left_of_imp fun hpages page hlt hpage => ?_
  -- the pages have all rows, so none is left
  refine pageOf_of_length_le ?_
  rw [(hs (page - 1)).1.length_eq, show (RowFilter.pushed p).asked t.rows = t.rows.filter p from rfl]
  have hlength : ((List.range (divCeil (t.rows.filter p).length q.perPage % 2 ^ 32)).flatMap
      fun k => pageOf q.perPage k (s k)).length = (t.rows.filter p).length := hpages.length_eq
  rw [← hlength]
  exact (length_flatMap_pageOf_le q.perPage _ s).trans (Nat.mul_le_mul_right _ (by omega))

theorem totalPages_filter (p : α → Bool) (s : List α) (total : Nat) :
    ((RowFilter.clientSide p).respond (q.onPage 1) ⟨pageOf q.perPage 0 s, total⟩).totalPages =
      if (s.take q.perPage).filter p = [] then 0 else 1 := by
  have hpos := hq.inBounds.perPage_pos
  have htake : pageOf q.perPage 0 s = s.take q.perPage := by
    unfold pageOf
    rw [Nat.zero_mul, List.drop_zero]
  have hle : ((s.take q.perPage).filter p).length ≤ 1 * q.perPage := by
    rw [Nat.one_mul]
    exact (List.length_filter_le _ _).trans (List.length_take_le _ _)
  have htotal : ((RowFilter.clientSide p).respond (q.onPage 1) ⟨pageOf q.perPage 0 s, total⟩).totalPages =
      divCeil ((pageOf q.perPage 0 s).filter p).length q.perPage % 2 ^ 32 := totalPages_eq hq _ _ 1
  have hone := (divCeil_le_iff hpos).2 hle
  have hzero := divCeil_le_iff (n := ((s.take q.perPage).filter p).length) (m := 0) hpos
  rw [Nat.zero_mul, Nat.le_zero, Nat.le_zero, List.length_eq_zero_iff] at hzero
  rw [htotal, htake, Nat.mod_eq_of_lt (by omega)]
  split
  · rename_i hnil
    exact hzero.2 hnil
  · rename_i hne
    have := mt hzero.1 hne
    omega

theorem partition_clientSide (p : α → Bool) (matching : List α) (s : Nat → List α) (total : Nat) :
    (Partition matching fun page =>
      (RowFilter.clientSide p).respond (q.onPage page) ⟨pageOf q.perPage (page - 1) (s (page - 1)), total⟩) ↔
      ((List.range (if ((s 0).take q.perPage).filter p = [] then 0 else 1)).flatMap
        fun k => (pageOf q.perPage k (s k)).filter p).Perm matching ∧
      ∀ page, (if ((s 0).take q.perPage).filter p = [] then 0 else 1) < page → page < 2 ^ 32 →
        (pageOf q.perPage (page - 1) (s (page - 1))).filter p = [] := by
  have htotal := totalPages_filter hq p (s 0) total
  unfold Partition
  dsimp only
  rw [Nat.sub_self, htotal]
  exact Iff.rfl

/-- **A filter of the handler.** -/
theorem clientSide_partition_iff (p : α → Bool) :
    PagesPartition e b t (.clientSide p) q ↔ KeepsRows e b t q (.clientSide p) := by
  have horder := b.isOrder_order e q t.rows
  have hfirst : KeepsRows e b t q (.clientSide p) ↔
      ∀ s, Listing (b.order e q t.rows) t.rows s → ∀ a ∈ s.drop q.perPage, p a = false :=
    (first_page_iff horder q.perPage p).symm
  have hpage : ∀ s : List α, pageOf q.perPage 0 s = s.take q.perPage := fun s => by
    unfold pageOf
    rw [Nat.zero_mul, List.drop_zero]
  rw [hfirst, pagesPartition_iff hq (.clientSide p) t.nodup]
  constructor
  · intro hall s hs a ha
    rw [Bool.eq_false_iff]
    intro hpa
    have hmem : a ∈ t.rows.filter p := List.mem_filter.2 ⟨hs.1.mem_iff.1 (List.mem_of_mem_drop ha), hpa⟩
    have hpart := ((partition_clientSide hq p _ (fun _ => s) _).1 (hall (fun _ => s) fun _ => hs)).1
    -- what the first page reports is on the first page, where the row is not
    have hon := hpart.mem_iff.2 hmem
    obtain ⟨k, hk, hak⟩ := List.mem_flatMap.1 hon
    rw [List.mem_range] at hk
    have hzero : k = 0 := by
      split at hk <;> omega
    subst hzero
    rw [hpage] at hak
    have hnodup := hs.1.nodup_iff.2 t.nodup
    rw [← List.take_append_drop q.perPage s, List.nodup_append] at hnodup
    exact hnodup.2.2 a (List.mem_of_mem_filter hak) a ha rfl
  · intro hall s hs
    have hlate : ∀ k, 0 < k → (pageOf q.perPage k (s k)).filter p = [] := fun k hk => by
      rw [List.filter_eq_nil_iff]
      intro a ha
      have hdrop : a ∈ (s k).drop q.perPage := by
        refine List.mem_of_mem_drop (i := k * q.perPage - q.perPage) ?_
        rw [List.drop_drop, Nat.add_sub_cancel' (Nat.le_mul_of_pos_left _ hk)]
        exact List.mem_of_mem_take ha
      rw [hall (s k) (hs k) a hdrop]
      simp
    have hmatching : ((s 0).take q.perPage).filter p |>.Perm (t.rows.filter p) := by
      have hsplit := (hs 0).1.filter p
      have hnone : ((s 0).drop q.perPage).filter p = [] := List.filter_eq_nil_iff.2 fun a ha => by
        rw [hall (s 0) (hs 0) a ha]
        simp
      rwa [← List.take_append_drop q.perPage (s 0), List.filter_append, hnone, List.append_nil] at hsplit
    refine (partition_clientSide hq p _ s _).2 ?_
    split
    · rename_i hnil
      rw [hnil] at hmatching
      refine ⟨hmatching, fun page hlt _ => ?_⟩
      rcases Nat.eq_zero_or_pos (page - 1) with hk | hk
      · rw [hk, hpage, hnil]
      · exact hlate _ hk
    · refine ⟨?_, fun page hlt _ => hlate _ (by omega)⟩
      rw [List.range_one, List.flatMap_singleton, hpage]
      exact hmatching

end Accepted

/-- **The pages partition the result** exactly where their count fits and, in the database, no two rows that the order leaves
together are on two pages; rows that the handler picks out are all to be on the first page.  The offset is exact, and the
`ORDER BY` has allowed columns only. -/
theorem pages_partition_iff (e : Endpoint) (b : ListBackend α) (t : Table α) (f : RowFilter α)
    (q : AcceptedQuery e.allowedSort) :
    (PagesPartition e b t f q.1 ∧ (∀ page, 1 ≤ page → page < 2 ^ 32 → (q.1.onPage page).OffsetExact) ∧
      q.1.OrdersByAllowed e) ↔ KeepsRows e b t q.1 f := by
  obtain ⟨q, hq⟩ := q
  have hoffsets : ∀ page, 1 ≤ page → page < 2 ^ 32 → (q.onPage page).OffsetExact := fun page h1 h2 =>
    (hq.onPage h1 h2).inBounds.offsetExact
  have hcolumns : q.OrdersByAllowed e := hq.inBounds.ordersByAllowed
  rw [and_iff_left ⟨hoffsets, hcolumns⟩]
  cases f with
  | pushed p => exact pushed_partition_iff hq p
  | clientSide p => exact clientSide_partition_iff hq p

/-- Two workers started at one time, one on a page: the database lists them one way for the first page and the other way for
the second. -/
theorem tied_worker_is_on_two_pages : ¬ ∀ (e : Endpoint) (b : ListBackend Nat) (t : Table Nat) (f : RowFilter Nat)
    (q : AcceptedQuery e.allowedSort), PagesPartition e b t f q.1 ∧
      (∀ page, 1 ≤ page → page < 2 ^ 32 → (q.1.onPage page).OffsetExact) ∧ q.1.OrdersByAllowed e := by
  intro h
  have hall : ∀ column : Text, IsOrder fun _ _ : Nat => true := fun _ => ⟨fun _ _ => Or.inl rfl, fun _ _ _ _ _ => rfl⟩
  have hpages := (h .workers (.sql ⟨fun _ _ _ => true, hall⟩) ⟨[1, 2], by decide⟩ (.pushed fun _ => true)
    ⟨⟨1, 1, []⟩, some 1, some 1, none, rfl⟩).1
  have hpart := hpages
    (fun page => ⟨(ListQuery.onPage ⟨1, 1, []⟩ page).sqlLimited (if page = 2 then [2, 1] else [1, 2]), 2⟩)
    fun page _ _ => ⟨_, ⟨by split <;> decide, List.pairwise_of_forall fun _ _ => rfl⟩, rfl⟩
  exact absurd hpart.1 (by decide)

end Responses
end Vai
