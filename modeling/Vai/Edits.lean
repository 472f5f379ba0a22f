import Vai.Text
/-!
# Edits — replacing ranges of a list

An edit replaces the elements of a list from `start` up to `stop` by `new`; one with `start = stop` inserts.  `splice`
applies a list of edits in one pass from the left, as a patch is applied.  `simultaneous` is what a set of edits means
together: at every place the insertions there, then what replaces a range that starts there, and the element itself where
no range covers it.

The pass stays inside the list exactly for edits in order (`inRange_iff`), and then it computes the simultaneous result
(`splice_eq_simultaneous`), which does not depend on the order of edits that differ in place or kind
(`simultaneous_perm`) and is a rearrangement of the base and what is added, less what is removed (`count_splice`).
-/
namespace Vai

structure Edit (α : Type) where
  start : Nat
  stop : Nat
  new : List α

namespace Edit

variable {α β : Type}

def map (f : α → β) (e : Edit α) : Edit β := ⟨e.start, e.stop, e.new.map f⟩

/-! ## One pass from the left -/

/-- `pos` is the place the pass has reached; `none` where it leaves the list. -/
def splice (base : List α) : Nat → List (Edit α) → Option (List α)
  | pos, [] => slice base pos base.length
  | pos, e :: l => do
    let kept ← slice base pos e.start
    let rest ← splice base (if e.stop > pos then e.stop else pos) l
    return kept ++ e.new ++ rest

/-- Every slice the pass takes is inside a list of length `len`. -/
def InRange (len : Nat) : Nat → List (Edit α) → Prop
  | pos, [] => pos ≤ len
  | pos, e :: l => pos ≤ e.start ∧ e.start ≤ len ∧ InRange len (if e.stop > pos then e.stop else pos) l

/-- Edits of a list of length `len`. -/
def Within (len : Nat) (l : List (Edit α)) : Prop := ∀ e ∈ l, e.start ≤ e.stop ∧ e.stop ≤ len

theorem slice_eq_some {base : List α} {a b : Nat} {out : List α} :
    slice base a b = some out ↔ a ≤ b ∧ b ≤ base.length ∧ (base.take b).drop a = out := by
  unfold slice
  split <;> simp_all

theorem isSome_slice {base : List α} {a b : Nat} : (slice base a b).isSome ↔ a ≤ b ∧ b ≤ base.length := by
  unfold slice
  split <;> simp_all

theorem isSome_splice (base : List α) : ∀ (l : List (Edit α)) (pos : Nat),
    (splice base pos l).isSome ↔ InRange base.length pos l
  | [], pos => by simp [splice, InRange, isSome_slice]
  | e :: l, pos => by
    have ih := isSome_splice base l (if e.stop > pos then e.stop else pos)
    have hs : (slice base pos e.start).isSome ↔ _ := isSome_slice
    unfold InRange
    rw [← ih, ← and_assoc, ← hs, splice]
    cases slice base pos e.start with
    | none => simp
    | some kept =>
      cases splice base (if e.stop > pos then e.stop else pos) l <;> simp

theorem inRange_iff {len : Nat} : ∀ {l : List (Edit α)} {pos : Nat}, Within len l → pos ≤ len →
    (InRange len pos l ↔ (∀ e ∈ l, pos ≤ e.start) ∧ l.Pairwise (fun a b => a.stop ≤ b.start))
  | [], pos, _, hpos => by simp [InRange, hpos]
  | e :: l, pos, hw, hpos => by
    obtain ⟨hse, hel⟩ := hw e List.mem_cons_self
    have hw' : Within len l := fun x hx => hw x (List.mem_cons_of_mem _ hx)
    have hnext : ∀ h : pos ≤ e.start, (if e.stop > pos then e.stop else pos) = e.stop := fun h => by
      split <;> omega
    unfold InRange
    rw [List.forall_mem_cons, List.pairwise_cons]
    constructor
    · rintro ⟨h1, -, h3⟩
      rw [hnext h1, inRange_iff hw' hel] at h3
      exact ⟨⟨h1, fun x hx => le_trans h1 (le_trans hse (h3.1 x hx))⟩, h3⟩
    · rintro ⟨⟨h1, -⟩, h3⟩
      rw [hnext h1, inRange_iff hw' hel]
      exact ⟨h1, le_trans hse hel, h3⟩

theorem splice_map (f : α → β) (base : List α) : ∀ (l : List (Edit α)) (pos : Nat),
    splice (base.map f) pos (l.map (map f)) = (splice base pos l).map (List.map f)
  | [], pos => by
    rw [List.map_nil, splice, splice, slice, slice, List.length_map]
    split
    · simp [← List.map_take]
    · rfl
  | e :: l, pos => by
    have ih := splice_map f base l (if e.stop > pos then e.stop else pos)
    have hs : slice (base.map f) pos e.start = (slice base pos e.start).map (List.map f) := by
      unfold slice
      rw [List.length_map]
      split <;> simp
    rw [List.map_cons, splice, splice]
    change (do
      let kept ← slice (base.map f) pos e.start
      let rest ← splice (base.map f) (if e.stop > pos then e.stop else pos) (l.map (map f))
      return kept ++ e.new.map f ++ rest) = _
    rw [hs, ih]
    cases slice base pos e.start with
    | none => rfl
    | some kept =>
      cases splice base (if e.stop > pos then e.stop else pos) l with
      | none => rfl
      | some rest => simp

/-! ## All at once -/

def inserted (l : List (Edit α)) (i : Nat) : List α :=
  (l.filter (fun e => e.start = i ∧ e.stop = i)).flatMap Edit.new

def replaced (l : List (Edit α)) (i : Nat) : List α :=
  (l.filter (fun e => e.start = i ∧ i < e.stop)).flatMap Edit.new

def kept (base : List α) (l : List (Edit α)) (i : Nat) : List α :=
  if l.any (fun e => e.start ≤ i ∧ i < e.stop) then [] else base[i]?.toList

/-- What stands at place `i` of the result. -/
def around (base : List α) (l : List (Edit α)) (i : Nat) : List α := inserted l i ++ replaced l i ++ kept base l i

def simultaneousFrom (base : List α) (l : List (Edit α)) (pos : Nat) : List α :=
  (List.range' pos (base.length + 1 - pos)).flatMap (around base l)

def simultaneous (base : List α) (l : List (Edit α)) : List α := simultaneousFrom base l 0

theorem simultaneousFrom_step {base : List α} {l : List (Edit α)} {pos : Nat} (h : pos ≤ base.length) :
    simultaneousFrom base l pos = around base l pos ++ simultaneousFrom base l (pos + 1) := by
  unfold simultaneousFrom
  rw [show base.length + 1 - pos = base.length + 1 - (pos + 1) + 1 by omega, List.range'_succ, List.flatMap_cons]

theorem simultaneousFrom_end (base : List α) (l : List (Edit α)) : simultaneousFrom base l (base.length + 1) = [] := by
  simp [simultaneousFrom]

theorem simultaneousFrom_congr {base : List α} {l l' : List (Edit α)} {pos : Nat}
    (h : ∀ i, pos ≤ i → around base l i = around base l' i) : simultaneousFrom base l pos = simultaneousFrom base l' pos := by
  unfold simultaneousFrom
  exact List.flatMap_congr fun i hi => h i (List.mem_range'_1.1 hi).1

theorem around_before {base : List α} {l : List (Edit α)} {i : Nat} (h : ∀ e ∈ l, i < e.start) :
    around base l i = base[i]?.toList := by
  have h1 : l.filter (fun e => e.start = i ∧ e.stop = i) = [] :=
    List.filter_eq_nil_iff.2 fun e he => by have := h e he; simp; omega
  have h2 : l.filter (fun e => e.start = i ∧ i < e.stop) = [] :=
    List.filter_eq_nil_iff.2 fun e he => by have := h e he; simp; omega
  have h3 : l.any (fun e => e.start ≤ i ∧ i < e.stop) = false :=
    List.any_eq_false.2 fun e he => by have := h e he; simp; omega
  unfold around inserted replaced kept
  rw [h1, h2, h3]
  simp

theorem simultaneousFrom_before {base : List α} {l : List (Edit α)} (k : Nat) (hk : k ≤ base.length)
    (h : ∀ e ∈ l, k ≤ e.start) : ∀ (d pos : Nat), pos + d = k →
    simultaneousFrom base l pos = (base.take k).drop pos ++ simultaneousFrom base l k
  | 0, pos, hd => by
    subst hd
    rw [Nat.add_zero, List.drop_eq_nil_of_le (by simp), List.nil_append]
  | d + 1, pos, hd => by
    rw [simultaneousFrom_step (by omega), around_before (fun e he => by have := h e he; omega),
      simultaneousFrom_before k hk h d (pos + 1) (by omega)]
    have hlt : pos < (base.take k).length := by rw [List.length_take]; omega
    rw [List.drop_eq_getElem_cons hlt, List.getElem_take, List.getElem?_eq_getElem (by omega)]
    simp

theorem around_insertion {base : List α} {e : Edit α} {l : List (Edit α)} (he : e.start = e.stop) (i : Nat) :
    around base (e :: l) i = (if e.start = i then e.new else []) ++ around base l i := by
  have h2 : (e :: l).filter (fun x => x.start = i ∧ i < x.stop) = l.filter (fun x => x.start = i ∧ i < x.stop) :=
    List.filter_cons_of_neg (by simp; omega)
  have h3 : (e :: l).any (fun x => x.start ≤ i ∧ i < x.stop) = l.any (fun x => x.start ≤ i ∧ i < x.stop) := by
    rw [List.any_cons, decide_eq_false (by omega), Bool.false_or]
  unfold around inserted replaced kept
  rw [h2, h3, List.filter_cons]
  by_cases hi : e.start = i
  · rw [if_pos (decide_eq_true ⟨hi, by omega⟩), if_pos hi, List.flatMap_cons]
    simp
  · rw [if_neg (by simp [hi]), if_neg hi]
    simp

theorem around_replacement {base : List α} {e : Edit α} {l : List (Edit α)} (he : e.start < e.stop)
    (hl : ∀ x ∈ l, e.stop ≤ x.start) {i : Nat} (hi : e.start ≤ i) :
    around base (e :: l) i = (if e.start = i then e.new else []) ++ (if i < e.stop then [] else around base l i) := by
  have h1 : (e :: l).filter (fun x => x.start = i ∧ x.stop = i) = l.filter (fun x => x.start = i ∧ x.stop = i) :=
    List.filter_cons_of_neg (by simp; omega)
  have hany : (e :: l).any (fun x => x.start ≤ i ∧ i < x.stop) =
      (decide (i < e.stop) || l.any (fun x => x.start ≤ i ∧ i < x.stop)) := by
    rw [List.any_cons]
    congr 1
    exact decide_eq_decide.2 ⟨And.right, fun h => ⟨hi, h⟩⟩
  unfold around inserted replaced kept
  rw [h1, hany, List.filter_cons]
  by_cases hlt : i < e.stop
  · have hn1 : l.filter (fun x => x.start = i ∧ x.stop = i) = [] :=
      List.filter_eq_nil_iff.2 fun x hx => by have := hl x hx; simp; omega
    have hn2 : l.filter (fun x => x.start = i ∧ i < x.stop) = [] :=
      List.filter_eq_nil_iff.2 fun x hx => by have := hl x hx; simp; omega
    rw [hn1, hn2, if_pos hlt]
    by_cases hs : e.start = i
    · simp [hs, hlt]
    · simp [hs, hlt]
  · simp [hlt, show e.start ≠ i by omega]

/-- From its start on, a first replacement stands alone up to its end. -/
theorem simultaneousFrom_replacement {base : List α} {e : Edit α} {l : List (Edit α)} (he : e.start < e.stop)
    (hlen : e.stop ≤ base.length) (hl : ∀ x ∈ l, e.stop ≤ x.start) :
    simultaneousFrom base (e :: l) e.start = e.new ++ simultaneousFrom base l e.stop := by
  have htail : ∀ d pos, e.start < pos → pos + d = e.stop →
      simultaneousFrom base (e :: l) pos = simultaneousFrom base l e.stop := by
    intro d
    induction d with
    | zero =>
      intro pos _ hd
      rw [← hd, Nat.add_zero]
      refine simultaneousFrom_congr fun i hi => ?_
      rw [around_replacement he hl (by omega), if_neg (by omega), if_neg (by omega), List.nil_append]
    | succ d ih =>
      intro pos hpos hd
      rw [simultaneousFrom_step (by omega), around_replacement he hl (by omega), if_neg (by omega), if_pos (by omega),
        ih (pos + 1) (by omega) (by omega)]
      simp
  rw [simultaneousFrom_step (by omega), around_replacement he hl le_rfl, if_pos rfl, if_pos he,
    htail (e.stop - e.start - 1) (e.start + 1) (by omega) (by omega), List.append_nil]

theorem simultaneousFrom_insertion {base : List α} {e : Edit α} {l : List (Edit α)} (he : e.start = e.stop)
    (hlen : e.stop ≤ base.length) :
    simultaneousFrom base (e :: l) e.start = e.new ++ simultaneousFrom base l e.stop := by
  have h1 : simultaneousFrom base (e :: l) e.start = _ := simultaneousFrom_step (by omega)
  have h2 : simultaneousFrom base l e.start = _ := simultaneousFrom_step (by omega)
  have h3 : simultaneousFrom base (e :: l) (e.start + 1) = simultaneousFrom base l (e.start + 1) := by
    refine simultaneousFrom_congr fun i hi => ?_
    rw [around_insertion he, if_neg (by omega), List.nil_append]
  rw [h1, ← he, h2, h3, around_insertion he, if_pos rfl, List.append_assoc]

/-- **A pass that stays inside the list computes the simultaneous result.** -/
theorem splice_eq_simultaneous {base : List α} : ∀ {l : List (Edit α)} {pos : Nat}, Within base.length l →
    InRange base.length pos l → splice base pos l = some (simultaneousFrom base l pos)
  | [], pos, _, h => by
    have hb := simultaneousFrom_before (l := ([] : List (Edit α))) base.length le_rfl (by simp) (base.length - pos) pos
      (by have : pos ≤ base.length := h; omega)
    rw [hb, simultaneousFrom_step le_rfl, around_before (by simp), simultaneousFrom_end]
    exact slice_eq_some.2 ⟨h, le_rfl, by simp⟩
  | e :: l, pos, hw, h => by
    obtain ⟨hse, hel⟩ := hw e List.mem_cons_self
    have hw' : Within base.length l := fun x hx => hw x (List.mem_cons_of_mem _ hx)
    have hpos : pos ≤ base.length := le_trans h.1 h.2.1
    have hord := (inRange_iff hw hpos).1 h
    have hafter := (List.pairwise_cons.1 hord.2).1
    have hnext : (if e.stop > pos then e.stop else pos) = e.stop := by
      have := h.1
      split <;> omega
    have hrest := h.2.2
    rw [hnext] at hrest
    have ih := splice_eq_simultaneous hw' hrest
    have hskip := simultaneousFrom_before (l := e :: l) e.start h.2.1
      (List.forall_mem_cons.2 ⟨le_rfl, fun x hx => le_trans hse (hafter x hx)⟩) (e.start - pos) pos
      (by have := h.1; omega)
    have hstep : simultaneousFrom base (e :: l) e.start = e.new ++ simultaneousFrom base l e.stop := by
      by_cases he : e.start = e.stop
      · exact simultaneousFrom_insertion he hel
      · exact simultaneousFrom_replacement (by omega) hel hafter
    rw [splice, hnext, slice_eq_some.2 ⟨h.1, h.2.1, rfl⟩, ih, hskip, hstep]
    simp

theorem mem_simultaneous_of_kept {base : List α} {l : List (Edit α)} {x : α} {i : Nat} (hx : base[i]? = some x)
    (h : ∀ e ∈ l, ¬ (e.start ≤ i ∧ i < e.stop)) : x ∈ simultaneous base l := by
  have hi : i < base.length := (List.getElem?_eq_some_iff.1 hx).1
  refine List.mem_flatMap.2 ⟨i, List.mem_range'_1.2 ⟨Nat.zero_le i, by omega⟩, ?_⟩
  unfold around kept
  rw [if_neg (by simpa using h), hx]
  exact List.mem_append_right _ (by simp)

theorem kept_of_mem_simultaneous {base : List α} {l : List (Edit α)} {x : α} (h : x ∈ simultaneous base l) :
    (∃ i, base[i]? = some x ∧ ∀ e ∈ l, ¬ (e.start ≤ i ∧ i < e.stop)) ∨ ∃ e ∈ l, x ∈ e.new := by
  obtain ⟨i, -, hx⟩ := List.mem_flatMap.1 h
  unfold around inserted replaced kept at hx
  rcases List.mem_append.1 hx with hx | hx
  · rcases List.mem_append.1 hx with hx | hx
    · obtain ⟨e, he, hx⟩ := List.mem_flatMap.1 hx
      exact .inr ⟨e, (List.mem_filter.1 he).1, hx⟩
    · obtain ⟨e, he, hx⟩ := List.mem_flatMap.1 hx
      exact .inr ⟨e, (List.mem_filter.1 he).1, hx⟩
  · split at hx
    · exact absurd hx List.not_mem_nil
    · rename_i hno
      exact .inl ⟨i, Option.mem_toList.1 hx, by simpa using hno⟩

theorem infix_flatMap {β : Type} (f : α → List β) {l : List α} {a : α} (h : a ∈ l) : f a <:+: l.flatMap f :=
  List.infix_of_mem_flatten (List.mem_map_of_mem h)

theorem infix_simultaneous {base : List α} {l : List (Edit α)} {e : Edit α} (he : e ∈ l) (hlt : e.start < e.stop)
    (hlen : e.start ≤ base.length) : e.new <:+: simultaneous base l := by
  have hmem : e ∈ l.filter (fun x => x.start = e.start ∧ e.start < x.stop) := List.mem_filter.2 ⟨he, by simpa using hlt⟩
  have hhere : e.new <:+: replaced l e.start := infix_flatMap Edit.new hmem
  have haround : replaced l e.start <:+: around base l e.start :=
    ⟨inserted l e.start, kept base l e.start, rfl⟩
  exact (hhere.trans haround).trans
    (infix_flatMap (around base l) (List.mem_range'_1.2 ⟨Nat.zero_le _, by omega⟩))

/-- The edits and what they cover apart, nothing has changed. -/
theorem filter_simultaneous {base : List α} {l : List (Edit α)} {p : α → Bool} (hnew : ∀ e ∈ l, ∀ x ∈ e.new, p x = false)
    (hcovered : ∀ e ∈ l, ∀ i x, e.start ≤ i → i < e.stop → base[i]? = some x → p x = false) :
    (simultaneous base l).filter p = base.filter p := by
  have hall : simultaneous base ([] : List (Edit α)) = base := by
    have h := @simultaneousFrom_before _ base [] base.length le_rfl (by simp) base.length 0 (by omega)
    have hend := @simultaneousFrom_step _ base [] _ le_rfl
    rw [simultaneousFrom_end, List.append_nil, around_before (by simp)] at hend
    rw [hend] at h
    unfold simultaneous
    rw [h]
    simp
  rw [← congrArg (List.filter p) hall]
  unfold simultaneous simultaneousFrom
  rw [List.filter_flatMap, List.filter_flatMap]
  refine List.flatMap_congr fun i _ => ?_
  have hnil : ∀ q : Edit α → Bool, ((l.filter q).flatMap Edit.new).filter p = [] := fun q => by
    refine List.filter_eq_nil_iff.2 fun x hx => ?_
    obtain ⟨e, he, hx⟩ := List.mem_flatMap.1 hx
    rw [hnew e (List.mem_of_mem_filter he) x hx]
    exact Bool.false_ne_true
  rw [around_before (l := []) (by simp)]
  unfold around inserted replaced kept
  rw [List.filter_append, List.filter_append, hnil, hnil, List.nil_append, List.nil_append]
  split
  · rename_i hc
    obtain ⟨e, he, hi⟩ := List.any_eq_true.1 hc
    rw [decide_eq_true_eq] at hi
    cases hx : base[i]? with
    | none => rfl
    | some x => simp [hcovered e he i x hi.1 hi.2 hx]
  · rfl

theorem mem_simultaneous {base : List α} {l : List (Edit α)} {x : α} (h : x ∈ simultaneous base l) :
    x ∈ base ∨ ∃ e ∈ l, x ∈ e.new :=
  (kept_of_mem_simultaneous h).imp_left fun ⟨_, hx, _⟩ => List.mem_of_getElem? hx

theorem simultaneous_map (f : α → β) (base : List α) (l : List (Edit α)) :
    simultaneous (base.map f) (l.map (map f)) = (simultaneous base l).map f := by
  unfold simultaneous simultaneousFrom
  rw [List.length_map, List.map_flatMap]
  refine List.flatMap_congr fun i _ => ?_
  have hmap : ∀ p : Edit α → Bool, ∀ q : Edit β → Bool, (∀ e, q (map f e) = p e) →
      ((l.map (map f)).filter q).flatMap Edit.new = ((l.filter p).flatMap Edit.new).map f := by
    intro p q hpq
    rw [List.filter_map, List.flatMap_map, List.map_flatMap, show q ∘ map f = p from funext hpq]
    rfl
  unfold around inserted replaced kept
  rw [hmap _ _ (fun e => rfl), hmap _ _ (fun e => rfl), List.map_append, List.map_append, List.any_map]
  congr 1
  have hany : (l.any ((fun e => decide (e.start ≤ i ∧ i < e.stop)) ∘ map f)) =
      l.any (fun e => decide (e.start ≤ i ∧ i < e.stop)) := rfl
  rw [hany]
  split
  · rfl
  · rw [List.getElem?_map]
    cases base[i]? <;> rfl

/-! ## The order of the edits -/

/-- No two edits start at the same place and both insert or both replace. -/
def Unlike (l : List (Edit α)) : Prop :=
  l.Pairwise fun a b => a.start = b.start → (a.start = a.stop ↔ ¬ b.start = b.stop)

theorem filter_perm_of_unlike {l l' : List (Edit α)} (h : Unlike l) (hp : l.Perm l') {p : Edit α → Bool}
    (hpp : ∀ a b, p a = true → p b = true → a.start = b.start ∧ ¬ (a.start = a.stop ↔ ¬ b.start = b.stop)) :
    l.filter p = l'.filter p := by
  have hone : (l.filter p).length ≤ 1 := by
    have hpw := List.Pairwise.filter p h
    rcases hl : l.filter p with _ | ⟨a, _ | ⟨b, t⟩⟩
    · simp
    · simp
    · rw [hl, List.pairwise_cons] at hpw
      have ha : p a = true := (List.mem_filter.1 (by rw [hl]; simp : a ∈ l.filter p)).2
      have hb : p b = true := (List.mem_filter.1 (by rw [hl]; simp : b ∈ l.filter p)).2
      exact absurd (hpw.1 b List.mem_cons_self (hpp a b ha hb).1) (hpp a b ha hb).2
  have hperm := hp.filter p
  rcases hl : l.filter p with _ | ⟨a, _ | ⟨b, t⟩⟩
  · rw [hl] at hperm
    exact hperm.nil_eq
  · rw [hl] at hperm
    exact List.singleton_perm.1 hperm
  · rw [hl] at hone
    simp at hone

/-- **Edits that differ in place or kind may come in any order.** -/
theorem simultaneous_perm {base : List α} {l l' : List (Edit α)} (h : Unlike l) (hp : l.Perm l') :
    simultaneous base l = simultaneous base l' := by
  refine simultaneousFrom_congr fun i _ => ?_
  unfold around inserted replaced kept
  rw [filter_perm_of_unlike h hp (by simp; omega), filter_perm_of_unlike h hp (by simp; omega), hp.any_eq]

/-! ## What is added and what is removed -/

def added (l : List (Edit α)) : List α := l.flatMap Edit.new

def removed (base : List α) (l : List (Edit α)) : List α := l.flatMap (fun e => (base.take e.stop).drop e.start)

theorem count_splice [BEq α] [LawfulBEq α] (x : α) {base : List α} : ∀ {l : List (Edit α)} {pos : Nat} {out : List α},
    Within base.length l → splice base pos l = some out →
    out.count x + (removed base l).count x = (base.drop pos).count x + (added l).count x
  | [], pos, out, _, h => by
    obtain ⟨-, -, rfl⟩ := slice_eq_some.1 h
    simp [removed, added]
  | e :: l, pos, out, hw, h => by
    have hin : InRange base.length pos (e :: l) := (isSome_splice base (e :: l) pos).1 (by rw [h]; rfl)
    obtain ⟨hse, hel⟩ := hw e List.mem_cons_self
    have hw' : Within base.length l := fun x hx => hw x (List.mem_cons_of_mem _ hx)
    have hnext : (if e.stop > pos then e.stop else pos) = e.stop := by
      have := hin.1
      split <;> omega
    rw [splice, hnext, slice_eq_some.2 ⟨hin.1, hin.2.1, rfl⟩] at h
    cases hr : splice base e.stop l with
    | none => rw [hr] at h; cases h
    | some rest =>
      rw [hr] at h
      cases h
      have ih := count_splice x hw' hr
      -- the base from `pos` on is what is kept, what the edit removes, and the rest
      have h1 : (base.drop pos).count x = ((base.take e.start).drop pos).count x + (base.drop e.start).count x := by
        have hsplit : base.drop pos = (base.take e.start).drop pos ++ base.drop e.start := by
          rw [← List.drop_append_of_le_length (by rw [List.length_take]; have := hin.1; have := hin.2.1; omega),
            List.take_append_drop]
        rw [hsplit, List.count_append]
      have h2 : (base.drop e.start).count x = ((base.take e.stop).drop e.start).count x + (base.drop e.stop).count x := by
        have hsplit : base.drop e.start = (base.take e.stop).drop e.start ++ base.drop e.stop := by
          rw [← List.drop_append_of_le_length (by rw [List.length_take]; omega), List.take_append_drop]
        rw [hsplit, List.count_append]
      simp only [removed, added, List.flatMap_cons, List.count_append] at ih ⊢
      omega

end Edit
end Vai
