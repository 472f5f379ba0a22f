import Vai.EntitySplice
/-!
# EntityKept — what an entity merge keeps of the workspace

A merge at level 2 starts from HEAD and writes the texts of the changed entities that the workspace has.  An entity that
the workspace removed has no text to write, and what it changed between its entities is in no span: both are left as HEAD
has them (`level2_keeps_iff`).
-/
namespace Vai
namespace Merge

open Edit (Nested Steady Inside outermost fromBack simultaneous)

/-! ## What is in a result -/

/-- The place of the workspace that a byte comes from. -/
def placeOf (x : Labelled) : Option Nat :=
  match x.2 with
  | .entity _ i => some i
  | _ => none

/-- The byte is that of this place of HEAD. -/
def headPlace (x : Labelled) : Option Nat :=
  match x.2 with
  | .head i => some i
  | _ => none

/-- No entity has the place in its span. -/
def Between (es : List Entity) (i : Nat) : Prop := ∀ e ∈ es, ¬ (e.byteRange.1 ≤ i ∧ i < e.byteRange.2)

instance (es : List Entity) (i : Nat) : Decidable (Between es i) := List.decidableBAll _ _

/-- The byte comes from a place between the entities of its file. -/
def betweenByte (hs ss : List Entity) (x : Labelled) : Bool :=
  match x.2 with
  | .head i => Between hs i
  | .entity _ i => Between ss i
  | .newline => false

/-- What a file has between its entities. -/
def outside (es : List Entity) (c : Bytes) : Bytes := bytes ((labelled .head 0 c).filter (betweenByte es []))

section Kept

variable (base head ws : Bytes) (bs hs ss : List Entity) (out : List Labelled)

/-- Every entity that the workspace added or modified is in the result, with its text in one piece. -/
def ChangedKept : Prop :=
  ∀ id ∈ changedEntityIds bs base ss ws, ∀ e c, byId ss id = some e → span ws e = some c →
    ∃ t, t <:+: out ∧ bytes t = c ∧ t.map placeOf = (List.range' e.byteRange.1 c.length).map some

/-- No byte of an entity that the workspace removed is left. -/
def RemovedGone : Prop :=
  ∀ id ∈ ids bs, id ∉ ids ss → ∀ h, byId hs id = some h → ∀ x ∈ out, ∀ i, headPlace x = some i →
    ¬ (h.byteRange.1 ≤ i ∧ i < h.byteRange.2)

/-- What the workspace changed between the entities of the base is changed between those of the result. -/
def OutsideKept : Prop :=
  ∀ k ∈ computeHunks (splitLines (outside bs base)) (splitLines (outside ss ws)),
    k ∈ computeHunks (splitLines (outside bs base)) (splitLines (bytes (out.filter (betweenByte hs ss))))

/-- **No change of the workspace is lost.** -/
structure KeepsWorkspace : Prop where
  changed : ChangedKept base ws bs ss out
  removed : RemovedGone bs hs ss out
  outside : OutsideKept base ws bs hs ss out

end Kept

/-! ## What decides it -/

section Causes

variable (env : Env) (base head ws : Bytes) (bs hs ss : List Entity)

/-- The replacements of a merge. -/
def levelTwoEdits : List (Edit Labelled) := replacedEdits env head ws hs ss (changedEntityIds bs base ss ws)

/-- The text of every changed entity is part of a text that is written. -/
def ChangedCovered : Prop :=
  ∀ id ∈ changedEntityIds bs base ss ws, ∀ e, byId ss id = some e → ∃ id' ∈ changedEntityIds bs base ss ws, ∃ e',
    Written env head ws hs ss (changedEntityIds bs base ss ws) id' e' ∧ e'.byteRange.1 ≤ e.byteRange.1 ∧
      e.byteRange.2 ≤ e'.byteRange.2

/-- What the workspace removed was inside something that is replaced. -/
def RemovedCovered : Prop :=
  ∀ id ∈ ids bs, id ∉ ids ss → ∀ h, byId hs id = some h → ∃ f ∈ levelTwoEdits env base head ws bs hs ss,
    f.start ≤ h.byteRange.1 ∧ h.byteRange.2 ≤ f.stop

/-- HEAD has every change that the workspace made between its entities. -/
def OutsideShared : Prop :=
  ∀ k ∈ computeHunks (splitLines (outside bs base)) (splitLines (outside ss ws)),
    k ∈ computeHunks (splitLines (outside bs base)) (splitLines (outside hs head))

end Causes

section Spec

variable {env : Env} {base head ws : Bytes} {bs hs ss : List Entity} {out : List Labelled}

theorem placeOf_eq_some {x : Labelled} {i : Nat} : placeOf x = some i ↔ comesFrom i x = true := by
  unfold placeOf comesFrom
  cases x.2 <;> simp

theorem map_placeOf_labelled (id : Text) : ∀ (k : Nat) (c : Bytes),
    (labelled (.entity id) k c).map placeOf = (List.range' k c.length).map some
  | _, [] => rfl
  | k, b :: c => by
    rw [labelled, List.map_cons, map_placeOf_labelled id (k + 1) c, List.length_cons, List.range'_succ]
    rfl

theorem labelled_append (origin : Nat → Origin) : ∀ (k : Nat) (a b : Bytes),
    labelled origin k (a ++ b) = labelled origin k a ++ labelled origin (k + a.length) b
  | _, [], _ => rfl
  | k, x :: a, b => by
    rw [List.cons_append, labelled, labelled, labelled_append origin (k + 1) a b, List.cons_append, List.length_cons]
    congr 3
    omega

theorem getElem?_labelled {origin : Nat → Origin} : ∀ {k : Nat} {c : Bytes} {i : Nat} {x : Labelled},
    (labelled origin k c)[i]? = some x → x.2 = origin (k + i)
  | _, [], _, _, h => by cases h
  | k, b :: c, 0, x, h => by cases h; rfl
  | k, b :: c, i + 1, x, h => by
    rw [labelled, List.getElem?_cons_succ] at h
    rw [getElem?_labelled h]
    congr 1
    omega

theorem infix_labelled {id : Text} {k : Nat} {c : Bytes} {a b : Nat} (h1 : k ≤ a) (h2 : a ≤ b) (h3 : b ≤ k + c.length) :
    labelled (.entity id) a ((c.take (b - k)).drop (a - k)) <:+: labelled (.entity id) k c := by
  have hsplit : c = c.take (a - k) ++ ((c.take (b - k)).drop (a - k) ++ c.drop (b - k)) := by
    have hmid : c.take (a - k) ++ (c.take (b - k)).drop (a - k) = c.take (b - k) := by
      have h := List.take_append_drop (a - k) (c.take (b - k))
      rwa [List.take_take, min_eq_left (by omega)] at h
    rw [← List.append_assoc, hmid, List.take_append_drop]
  have hlen : k + (c.take (a - k)).length = a := by
    rw [List.length_take]
    omega
  refine ⟨labelled (.entity id) k (c.take (a - k)),
    labelled (.entity id) (a + ((c.take (b - k)).drop (a - k)).length) (c.drop (b - k)), ?_⟩
  conv_rhs => rw [hsplit]
  rw [labelled_append, labelled_append, hlen, List.append_assoc]

/-! ## The bytes of a result -/

theorem mem_closedLabelled {x : Labelled} {t : List Labelled} (h : x ∈ closedLabelled t) : x ∈ t ∨ x.2 = .newline := by
  unfold closedLabelled at h
  split at h
  · exact .inl h
  · rcases List.mem_append.1 h with h | h
    · exact .inl h
    · rw [List.mem_singleton.1 h]
      exact .inr rfl

theorem mem_withLabelledAdditions {x : Labelled} {spliced : List Labelled} {texts : List (List Labelled)}
    (h : x ∈ withLabelledAdditions spliced texts) : x ∈ spliced ∨ (∃ t ∈ texts, x ∈ t) ∨ x.2 = .newline := by
  unfold withLabelledAdditions at h
  split at h
  · exact .inl h
  · rcases List.mem_append.1 h with h | h
    · unfold ensureNewlineLabelled at h
      split at h
      · exact .inl h
      · rcases List.mem_append.1 h with h | h
        · exact .inl h
        · rw [List.mem_singleton.1 h]
          exact .inr (.inr rfl)
    · obtain ⟨t, ht, h⟩ := List.mem_flatMap.1 h
      exact (mem_closedLabelled h).elim (fun h => .inr (.inl ⟨t, ht, h⟩)) fun h => .inr (.inr h)

theorem prefix_withLabelledAdditions (spliced : List Labelled) (texts : List (List Labelled)) :
    spliced <+: withLabelledAdditions spliced texts := by
  unfold withLabelledAdditions
  split
  · exact List.prefix_rfl
  · refine List.IsPrefix.trans ?_ (List.prefix_append _ _)
    unfold ensureNewlineLabelled
    split
    · exact List.prefix_rfl
    · exact List.prefix_append _ _

theorem filter_withLabelledAdditions {p : Labelled → Bool} {spliced : List Labelled} {texts : List (List Labelled)}
    (hn : ∀ x : Labelled, x.2 = .newline → p x = false) (ht : ∀ t ∈ texts, ∀ x ∈ t, p x = false) :
    (withLabelledAdditions spliced texts).filter p = spliced.filter p := by
  obtain ⟨rest, happend, hrest⟩ : ∃ rest, withLabelledAdditions spliced texts = spliced ++ rest ∧
      ∀ x ∈ rest, x.2 = .newline ∨ ∃ t ∈ texts, x ∈ t := by
    unfold withLabelledAdditions ensureNewlineLabelled
    split
    · exact ⟨[], (List.append_nil _).symm, by simp⟩
    · have hflat : ∀ x ∈ texts.flatMap closedLabelled, x.2 = .newline ∨ ∃ t ∈ texts, x ∈ t := fun x hx => by
        obtain ⟨t, ht, hx⟩ := List.mem_flatMap.1 hx
        exact (mem_closedLabelled hx).elim (fun h => .inr ⟨t, ht, h⟩) .inl
      split
      · exact ⟨_, rfl, hflat⟩
      · refine ⟨_, List.append_assoc _ _ _, fun x hx => ?_⟩
        rcases List.mem_append.1 hx with hx | hx
        · rw [List.mem_singleton.1 hx]
          exact .inl rfl
        · exact hflat x hx
  have hnil : rest.filter p = [] := List.filter_eq_nil_iff.2 fun x hx => by
    rcases hrest x hx with h | ⟨t, htt, h⟩
    · simp [hn x h]
    · simp [ht t htt x h]
  rw [happend, List.filter_append, hnil, List.append_nil]

theorem nodup_changedEntityIds (bs ss : List Entity) (base ws : Bytes) : (changedEntityIds bs base ss ws).Nodup := by
  unfold changedEntityIds
  refine List.nodup_append.2 ⟨(List.nodup_dedup _).filter _, (List.nodup_dedup _).filter _, fun x hx y hy h => ?_⟩
  have hy' := (List.mem_filter.1 hy).2
  rw [← h] at hy'
  simp only [decide_eq_true_eq] at hy'
  exact hy' (List.mem_of_mem_filter hx)

section Merged

variable (hhs : RustSource.Spans 0 head.length hs) (hss : RustSource.Spans 0 ws.length ss)
variable {l : List Text} (hl : l.Nodup)

/-- What level 2 writes when no splice disturbs another. -/
def steadyResult (env : Env) (head ws : Bytes) (hs ss : List Entity) (l : List Text) : List Labelled :=
  withLabelledAdditions (simultaneous (labelled .head 0 head) (outermost (replacedEdits env head ws hs ss l)))
    (labelledAdditions env ws hs ss l)

include hhs hl in
theorem infix_of_written {id : Text} {e : Entity} {t : List Labelled} (hid : id ∈ l) (hw : Written env head ws hs ss l id e)
    (ht : labelledText ws ss id = some t) : t <:+: steadyResult env head ws hs ss l := by
  rcases hw.2 with hnone | ⟨f, hf, hrep⟩
  · refine infix_withLabelledAdditions (mem_labelledAdditions.2 ⟨id, hid, ?_⟩)
    unfold labelledAddition
    rw [if_neg (by rw [hnone]; simp), ht]
  · have hnested : Nested head.length (replacedEdits env head ws hs ss l) := nested_replacedEdits hhs hl
    have hn := hnested.1 f (List.mem_of_mem_filter hf)
    obtain ⟨t', h, ht', -, rfl⟩ := labelledReplacement_eq_some.1 hrep
    rw [ht] at ht'
    cases ht'
    have hin := @Edit.infix_simultaneous _ (labelled .head 0 head) _ _ hf hn.1 (by rw [length_labelled]; omega)
    exact hin.trans (prefix_withLabelledAdditions _ _).isInfix

include hss in
/-- And every byte of the workspace in it is of a written text. -/
theorem written_of_mem {x : Labelled} {i : Nat} (hx : x ∈ steadyResult env head ws hs ss l) (hi : placeOf x = some i) :
    ∃ id ∈ l, ∃ e, Written env head ws hs ss l id e ∧ e.byteRange.1 ≤ i ∧ i < e.byteRange.2 := by
  have hcount : ∀ {id : Text} {e : Entity} {t : List Labelled}, byId ss id = some e → labelledText ws ss id = some t →
      x ∈ t → e.byteRange.1 ≤ i ∧ i < e.byteRange.2 := fun he ht hxt => by
    by_contra hno
    have h0 := countP_labelledText hss he ht i
    rw [if_neg hno] at h0
    exact List.countP_eq_zero.1 h0 x hxt (placeOf_eq_some.1 hi)
  rcases mem_withLabelledAdditions hx with hx | ⟨t, ht, hx⟩ | hx
  · rcases Edit.kept_of_mem_simultaneous hx with ⟨j, hj, -⟩ | ⟨f, hf, hx⟩
    · have hlab := getElem?_labelled hj
      unfold placeOf at hi
      rw [hlab] at hi
      cases hi
    · obtain ⟨id, hid, hrep⟩ := mem_replacedEdits.1 (List.mem_of_mem_filter hf)
      obtain ⟨t, h, ht, -, hfe⟩ := labelledReplacement_eq_some.1 hrep
      obtain ⟨e, -, he, -, -⟩ := labelledText_eq_some.1 ht
      rw [hfe] at hx
      exact ⟨id, hid, e, ⟨he, .inr ⟨f, hf, hrep⟩⟩, hcount he ht hx⟩
  · obtain ⟨id, hid, hadd⟩ := mem_labelledAdditions.1 ht
    unfold labelledAddition at hadd
    split at hadd
    · cases hadd
    · rename_i hnone
      obtain ⟨e, -, he, -, -⟩ := labelledText_eq_some.1 hadd
      exact ⟨id, hid, e, ⟨he, .inl (by simpa using hnone)⟩, hcount he hadd hx⟩
  · unfold placeOf at hi
    rw [hx] at hi
    cases hi

/-- A byte of HEAD is in the result when no outermost replaced span has its place. -/
theorem mem_steadyResult_head {i : Nat} {b : UInt8} :
    (b, Origin.head i) ∈ steadyResult env head ws hs ss l ↔
      head[i]? = some b ∧ ∀ f ∈ outermost (replacedEdits env head ws hs ss l), ¬ (f.start ≤ i ∧ i < f.stop) := by
  have hget : ∀ j x, (labelled .head 0 head)[j]? = some x ↔ ∃ c, head[j]? = some c ∧ x = (c, Origin.head j) := by
    intro j x
    have hmap : (labelled Origin.head 0 head)[j]?.map Prod.fst = head[j]? := by
      rw [← List.getElem?_map]
      exact congrArg (fun m : Bytes => m[j]?) (bytes_labelled Origin.head 0 head)
    constructor
    · intro h
      rw [h] at hmap
      refine ⟨x.1, hmap.symm, ?_⟩
      have h2 := getElem?_labelled h
      rw [Nat.zero_add] at h2
      exact Prod.ext rfl h2
    · rintro ⟨c, hc, rfl⟩
      rw [hc] at hmap
      obtain ⟨y, hy, hyc⟩ := Option.map_eq_some_iff.1 hmap
      rw [hy, ← hyc]
      have h2 := getElem?_labelled hy
      rw [Nat.zero_add] at h2
      exact congrArg some (Prod.ext rfl h2)
  constructor
  · intro h
    rcases mem_withLabelledAdditions h with h | ⟨t, ht, h⟩ | h
    · rcases Edit.kept_of_mem_simultaneous h with ⟨j, hj, hno⟩ | ⟨f, hf, h⟩
      · obtain ⟨c, hc, heq⟩ := (hget j _).1 hj
        cases heq
        exact ⟨hc, hno⟩
      · obtain ⟨id, -, hrep⟩ := mem_replacedEdits.1 (List.mem_of_mem_filter hf)
        obtain ⟨t, _, ht, -, rfl⟩ := labelledReplacement_eq_some.1 hrep
        obtain ⟨_, _, -, -, rfl⟩ := labelledText_eq_some.1 ht
        obtain ⟨_, -, -, h⟩ := mem_labelled h
        cases h
    · obtain ⟨id, -, hadd⟩ := mem_labelledAdditions.1 ht
      unfold labelledAddition at hadd
      split at hadd
      · cases hadd
      · obtain ⟨_, _, -, -, rfl⟩ := labelledText_eq_some.1 hadd
        obtain ⟨_, -, -, h⟩ := mem_labelled h
        cases h
    · cases h
  · rintro ⟨hb, hno⟩
    have hmem := Edit.mem_simultaneous_of_kept ((hget i (b, Origin.head i)).2 ⟨b, hb, rfl⟩) hno
    exact (prefix_withLabelledAdditions _ _).subset hmem

end Merged

/-! ## When nothing is lost -/

section Keeps

variable (hhs : RustSource.Spans 0 head.length hs) (hss : RustSource.Spans 0 ws.length ss)

include hhs hss in
theorem changedKept_iff : ChangedKept base ws bs ss (steadyResult env head ws hs ss (changedEntityIds bs base ss ws)) ↔
    ChangedCovered env base head ws bs hs ss := by
  have hl := nodup_changedEntityIds bs ss base ws
  constructor
  · intro h id hid e he
    obtain ⟨c, hc, hlen, hne⟩ := labelledText_of_byId hss he
    obtain ⟨e', c', he', hsp, heq⟩ := labelledText_eq_some.1 hc
    rw [he] at he'
    cases he'
    have hcc : c' = c := by rw [← bytes_labelled (.entity id) e.byteRange.1 c', heq, bytes_labelled]
    subst hcc
    obtain ⟨t, ht, -, hplaces⟩ := h id hid e c' he hsp
    -- the first byte of the text
    have hfirst : some e.byteRange.1 ∈ t.map placeOf := by
      rw [hplaces]
      refine List.mem_map_of_mem (List.mem_range'_1.2 ⟨le_rfl, ?_⟩)
      have := List.length_pos_iff.2 hne
      omega
    obtain ⟨x, hx, hplace⟩ := List.mem_map.1 hfirst
    obtain ⟨id', hid', e', hw, h1, h2⟩ := written_of_mem hss (ht.subset hx) hplace
    refine ⟨id', hid', e', hw, h1, ?_⟩
    by_cases hee : e = e'
    · rw [hee]
    · have := either_of_pairwise hss.2 (mem_of_byId he).1 (mem_of_byId hw.1).1 hee
      omega
  · intro h id hid e c he hsp
    obtain ⟨id', hid', e', hw, h1, h2⟩ := h id hid e he
    obtain ⟨c', ht', hlen', -⟩ := labelledText_of_byId hss hw.1
    obtain ⟨e'', _, he'', hsp', heq⟩ := labelledText_eq_some.1 ht'
    rw [hw.1] at he''
    cases he''
    have hcc := congrArg bytes heq
    rw [bytes_labelled, bytes_labelled] at hcc
    subst hcc
    have hr := hss.1 e (mem_of_byId he).1
    have hr' := hss.1 e' (mem_of_byId hw.1).1
    unfold span at hsp hsp'
    obtain ⟨-, -, hc⟩ := Edit.slice_eq_some.1 hsp
    obtain ⟨-, -, hc'⟩ := Edit.slice_eq_some.1 hsp'
    rw [min_eq_left hr.2.2] at hc
    rw [min_eq_left hr'.2.2] at hc'
    -- the text of `e` is a part of the text of `e'`
    have hpart : c = ((ws.take e'.byteRange.2).drop e'.byteRange.1 |>.take (e.byteRange.2 - e'.byteRange.1)).drop
        (e.byteRange.1 - e'.byteRange.1) := by
      rw [← hc, List.take_drop, List.take_take, List.drop_drop]
      congr 2
      · omega
      · omega
    rw [hc'] at hpart
    have hin := (infix_labelled (k := e'.byteRange.1) (a := e.byteRange.1) (b := e.byteRange.2) h1
      (by omega) (by rw [hlen']; exact h2)).trans (infix_of_written hhs hl hid' hw ht')
    rw [← hpart] at hin
    exact ⟨_, hin, bytes_labelled _ _ _, map_placeOf_labelled _ _ _⟩

include hhs in
theorem removedGone_iff : RemovedGone bs hs ss (steadyResult env head ws hs ss (changedEntityIds bs base ss ws)) ↔
    RemovedCovered env base head ws bs hs ss := by
  have hl := nodup_changedEntityIds bs ss base ws
  have hn : Nested head.length (levelTwoEdits env base head ws bs hs ss) := nested_replacedEdits hhs hl
  constructor
  · intro h id hid hss' e he
    have hr := hhs.1 e (mem_of_byId he).1
    by_contra hno
    have hbyte : head[e.byteRange.1]? = some head[e.byteRange.1] := List.getElem?_eq_getElem (by omega)
    refine h id hid hss' e he _ (mem_steadyResult_head.2 ⟨hbyte, fun f hf hcover => hno ⟨f, List.mem_of_mem_filter hf, ?_⟩⟩)
      e.byteRange.1 rfl ⟨le_rfl, hr.2.1⟩
    obtain ⟨id', -, hrep⟩ := mem_replacedEdits.1 (List.mem_of_mem_filter hf)
    obtain ⟨t, e', ht, he', rfl⟩ := labelledReplacement_eq_some.1 hrep
    obtain ⟨s, -, hs', -, -⟩ := labelledText_eq_some.1 ht
    have hr' := hhs.1 e' (mem_of_byId he').1
    have hne : e' ≠ e := by
      rintro rfl
      have hids : id' = id := (mem_of_byId he').2.symm.trans (mem_of_byId he).2
      have hmem := mem_of_byId hs'
      exact hss' (List.mem_dedup.2 (List.mem_map.2 ⟨s, hmem.1, hmem.2.trans hids⟩))
    have := either_of_pairwise hhs.2 (mem_of_byId he').1 (mem_of_byId he).1 hne
    dsimp only at hcover ⊢
    omega
  · intro h id hid hss' e he x hx i hi hcover
    obtain ⟨f, hf, h1, h2⟩ := h id hid hss' e he
    obtain ⟨g, hg, h3, h4⟩ := Edit.exists_outermost f.start hf le_rfl
    have hxi : x = (x.1, .head i) := by
      unfold headPlace at hi
      split at hi
      · rename_i j hj
        cases hi
        exact Prod.ext rfl hj
      · cases hi
    rw [hxi] at hx
    exact (mem_steadyResult_head.1 hx).2 g hg ⟨by omega, by omega⟩

include hss in
theorem outside_steadyResult {l : List Text} :
    bytes ((steadyResult env head ws hs ss l).filter (betweenByte hs ss)) = outside hs head := by
  have htext : ∀ {id : Text} {t : List Labelled}, labelledText ws ss id = some t → ∀ x ∈ t, betweenByte hs ss x = false := by
    intro id t ht x hx
    obtain ⟨e, c, he, -, rfl⟩ := labelledText_eq_some.1 ht
    obtain ⟨c', hc', hlen, -⟩ := labelledText_of_byId hss he
    rw [ht, Option.some.injEq] at hc'
    have hlen' := congrArg List.length hc'
    rw [length_labelled, length_labelled] at hlen'
    obtain ⟨j, h1, h2, h3⟩ := mem_labelled hx
    unfold betweenByte
    rw [h3]
    refine decide_eq_false fun hb => hb e (mem_of_byId he).1 ⟨h1, by omega⟩
  have hadd : ∀ t ∈ labelledAdditions env ws hs ss l, ∀ x ∈ t, betweenByte hs ss x = false := by
    intro t ht
    obtain ⟨id, -, hadd⟩ := mem_labelledAdditions.1 ht
    unfold labelledAddition at hadd
    split at hadd
    · cases hadd
    · exact htext hadd
  unfold steadyResult outside
  rw [filter_withLabelledAdditions (fun x hx => by unfold betweenByte; rw [hx]) hadd, Edit.filter_simultaneous]
  · congr 1
    refine List.filter_congr fun x hx => ?_
    obtain ⟨j, -, -, h⟩ := mem_labelled hx
    unfold betweenByte
    rw [h]
  · intro f hf
    obtain ⟨id, -, hrep⟩ := mem_replacedEdits.1 (List.mem_of_mem_filter hf)
    obtain ⟨t, _, ht, -, rfl⟩ := labelledReplacement_eq_some.1 hrep
    exact htext ht
  · intro f hf i x h1 h2 hx
    obtain ⟨id, -, hrep⟩ := mem_replacedEdits.1 (List.mem_of_mem_filter hf)
    obtain ⟨t, e, -, he, rfl⟩ := labelledReplacement_eq_some.1 hrep
    have hlab := getElem?_labelled hx
    rw [Nat.zero_add] at hlab
    unfold betweenByte
    rw [hlab]
    refine decide_eq_false fun hb => hb e (mem_of_byId he).1 ⟨h1, ?_⟩
    dsimp only at h2
    omega

include hhs hss in
theorem keepsWorkspace_iff :
    KeepsWorkspace base ws bs hs ss (steadyResult env head ws hs ss (changedEntityIds bs base ss ws)) ↔
      ChangedCovered env base head ws bs hs ss ∧ RemovedCovered env base head ws bs hs ss ∧
        OutsideShared base head ws bs hs ss := by
  have hout : OutsideKept base ws bs hs ss (steadyResult env head ws hs ss (changedEntityIds bs base ss ws)) ↔
      OutsideShared base head ws bs hs ss := by
    unfold OutsideKept OutsideShared
    rw [outside_steadyResult hss]
  rw [← changedKept_iff hhs hss, ← removedGone_iff hhs, ← hout]
  exact ⟨fun h => ⟨h.changed, h.removed, h.outside⟩, fun h => ⟨h.1, h.2.1, h.2.2⟩⟩

end Keeps

/-- **What a merge at level 2 loses**: with splices that leave the outer ends in place, it keeps every change of the
workspace exactly when what the workspace changed is in the texts it writes, what the workspace removed is inside what they
replace, and HEAD has changed between the entities whatever the workspace has. -/
theorem level2_keeps_iff {ts : RustSource.TreeSitter} {digest : Bytes → Text} {p : Path}
    (hparse : ∀ p c, (env.parseRustSource p c).map Prod.fst = RustSource.entitiesOf ts digest p c) (n : Nat) (w : Uuid)
    (h2 : LevelTwo env p base head ws bs hs ss) (hsteady : Steady (levelTwoEdits env base head ws bs hs ss)) :
    ∃ out, mergeLabelled env head ws hs ss (changedEntityIds bs base ss ws) = some out ∧
      tryMergeFile env n p base head ws w = some (.autoMerged (bytes out) 2) ∧
      (KeepsWorkspace base ws bs hs ss out ↔ ChangedCovered env base head ws bs hs ss ∧
        RemovedCovered env base head ws bs hs ss ∧ OutsideShared base head ws bs hs ss) := by
  have hhs := RustSource.entitiesOf_spans digest head p ((hparse p head).symm.trans h2.parsedHead)
  have hss := RustSource.entitiesOf_spans digest ws p ((hparse p ws).symm.trans h2.parsedWs)
  have hl := nodup_changedEntityIds bs ss base ws
  have hrun : mergeLabelled env head ws hs ss (changedEntityIds bs base ss ws) =
      some (steadyResult env head ws hs ss (changedEntityIds bs base ss ws)) := by
    unfold mergeLabelled
    rw [(fromBack_replacedEdits hhs hss hl).2 hsteady]
    rfl
  refine ⟨_, hrun, ?_, keepsWorkspace_iff hhs hss⟩
  rw [h2.tryMergeFile_eq]
  unfold mergeEntities
  dsimp only
  rw [h2.overlap, List.isEmpty_nil, if_pos rfl, bytes_mergeLabelled fun id _ => readable_of_spans hss id, hrun]
  rfl

end Spec

/-! ## A function removed, and a comment -/

def aOne : Bytes := Text.intoBytes "fn a() { 1 }".toList
def aThenB : Bytes := Text.intoBytes "fn a() {} fn b() {}".toList
def aOneThenB : Bytes := Text.intoBytes "fn a() { 1 } fn b() {}".toList
def aNextToH : Bytes := Text.intoBytes "fn a() {}fn h() {}".toList
def commentThenA : Bytes := Text.intoBytes "/**/fn a() {}".toList

def keptTrees : List (Bytes × SyntaxNode) :=
  [(onlyA, fileNode 9 [functionNode 0 9]), (aOne, fileNode 12 [functionNode 0 12]),
    (aThenB, fileNode 19 [functionNode 0 9, functionNode 10 9]),
    (aOneThenB, fileNode 22 [functionNode 0 12, functionNode 13 9]),
    (aNextToH, fileNode 18 [functionNode 0 9, functionNode 9 9]),
    (commentThenA, fileNode 13 [functionNode 4 9])]

theorem keptTrees_wellFormed : ∀ q ∈ keptTrees, RustSource.WellFormed q.2 ∧ q.2.endByte ≤ q.1.length := by
  simp [keptTrees, RustSource.WellFormed, RustSource.InOrder, RustSource.itemKinds, fileNode, functionNode,
    SyntaxNode.startByte, SyntaxNode.endByte, SyntaxNode.field]
  decide +kernel

def keptParser : RustSource.TreeSitter := .ofTable keptTrees keptTrees_wellFormed

/-- HEAD has changed one function, and the workspace has added another right after it. -/
theorem level2_keeps_iff_added :
    ∃ out, mergeLabelled (parsingEnv keptParser) aOne aNextToH (entitiesIn keptParser aOne) (entitiesIn keptParser aNextToH)
        (changedEntityIds (entitiesIn keptParser onlyA) onlyA (entitiesIn keptParser aNextToH) aNextToH) = some out ∧
      tryMergeFile (parsingEnv keptParser) 0 "a.rs".toList onlyA aOne aNextToH 7 = some (.autoMerged (bytes out) 2) ∧
      KeepsWorkspace onlyA aNextToH (entitiesIn keptParser onlyA) (entitiesIn keptParser aOne)
        (entitiesIn keptParser aNextToH) out := by
  have h2 : LevelTwo (parsingEnv keptParser) "a.rs".toList onlyA aOne aNextToH (entitiesIn keptParser onlyA)
      (entitiesIn keptParser aOne) (entitiesIn keptParser aNextToH) :=
    ⟨by decide +kernel, by decide +kernel, parsed_entitiesIn (by decide +kernel), parsed_entitiesIn (by decide +kernel),
      parsed_entitiesIn (by decide +kernel), by decide +kernel⟩
  obtain ⟨out, hrun, htry, hkeeps⟩ := level2_keeps_iff (parsingEnv_parse keptParser) 0 7 h2
    (by unfold Steady; decide +kernel)
  refine ⟨out, hrun, htry, hkeeps.2 ⟨fun id hid e he => ⟨id, hid, e, ⟨he, .inl ?_⟩, le_rfl, le_rfl⟩,
    fun id hid hss => absurd ?_ hss, fun k hk => absurd hk ?_⟩⟩
  · have hnew : ∀ id ∈ changedEntityIds (entitiesIn keptParser onlyA) onlyA (entitiesIn keptParser aNextToH) aNextToH,
        (byId (entitiesIn keptParser aOne) id).isNone := by decide +kernel
    exact Option.isNone_iff_eq_none.1 (hnew id hid)
  · have hall : ∀ id ∈ ids (entitiesIn keptParser onlyA), id ∈ ids (entitiesIn keptParser aNextToH) := by decide +kernel
    exact hall id hid
  · have hsame : computeHunks (splitLines (outside (entitiesIn keptParser onlyA) onlyA))
        (splitLines (outside (entitiesIn keptParser aNextToH) aNextToH)) = [] := by decide +kernel
    rw [hsame]
    exact List.not_mem_nil

/-- A function that the workspace removed is still there, and a comment that it wrote is not. -/
theorem removal_and_comment_lost :
    tryMergeFile (parsingEnv keptParser) 0 "a.rs".toList aThenB aOneThenB onlyA 7 = some (.autoMerged aOneThenB 2) ∧
      tryMergeFile (parsingEnv keptParser) 0 "a.rs".toList onlyA aOne commentThenA 7 = some (.autoMerged aOne 2) := by
  decide +kernel

end Merge
end Vai
