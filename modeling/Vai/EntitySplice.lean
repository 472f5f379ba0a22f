import Vai.EntityMerge
import Vai.Nested
/-!
# EntitySplice — where the bytes of an entity merge come from

`merge_by_entity_substitution` on bytes that carry their origin: a place of HEAD, or a place of the workspace in the text
of a changed entity.  The substitution only moves bytes, so that it is the same run (`bytes_mergeLabelled`), and "exactly
once" has a meaning.

The spans of an `impl` and of its methods are nested, and each changed one is spliced.  The replaced spans come out as they
should exactly when the inner splices leave the end of the outer span in place, and every text that only the workspace has
comes once exactly when no other written text contains it (`substitutes_exactly_iff`).
-/
namespace Vai
namespace Merge

open Edit (Nested Steady Inside outermost inner fromBack simultaneous added)

/-! ## Labels -/

/-- Where a byte of the result was before. -/
inductive Origin where
  | head (offset : Nat)
  | entity (id : Text) (offset : Nat)
  | newline
  deriving DecidableEq

abbrev Labelled := UInt8 × Origin

/-- Bytes that stand one after another from a place on. -/
def labelled (origin : Nat → Origin) : Nat → Bytes → List Labelled
  | _, [] => []
  | k, b :: l => (b, origin k) :: labelled origin (k + 1) l

def bytes (l : List Labelled) : Bytes := l.map Prod.fst

/-- The byte is that of this place of the workspace. -/
def comesFrom (i : Nat) (x : Labelled) : Bool :=
  match x.2 with
  | .entity _ j => j = i
  | _ => false

theorem bytes_labelled (origin : Nat → Origin) : ∀ (k : Nat) (l : Bytes), bytes (labelled origin k l) = l
  | _, [] => rfl
  | k, b :: l => congrArg (b :: ·) (bytes_labelled origin (k + 1) l)

theorem bytes_append (a b : List Labelled) : bytes (a ++ b) = bytes a ++ bytes b := List.map_append

theorem length_labelled (origin : Nat → Origin) (k : Nat) (l : Bytes) : (labelled origin k l).length = l.length := by
  have h := congrArg List.length (bytes_labelled origin k l)
  unfold bytes at h
  rwa [List.length_map] at h

theorem mem_labelled {origin : Nat → Origin} {x : Labelled} : ∀ {k : Nat} {l : Bytes}, x ∈ labelled origin k l →
    ∃ j, k ≤ j ∧ j < k + l.length ∧ x.2 = origin j
  | _, [], h => absurd h List.not_mem_nil
  | k, b :: l, h => by
    rw [List.length_cons]
    rcases List.mem_cons.1 h with rfl | h
    · exact ⟨k, le_rfl, by omega, rfl⟩
    · obtain ⟨j, h1, h2, h3⟩ := mem_labelled h
      exact ⟨j, by omega, by omega, h3⟩

theorem nodup_labelled {origin : Nat → Origin} (ho : Function.Injective origin) : ∀ (k : Nat) (l : Bytes),
    (labelled origin k l).Nodup
  | _, [] => List.nodup_nil
  | k, b :: l => by
    refine List.nodup_cons.2 ⟨fun h => ?_, nodup_labelled ho (k + 1) l⟩
    obtain ⟨j, h1, -, h2⟩ := mem_labelled h
    have := ho h2
    omega

theorem countP_comesFrom (id : Text) (i : Nat) : ∀ (k : Nat) (l : Bytes),
    (labelled (.entity id) k l).countP (comesFrom i) = if k ≤ i ∧ i < k + l.length then 1 else 0
  | k, [] => by
    rw [if_neg (by simp)]
    rfl
  | k, b :: l => by
    rw [labelled, List.countP_cons, countP_comesFrom id i (k + 1) l, List.length_cons]
    unfold comesFrom
    by_cases hki : k = i
    · subst hki
      simp
    · simp only [hki, decide_false, Bool.false_eq_true, if_false, Nat.add_zero]
      congr 1
      simp only [eq_iff_iff]
      omega

theorem countP_head (i k : Nat) (l : Bytes) : (labelled .head k l).countP (comesFrom i) = 0 := by
  refine List.countP_eq_zero.2 fun x hx => ?_
  obtain ⟨j, -, -, h⟩ := mem_labelled hx
  unfold comesFrom
  rw [h]
  simp

/-! ## The run with labels -/

section Run

variable (env : Env) (head ws : Bytes) (hs ss : List Entity)

def labelledText (id : Text) : Option (List Labelled) := do
  let wsEnt ← byId ss id
  let wsBytes ← span ws wsEnt
  return labelled (.entity id) wsEnt.byteRange.1 wsBytes

def labelledReplacement (id : Text) : Option (Edit Labelled) := do
  let text ← labelledText ws ss id
  let headEnt ← byId hs id
  return ⟨headEnt.byteRange.1, min headEnt.byteRange.2 head.length, text⟩

def labelledAddition (id : Text) : Option (List Labelled) := if (byId hs id).isSome then none else labelledText ws ss id

/-- The replacements in the order of their starts. -/
def replacedEdits (l : List Text) : List (Edit Labelled) :=
  (((env.hashOrder l).filterMap (labelledReplacement head ws hs ss)).insertionSort (fun a b => a.start ≥ b.start)).reverse

def labelledAdditions (l : List Text) : List (List Labelled) := (env.hashOrder l).filterMap (labelledAddition ws hs ss)

def closedLabelled (text : List Labelled) : List Labelled :=
  if text = [] ∨ endsWithNewline (bytes text) = true then text else text ++ [(10, .newline)]

def ensureNewlineLabelled (result : List Labelled) : List Labelled :=
  if endsWithNewline (bytes result) then result else result ++ [(10, .newline)]

def withLabelledAdditions (result : List Labelled) (texts : List (List Labelled)) : List Labelled :=
  if texts = [] then result else ensureNewlineLabelled result ++ texts.flatMap closedLabelled

def mergeLabelled (l : List Text) : Option (List Labelled) :=
  (fromBack (labelled .head 0 head) (replacedEdits env head ws hs ss l)).map
    (withLabelledAdditions · (labelledAdditions env ws hs ss l))

end Run

theorem bytes_closedLabelled (text : List Labelled) : bytes (closedLabelled text) = terminated (bytes text) := by
  have hnil : bytes text = [] ↔ text = [] := List.map_eq_nil_iff
  unfold closedLabelled terminated
  simp only [hnil]
  split
  · rfl
  · exact bytes_append _ _

theorem bytes_ensureNewlineLabelled (l : List Labelled) : bytes (ensureNewlineLabelled l) = ensureNewline (bytes l) := by
  unfold ensureNewlineLabelled ensureNewline
  split
  · rfl
  · exact bytes_append _ _

theorem bytes_withLabelledAdditions (l : List Labelled) (texts : List (List Labelled)) :
    bytes (withLabelledAdditions l texts) = withAdditions (bytes l) (texts.map bytes) := by
  have hnil : texts.map bytes = [] ↔ texts = [] := List.map_eq_nil_iff
  unfold withLabelledAdditions withAdditions
  simp only [hnil]
  split
  · rfl
  · rw [bytes_append, bytes_ensureNewlineLabelled, List.flatMap_map]
    congr 1
    unfold bytes
    rw [List.map_flatMap]
    exact List.flatMap_congr fun t _ => bytes_closedLabelled t

section Spec

variable {env : Env} {head ws : Bytes} {hs ss : List Entity}

theorem labelledText_eq_some {id : Text} {text : List Labelled} :
    labelledText ws ss id = some text ↔
      ∃ e c, byId ss id = some e ∧ span ws e = some c ∧ labelled (.entity id) e.byteRange.1 c = text := by
  unfold labelledText
  simp only [Option.bind_eq_bind, Option.bind_eq_some_iff]
  constructor
  · rintro ⟨e, he, c, hc, h⟩
    cases h
    exact ⟨e, c, he, hc, rfl⟩
  · rintro ⟨e, c, he, hc, rfl⟩
    exact ⟨e, he, c, hc, rfl⟩

theorem labelledReplacement_eq_some {id : Text} {f : Edit Labelled} :
    labelledReplacement head ws hs ss id = some f ↔
      ∃ text h, labelledText ws ss id = some text ∧ byId hs id = some h ∧
        f = ⟨h.byteRange.1, min h.byteRange.2 head.length, text⟩ := by
  unfold labelledReplacement
  simp only [Option.bind_eq_bind, Option.bind_eq_some_iff]
  constructor
  · rintro ⟨t, ht, h, hh, hf⟩
    cases hf
    exact ⟨t, h, ht, hh, rfl⟩
  · rintro ⟨t, h, ht, hh, rfl⟩
    exact ⟨t, ht, h, hh, rfl⟩

theorem labelledReplacement_bytes (id : Text) :
    (labelledReplacement head ws hs ss id).map (fun f => (f.start, f.stop, bytes f.new)) = replacement head ws hs ss id := by
  unfold labelledReplacement labelledText replacement
  cases byId ss id with
  | none => rfl
  | some e =>
    cases hc : span ws e with
    | none => cases byId hs id <;> simp [hc]
    | some c => cases byId hs id <;> simp [hc, bytes_labelled]

theorem labelledAddition_bytes (id : Text) :
    (labelledAddition ws hs ss id).map bytes = addition ws hs ss id := by
  unfold labelledAddition labelledText addition
  split
  · rfl
  · cases byId ss id with
    | none => rfl
    | some e => cases hc : span ws e <;> simp [hc, bytes_labelled]

theorem bytes_fromBack (l : List Text) :
    (fromBack (labelled .head 0 head) (replacedEdits env head ws hs ss l)).map bytes =
      spliceAll head ((env.hashOrder l).filterMap (replacement head ws hs ss)) := by
  have hsort : (((env.hashOrder l).filterMap (labelledReplacement head ws hs ss)).insertionSort
      (fun a b => a.start ≥ b.start)).map (fun f => (f.start, f.stop, bytes f.new)) =
      ((env.hashOrder l).filterMap (replacement head ws hs ss)).insertionSort (fun a b => a.1 ≥ b.1) := by
    rw [List.map_insertionSort _ (fun a b : Nat × Nat × Bytes => a.1 ≥ b.1) _ _ fun _ _ _ _ => Iff.rfl, List.map_filterMap]
    congr 1
    exact List.filterMap_congr fun id _ => labelledReplacement_bytes id
  unfold replacedEdits spliceAll
  rw [← Edit.foldlM_put, ← hsort]
  generalize ((env.hashOrder l).filterMap (labelledReplacement head ws hs ss)).insertionSort
    (fun a b => a.start ≥ b.start) = L
  have hrun : ∀ (L : List (Edit Labelled)) (buf : List Labelled), (L.foldlM Edit.put buf).map bytes =
      (L.map (fun f => (f.start, f.stop, bytes f.new))).foldlM (fun buf r => spliceBytes buf r.1 r.2.1 r.2.2) (bytes buf) := by
    intro L
    induction L with
    | nil => exact fun _ => rfl
    | cons f L ih =>
      intro buf
      have hput : (Edit.put buf f).map bytes = spliceBytes (bytes buf) f.start f.stop (bytes f.new) := by
        unfold Edit.put spliceBytes bytes
        rw [List.length_map]
        split
        · rw [Option.map_some, List.map_append, List.map_append, List.map_take, List.map_drop]
        · rfl
      rw [List.foldlM_cons, List.map_cons, List.foldlM_cons]
      dsimp only
      rw [← hput]
      cases Edit.put buf f with
      | none => rfl
      | some out => exact ih out
  rw [hrun, bytes_labelled]

/-- **The run with labels is the run of the code.** -/
theorem bytes_mergeLabelled {l : List Text} (h : ∀ id ∈ l, ¬ Unreadable ws ss id) :
    mergeByEntitySubstitution env head ws hs ss l = (mergeLabelled env head ws hs ss l).map (fun out => some (bytes out)) := by
  have hadd : (labelledAdditions env ws hs ss l).map bytes = (env.hashOrder l).filterMap (addition ws hs ss) := by
    unfold labelledAdditions
    rw [List.map_filterMap]
    exact List.filterMap_congr fun id _ => labelledAddition_bytes id
  rw [mergeByEntitySubstitution_eq env h, ← bytes_fromBack, ← hadd]
  unfold mergeLabelled
  cases fromBack (labelled .head 0 head) (replacedEdits env head ws hs ss l) with
  | none => rfl
  | some out => exact congrArg (fun c => some (some c)) (bytes_withLabelledAdditions out _).symm

theorem mem_replacedEdits {l : List Text} {f : Edit Labelled} :
    f ∈ replacedEdits env head ws hs ss l ↔ ∃ id ∈ l, labelledReplacement head ws hs ss id = some f := by
  unfold replacedEdits
  rw [List.mem_reverse, List.mem_insertionSort, List.mem_filterMap]
  exact exists_congr fun id => and_congr_left fun _ => env.mem_hashOrder

theorem mem_labelledAdditions {l : List Text} {t : List Labelled} :
    t ∈ labelledAdditions env ws hs ss l ↔ ∃ id ∈ l, labelledAddition ws hs ss id = some t := by
  unfold labelledAdditions
  rw [List.mem_filterMap]
  exact exists_congr fun id => and_congr_left fun _ => env.mem_hashOrder

/-! ## The spans of a parsed file -/

variable (hhs : RustSource.Spans 0 head.length hs) (hss : RustSource.Spans 0 ws.length ss)

include hss in
theorem labelledText_of_byId {id : Text} {e : Entity} (he : byId ss id = some e) :
    ∃ c, labelledText ws ss id = some (labelled (.entity id) e.byteRange.1 c) ∧
      e.byteRange.1 + c.length = e.byteRange.2 ∧ c ≠ [] := by
  have hr := hss.1 e (mem_of_byId he).1
  refine ⟨(ws.take (min e.byteRange.2 ws.length)).drop e.byteRange.1, labelledText_eq_some.2 ⟨e, _, he, ?_, rfl⟩, ?_, ?_⟩
  · unfold span
    exact Edit.slice_eq_some.2 ⟨by omega, by omega, rfl⟩
  · simp
    omega
  · rw [Ne, List.drop_eq_nil_iff]
    simp
    omega

include hss in
theorem countP_labelledText {id : Text} {e : Entity} {t : List Labelled} (he : byId ss id = some e)
    (ht : labelledText ws ss id = some t) (i : Nat) :
    t.countP (comesFrom i) = if e.byteRange.1 ≤ i ∧ i < e.byteRange.2 then 1 else 0 := by
  obtain ⟨c, hc, hlen, -⟩ := labelledText_of_byId hss he
  rw [hc] at ht
  cases ht
  rw [countP_comesFrom, hlen]

include hss in
theorem labelledText_ne_nil {id : Text} {t : List Labelled} (ht : labelledText ws ss id = some t) : t ≠ [] := by
  obtain ⟨e, c, he, -, -⟩ := labelledText_eq_some.1 ht
  obtain ⟨c', hc, -, hne⟩ := labelledText_of_byId hss he
  rw [hc] at ht
  cases ht
  intro h
  have := congrArg List.length h
  rw [length_labelled] at this
  exact hne (List.eq_nil_of_length_eq_zero this)

theorem disjoint_labelledText {i j : Text} {s t : List Labelled} (hij : i ≠ j) (hs : labelledText ws ss i = some s)
    (ht : labelledText ws ss j = some t) : s.Disjoint t := by
  obtain ⟨_, _, _, _, rfl⟩ := labelledText_eq_some.1 hs
  obtain ⟨_, _, _, _, rfl⟩ := labelledText_eq_some.1 ht
  intro x hx hy
  obtain ⟨_, _, _, h1⟩ := mem_labelled hx
  obtain ⟨_, _, _, h2⟩ := mem_labelled hy
  rw [h1] at h2
  cases h2
  exact hij rfl

include hhs in
/-- Two replacements of one file are at nested spans or apart, and start at different places. -/
theorem replacement_spans {i j : Text} {f g : Edit Labelled} (hij : i ≠ j)
    (hf : labelledReplacement head ws hs ss i = some f) (hg : labelledReplacement head ws hs ss j = some g) :
    f.start < g.start ∧ (g.stop ≤ f.stop ∨ f.stop ≤ g.start) ∨ g.start < f.start ∧ (f.stop ≤ g.stop ∨ g.stop ≤ f.start) := by
  obtain ⟨_, a, -, ha, rfl⟩ := labelledReplacement_eq_some.1 hf
  obtain ⟨_, b, -, hb, rfl⟩ := labelledReplacement_eq_some.1 hg
  have hne : a ≠ b := by
    rintro rfl
    exact hij ((mem_of_byId ha).2.symm.trans (mem_of_byId hb).2)
  have hra := hhs.1 a (mem_of_byId ha).1
  have hrb := hhs.1 b (mem_of_byId hb).1
  have := either_of_pairwise hhs.2 (mem_of_byId ha).1 (mem_of_byId hb).1 hne
  dsimp only
  omega

variable {l : List Text} (hl : l.Nodup)

include hl in
/-- What holds of the replacements of any two ids holds of any two of the replacements. -/
theorem pairwise_replacedEdits {R : Edit Labelled → Edit Labelled → Prop} (hsymm : ∀ f g, R f g → R g f)
    (hR : ∀ i j f g, i ≠ j → labelledReplacement head ws hs ss i = some f → labelledReplacement head ws hs ss j = some g →
      R f g) : (replacedEdits env head ws hs ss l).Pairwise R := by
  have hpair : ((env.hashOrder l).filterMap (labelledReplacement head ws hs ss)).Pairwise R := by
    rw [List.pairwise_filterMap]
    exact ((env.hashOrderPerm l).nodup_iff.2 hl).imp fun hij f hf g hg => hR _ _ f g hij hf hg
  have hperm : (replacedEdits env head ws hs ss l).Perm ((env.hashOrder l).filterMap (labelledReplacement head ws hs ss)) :=
    (List.reverse_perm _).trans (List.perm_insertionSort _ _)
  exact (hperm.pairwise_iff fun {f g} => hsymm f g).2 hpair

theorem sorted_replacedEdits (env : Env) (head ws : Bytes) (hs ss : List Entity) (l : List Text) :
    (replacedEdits env head ws hs ss l).Pairwise (fun a b => a.start ≤ b.start) := by
  unfold replacedEdits
  rw [List.pairwise_reverse]
  have hord : Sorting.IsOrder (fun a b : Edit Labelled => decide (a.start ≥ b.start)) :=
    Sorting.isOrder_swap (Sorting.isOrder_key Sorting.isOrder_le Edit.start)
  have := Sorting.pairwise_insertionSort hord (R := fun _ _ => True)
    (l := (env.hashOrder l).filterMap (labelledReplacement head ws hs ss)) (List.pairwise_of_forall fun _ _ => trivial)
  simpa using this.imp And.left

include hhs hl in
theorem nested_replacedEdits : Nested head.length (replacedEdits env head ws hs ss l) := by
  refine ⟨fun f hf => ?_, ?_⟩
  · obtain ⟨id, -, hid⟩ := mem_replacedEdits.1 hf
    obtain ⟨_, h, -, hh, rfl⟩ := labelledReplacement_eq_some.1 hid
    have := hhs.1 h (mem_of_byId hh).1
    dsimp only
    omega
  · have hp := @pairwise_replacedEdits env head ws hs ss l hl
      (R := fun f g => f.start < g.start ∧ (g.stop ≤ f.stop ∨ f.stop ≤ g.start) ∨
        g.start < f.start ∧ (f.stop ≤ g.stop ∨ g.stop ≤ f.start)) (fun f g h => h.symm)
      (fun i j f g hij hf hg => replacement_spans hhs hij hf hg)
    refine (hp.and (sorted_replacedEdits env head ws hs ss l)).imp fun hfg => ?_
    omega

include hl in
theorem nodup_replacedEdits : (labelled .head 0 head ++ Edit.added (replacedEdits env head ws hs ss l)).Nodup := by
  have htext : ∀ {f : Edit Labelled} {id : Text}, labelledReplacement head ws hs ss id = some f →
      labelledText ws ss id = some f.new := fun hf => by
    obtain ⟨t, _, ht, _, rfl⟩ := labelledReplacement_eq_some.1 hf
    exact ht
  refine List.nodup_append.2 ⟨nodup_labelled (fun a b h => by cases h; rfl) 0 head, ?_, fun x hx y hy => ?_⟩
  · refine List.nodup_flatMap.2 ⟨fun f hf => ?_, ?_⟩
    · obtain ⟨id, -, hid⟩ := mem_replacedEdits.1 hf
      obtain ⟨e, c, -, -, ht⟩ := labelledText_eq_some.1 (htext hid)
      rw [← ht]
      exact nodup_labelled (fun a b h => by cases h; rfl) _ c
    · exact pairwise_replacedEdits hl (fun f g h => h.symm) fun i j f g hij hf hg =>
        disjoint_labelledText hij (htext hf) (htext hg)
  · obtain ⟨_, _, _, h1⟩ := mem_labelled hx
    obtain ⟨f, hf, hy⟩ := List.mem_flatMap.1 hy
    obtain ⟨id, -, hid⟩ := mem_replacedEdits.1 hf
    obtain ⟨_, _, _, _, ht⟩ := labelledText_eq_some.1 (htext hid)
    rw [← ht] at hy
    obtain ⟨_, _, _, h2⟩ := mem_labelled hy
    rintro rfl
    rw [h1] at h2
    cases h2

include hhs hss hl in
/-- The splices replace the outermost changed spans, byte for byte, exactly when the inner ones leave their ends in place. -/
theorem fromBack_replacedEdits :
    fromBack (labelled .head 0 head) (replacedEdits env head ws hs ss l) =
        some (simultaneous (labelled .head 0 head) (outermost (replacedEdits env head ws hs ss l))) ↔
      Steady (replacedEdits env head ws hs ss l) := by
  refine Edit.fromBack_eq_iff ?_ (fun f hf => ?_) (nodup_replacedEdits hl)
  · rw [length_labelled]
    exact nested_replacedEdits hhs hl
  · obtain ⟨id, -, hid⟩ := mem_replacedEdits.1 hf
    obtain ⟨t, _, ht, _, rfl⟩ := labelledReplacement_eq_some.1 hid
    exact labelledText_ne_nil hss ht

end Spec

/-! ## Exactly once -/

section Exact

variable (env : Env) (head ws : Bytes) (hs ss : List Entity) (l : List Text)

/-- The text of this entity is written: HEAD does not have it, or it replaces an outermost span. -/
def Written (id : Text) (e : Entity) : Prop :=
  byId ss id = some e ∧ (byId hs id = none ∨
    ∃ f ∈ outermost (replacedEdits env head ws hs ss l), labelledReplacement head ws hs ss id = some f)

/-- No text that only the workspace has shares a byte with another text that is written. -/
def NothingTwice : Prop :=
  ∀ id ∈ l, ∀ e, byId hs id = none → byId ss id = some e → ∀ id' ∈ l, id' ≠ id → ∀ e', Written env head ws hs ss l id' e' →
    e.byteRange.2 ≤ e'.byteRange.1 ∨ e'.byteRange.2 ≤ e.byteRange.1

/-- **The substitution as its name has it**: no splice leaves the buffer, HEAD stays but for the outermost changed spans,
which become the workspace's text, and every entity that only the workspace has is added, all its bytes once. -/
def SubstitutesExactly : Prop :=
  ∃ spliced, fromBack (labelled .head 0 head) (replacedEdits env head ws hs ss l) = some spliced ∧
    mergeByEntitySubstitution env head ws hs ss l =
      some (some (bytes (withLabelledAdditions spliced (labelledAdditions env ws hs ss l)))) ∧
    spliced = simultaneous (labelled .head 0 head) (outermost (replacedEdits env head ws hs ss l)) ∧
    ∀ id ∈ l, ∀ e t, byId hs id = none → byId ss id = some e → labelledText ws ss id = some t →
      t <:+: withLabelledAdditions spliced (labelledAdditions env ws hs ss l) ∧
      ∀ i, e.byteRange.1 ≤ i → i < e.byteRange.2 →
        (withLabelledAdditions spliced (labelledAdditions env ws hs ss l)).countP (comesFrom i) = 1

end Exact

section

variable {env : Env} {head ws : Bytes} {hs ss : List Entity} {l : List Text}

theorem countP_withLabelledAdditions (i : Nat) (spliced : List Labelled) (texts : List (List Labelled)) :
    (withLabelledAdditions spliced texts).countP (comesFrom i) =
      spliced.countP (comesFrom i) + texts.flatten.countP (comesFrom i) := by
  have hclosed : ∀ t : List Labelled, (closedLabelled t).countP (comesFrom i) = t.countP (comesFrom i) := fun t => by
    unfold closedLabelled
    split
    · rfl
    · simp [comesFrom]
  have hensure : (ensureNewlineLabelled spliced).countP (comesFrom i) = spliced.countP (comesFrom i) := by
    unfold ensureNewlineLabelled
    split
    · rfl
    · simp [comesFrom]
  unfold withLabelledAdditions
  split
  · rename_i h
    simp [h]
  · rw [List.countP_append, hensure, List.countP_flatMap, List.countP_flatten]
    congr 2
    exact List.map_congr_left fun t _ => hclosed t

theorem infix_withLabelledAdditions {t : List Labelled} {spliced : List Labelled} {texts : List (List Labelled)}
    (h : t ∈ texts) : t <:+: withLabelledAdditions spliced texts := by
  unfold withLabelledAdditions
  rw [if_neg (List.ne_nil_of_mem h)]
  have hclosed : t <:+: closedLabelled t := by
    unfold closedLabelled
    split
    · exact List.infix_rfl
    · exact (List.prefix_append _ _).isInfix
  have hall : closedLabelled t <:+: texts.flatMap closedLabelled := by
    obtain ⟨a, b, rfl⟩ := List.append_of_mem h
    exact ⟨a.flatMap closedLabelled, b.flatMap closedLabelled, by simp⟩
  exact (hclosed.trans hall).trans (List.suffix_append _ _).isInfix

variable (hhs : RustSource.Spans 0 head.length hs) (hss : RustSource.Spans 0 ws.length ss) (hl : l.Nodup)

include hhs hss hl in
/-- How often a byte of a text that only the workspace has is in the result: once for the text, and once for every other
text that has it. -/
theorem countP_merged {id : Text} {e : Entity} {i : Nat} (hid : id ∈ l) (hh : byId hs id = none) (he : byId ss id = some e)
    (h1 : e.byteRange.1 ≤ i) (h2 : i < e.byteRange.2) :
    (withLabelledAdditions (simultaneous (labelled .head 0 head) (outermost (replacedEdits env head ws hs ss l)))
        (labelledAdditions env ws hs ss l)).countP (comesFrom i) = 1 ↔
      ∀ id' ∈ l, id' ≠ id → ∀ e', Written env head ws hs ss l id' e' → ¬ (e'.byteRange.1 ≤ i ∧ i < e'.byteRange.2) := by
  have hnested : Nested (labelled .head 0 head).length (replacedEdits env head ws hs ss l) := by
    rw [length_labelled]
    exact nested_replacedEdits hhs hl
  obtain ⟨c, hc, -, -⟩ := labelledText_of_byId hss he
  -- the additions, this one first
  obtain ⟨rest, hrest⟩ : ∃ rest, (env.hashOrder l).Perm (id :: rest) :=
    ⟨_, List.perm_cons_erase (env.mem_hashOrder.2 hid)⟩
  have hnodup : (id :: rest).Nodup := hrest.nodup_iff.1 ((env.hashOrderPerm l).nodup_iff.2 hl)
  have hmem : ∀ j, j ∈ rest ↔ j ∈ l ∧ j ≠ id := fun j => by
    have hj : j ∈ l ↔ j = id ∨ j ∈ rest := by
      rw [← env.mem_hashOrder, hrest.mem_iff, List.mem_cons]
    have hno := (List.nodup_cons.1 hnodup).1
    constructor
    · intro h
      exact ⟨hj.2 (.inr h), fun heq => hno (heq ▸ h)⟩
    · intro h
      exact (hj.1 h.1).resolve_left h.2
  have hadd : ((labelledAdditions env ws hs ss l).flatten).countP (comesFrom i) =
      1 + ((rest.filterMap (labelledAddition ws hs ss)).flatten).countP (comesFrom i) := by
    have hfirst : labelledAddition ws hs ss id = some (labelled (.entity id) e.byteRange.1 c) := by
      unfold labelledAddition
      rw [if_neg (by rw [hh]; simp), hc]
    have hperm := (hrest.filterMap (labelledAddition ws hs ss)).flatten
    rw [List.filterMap_cons_some hfirst] at hperm
    unfold labelledAdditions
    rw [hperm.countP_eq, List.flatten_cons, List.countP_append, countP_labelledText hss he hc, if_pos ⟨h1, h2⟩]
  rw [countP_withLabelledAdditions, hnested.countP_simultaneous (countP_head i 0 head), hadd]
  have hone : ∀ a b : Nat, a + (1 + b) = 1 ↔ a = 0 ∧ b = 0 := by omega
  rw [hone]
  unfold added
  rw [List.countP_flatMap, List.sum_eq_zero_iff, List.countP_flatten, List.sum_eq_zero_iff]
  simp only [List.mem_map, Function.comp_apply, forall_exists_index, and_imp, forall_apply_eq_imp_iff₂]
  constructor
  · rintro ⟨hrep, hadds⟩ id' hid' hne e' ⟨he', hw⟩ hi
    rcases hw with hw | ⟨f, hf, hw⟩
    · obtain ⟨c', hc', -, -⟩ := labelledText_of_byId hss he'
      have h0 := hadds _ (List.mem_filterMap.2 ⟨id', (hmem id').2 ⟨hid', hne⟩, by
        unfold labelledAddition
        rw [if_neg (by rw [hw]; simp), hc']⟩)
      rw [countP_labelledText hss he' hc', if_pos hi] at h0
      exact absurd h0 one_ne_zero
    · have h0 := hrep f hf
      obtain ⟨t, _, ht, _, rfl⟩ := labelledReplacement_eq_some.1 hw
      dsimp only at h0
      rw [countP_labelledText hss he' ht, if_pos hi] at h0
      exact absurd h0 one_ne_zero
  · intro hno
    constructor
    · intro f hf
      obtain ⟨id', hid', hw⟩ := mem_replacedEdits.1 (List.mem_of_mem_filter hf)
      obtain ⟨t, h, ht, hh', hfe⟩ := labelledReplacement_eq_some.1 hw
      obtain ⟨e', _, he', -, -⟩ := labelledText_eq_some.1 ht
      have hne : id' ≠ id := by
        rintro rfl
        rw [hh] at hh'
        cases hh'
      rw [hfe]
      dsimp only
      rw [countP_labelledText hss he' ht, if_neg (hno id' hid' hne e' ⟨he', .inr ⟨f, hf, hw⟩⟩)]
    · intro t ht
      obtain ⟨id', hid', hw⟩ := List.mem_filterMap.1 ht
      obtain ⟨hid', hne⟩ := (hmem id').1 hid'
      unfold labelledAddition at hw
      split at hw
      · cases hw
      · rename_i hnone
        obtain ⟨e', _, he', -, -⟩ := labelledText_eq_some.1 hw
        rw [countP_labelledText hss he' hw, if_neg (hno id' hid' hne e' ⟨he', .inl (by simpa using hnone)⟩)]

include hhs hss hl in
/-- **When entity substitution splices exactly the changed spans.** -/
theorem substitutes_exactly_iff :
    SubstitutesExactly env head ws hs ss l ↔
      Steady (replacedEdits env head ws hs ss l) ∧ NothingTwice env head ws hs ss l := by
  have hrun := @bytes_mergeLabelled env head ws hs ss l fun id _ => readable_of_spans hss id
  unfold mergeLabelled at hrun
  constructor
  · rintro ⟨spliced, hsp, -, hspliced, honce⟩
    refine ⟨(fromBack_replacedEdits hhs hss hl).1 (by rw [hsp, hspliced]), fun id hid e hh he id' hid' hne e' hw => ?_⟩
    obtain ⟨c, hc, -, -⟩ := labelledText_of_byId hss he
    have hone := (honce id hid e _ hh he hc).2
    have hr := hss.1 e (mem_of_byId he).1
    have hr' := hss.1 e' (mem_of_byId hw.1).1
    by_contra hover
    have h1 : e.byteRange.1 ≤ max e.byteRange.1 e'.byteRange.1 := le_max_left _ _
    have h2 : max e.byteRange.1 e'.byteRange.1 < e.byteRange.2 := by omega
    have hcount := hone _ h1 h2
    rw [hspliced] at hcount
    exact (countP_merged hhs hss hl hid hh he h1 h2).1 hcount id' hid' hne e' hw ⟨le_max_right _ _, by omega⟩
  · rintro ⟨hsteady, htwice⟩
    have hsp := (fromBack_replacedEdits hhs hss hl).2 hsteady
    refine ⟨_, hsp, by rw [hrun, hsp]; rfl, rfl, fun id hid e t hh he ht => ⟨?_, fun i h1 h2 => ?_⟩⟩
    · refine infix_withLabelledAdditions (mem_labelledAdditions.2 ⟨id, hid, ?_⟩)
      unfold labelledAddition
      rw [if_neg (by rw [hh]; simp), ht]
    · refine (countP_merged hhs hss hl hid hh he h1 h2).2 fun id' hid' hne e' hw hi => ?_
      have := htwice id hid e hh he id' hid' hne e' hw
      omega

end

/-! ## An `impl` and its method -/

/-- The node of a block `impl A { … }` in the first line. -/
def implNode (start size : Nat) (items : List SyntaxNode) : SyntaxNode :=
  .mk "impl_item".toList none start (start + size) 0 0 true [
    .mk "impl".toList none start (start + 4) 0 0 false [],
    .mk "type_identifier".toList (some "type".toList) (start + 5) (start + 6) 0 0 true [],
    .mk "declaration_list".toList (some "body".toList) (start + 7) (start + size) 0 0 true items]

def implEmpty : Bytes := Text.intoBytes "impl A { }".toList
def implM : Bytes := Text.intoBytes "impl A { fn m() {} }".toList
def implM1 : Bytes := Text.intoBytes "impl A { fn m() { 1 } }".toList
def implM2 : Bytes := Text.intoBytes "impl A { fn m() { 2 } }".toList
def implM1ThenZ : Bytes := Text.intoBytes "impl A { fn m() { 1 } } fn z() {}".toList

def implParser : RustSource.TreeSitter :=
  .ofTable [(implEmpty, fileNode 10 [implNode 0 10 []]), (implM, fileNode 20 [implNode 0 20 [functionNode 9 9]]),
      (implM1, fileNode 23 [implNode 0 23 [functionNode 9 12]]),
      (implM2, fileNode 23 [implNode 0 23 [functionNode 9 12]]),
      (implM1ThenZ, fileNode 33 [implNode 0 23 [functionNode 9 12], functionNode 24 9])] (by
    simp [RustSource.WellFormed, RustSource.InOrder, RustSource.itemKinds, fileNode, implNode, functionNode, SyntaxNode.startByte,
      SyntaxNode.endByte, SyntaxNode.field]
    decide +kernel)

/-- What the workspace made of a file, written into HEAD. -/
def substituteImpl (base head ws : Bytes) : Option (Option Bytes) :=
  mergeByEntitySubstitution Env.plain head ws (entitiesIn implParser head) (entitiesIn implParser ws)
    (changedEntityIds (entitiesIn implParser base) base (entitiesIn implParser ws) ws)

/-- A method of the same length is changed: its splice leaves the end of the `impl` in place. -/
theorem substitutes_exactly_iff_impl :
    SubstitutesExactly Env.plain implM1 implM2 (entitiesIn implParser implM1) (entitiesIn implParser implM2)
      (changedEntityIds (entitiesIn implParser implM1) implM1 (entitiesIn implParser implM2) implM2) := by
  refine (substitutes_exactly_iff (entitiesIn_spans _ _) (entitiesIn_spans _ _) (by decide +kernel)).2
    ⟨by unfold Steady; decide +kernel, fun id hid e hh => ?_⟩
  have hall : ∀ id ∈ changedEntityIds (entitiesIn implParser implM1) implM1 (entitiesIn implParser implM2) implM2,
      (byId (entitiesIn implParser implM1) id).isSome := by decide +kernel
  have := hall id hid
  rw [hh] at this
  cases this

/-- A method that became shorter takes bytes from behind its `impl`, or makes the splice panic at the end of the file; a
method that is new in its `impl` is written a second time. -/
theorem nested_spans_garble :
    substituteImpl implM1 implM1ThenZ implM = some (some (Text.intoBytes "impl A { fn m() {} } z() {}".toList)) ∧
      substituteImpl implM1 implM1 implM = none ∧
      substituteImpl implEmpty implEmpty implM =
        some (some (Text.intoBytes "impl A { fn m() {} }\nfn m() {}\n".toList)) := by
  decide +kernel

end Merge
end Vai
