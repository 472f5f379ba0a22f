import Vai.HunkSpec
import Vai.Order
import Vai.RustSource
/-!
# EntityMerge — the entity level, read off the changed ids

`merge_by_entity_substitution` as a function of the order in which it walks the changed ids: the replacements are those of
the ids that both sides have, and the additions are the texts of the ids that HEAD does not have, one after another.

The replacements are sorted, and no two entities of a file start together, so that their order does not matter.  The
additions come in the order of the walk (`order_independent_iff`).
-/
namespace Vai

/-- The same process with another iteration order of its hash sets. -/
def Env.withOrder (env : Env) (order : List Text → List Text) (h : ∀ l, (order l).Perm l) : Env :=
  { env with hashOrder := order, hashOrderPerm := h }

namespace Merge

/-! ## One walk over the changed ids -/

section Walk

variable (head ws : Bytes) (hs ss : List Entity)

/-- What replaces the entity `id` in HEAD: its span there, and its text in the workspace. -/
def replacement (id : Text) : Option (Nat × Nat × Bytes) := do
  let wsEnt ← byId ss id
  let headEnt ← byId hs id
  let wsBytes ← span ws wsEnt
  return (headEnt.byteRange.1, min headEnt.byteRange.2 head.length, wsBytes)

/-- The text of an entity that only the workspace has. -/
def addition (id : Text) : Option Bytes := if (byId hs id).isSome then none else (byId ss id).bind (span ws)

/-- The text of an addition, with a newline at its end. -/
def terminated (text : Bytes) : Bytes := if text = [] ∨ endsWithNewline text = true then text else text ++ [10]

def ensureNewline (result : Bytes) : Bytes := if endsWithNewline result then result else result ++ [10]

def withAdditions (result : Bytes) (texts : List Bytes) : Bytes :=
  if texts = [] then result else ensureNewline result ++ texts.flatMap terminated

variable {head ws hs ss}

theorem collectReplacements_eq : ∀ {l : List Text}, (∀ id ∈ l, ¬ Unreadable ws ss id) →
    collectReplacements head ws hs ss l = some (l.filterMap (replacement head ws hs ss))
  | [], _ => rfl
  | id :: l, h => by
    have ih := collectReplacements_eq fun j hj => h j (List.mem_cons_of_mem _ hj)
    have hid := h id List.mem_cons_self
    rw [collectReplacements, ih, List.filterMap_cons]
    unfold replacement
    cases he : byId ss id with
    | none => rfl
    | some e =>
      cases hsp : span ws e with
      | none => exact absurd ⟨e, he, hsp⟩ hid
      | some c => cases byId hs id <;> simp [hsp]

theorem endsWithNewline_append {a b : Bytes} (hb : b ≠ []) : endsWithNewline (a ++ b) = endsWithNewline b := by
  unfold endsWithNewline
  rw [List.getLast?_append_of_ne_nil _ hb]

theorem endsWithNewline_ensureNewline (result : Bytes) : endsWithNewline (ensureNewline result) = true := by
  unfold ensureNewline
  split
  · assumption
  · rw [endsWithNewline_append (by simp)]
    rfl

/-- A text after a newline is closed by one newline more, if it needs it. -/
theorem append_terminated {result text : Bytes} (hr : endsWithNewline result = true) :
    (if !endsWithNewline (result ++ text) then result ++ text ++ [10] else result ++ text) = result ++ terminated text ∧
      endsWithNewline (result ++ terminated text) = true := by
  unfold terminated
  by_cases ht : text = []
  · subst ht
    simp [hr]
  · rw [endsWithNewline_append ht]
    by_cases hn : endsWithNewline text = true
    · simp [hn, ht, endsWithNewline_append ht]
    · have h10 : endsWithNewline (text ++ [10]) = true := by
        rw [endsWithNewline_append (by simp)]
        rfl
      have hne : text ++ [10] ≠ [] := by simp
      simp [hn, ht, endsWithNewline_append hne, h10]

theorem addition_of_head {id : Text} (h : (byId hs id).isSome) : addition ws hs ss id = none := if_pos h

theorem addition_of_none {id : Text} (h : byId ss id = none) : addition ws hs ss id = none := by
  unfold addition
  rw [h]
  split <;> rfl

theorem addition_of_some {id : Text} {e : Entity} {c : Bytes} (h : ¬ (byId hs id).isSome) (he : byId ss id = some e)
    (hsp : span ws e = some c) : addition ws hs ss id = some c := by
  unfold addition
  rw [if_neg h, he]
  exact hsp

/-- One more addition, after a result that ends with a newline or is given one. -/
theorem appendNew_cons {id : Text} {e : Entity} {c : Bytes} {l : List Text} {appended : Bool} {result : Bytes}
    (h : ¬ (byId hs id).isSome) (he : byId ss id = some e) (hsp : span ws e = some c)
    (hr : appended = true → endsWithNewline result = true) :
    appendNew ws hs ss (id :: l) appended result = appendNew ws hs ss l true (ensureNewline result ++ terminated c) := by
  have hensure : (if (!appended && !endsWithNewline result) = true then result ++ [10] else result) = ensureNewline result := by
    unfold ensureNewline
    cases appended with
    | false => cases endsWithNewline result <;> rfl
    | true => rw [hr rfl]; rfl
  rw [appendNew, if_neg h, he]
  change (span ws e >>= fun wsBytes => _) = _
  rw [hsp]
  change appendNew ws hs ss l true _ = _
  rw [hensure, (append_terminated (endsWithNewline_ensureNewline result)).1]

theorem appendNew_true : ∀ {l : List Text} {result : Bytes}, (∀ id ∈ l, ¬ Unreadable ws ss id) →
    endsWithNewline result = true →
    appendNew ws hs ss l true result = some (result ++ (l.filterMap (addition ws hs ss)).flatMap terminated)
  | [], result, _, _ => by simp [appendNew]
  | id :: l, result, h, hr => by
    have htail : ∀ j ∈ l, ¬ Unreadable ws ss j := fun j hj => h j (List.mem_cons_of_mem _ hj)
    rw [List.filterMap_cons]
    by_cases hh : (byId hs id).isSome
    · rw [appendNew, if_pos hh, addition_of_head hh]
      exact appendNew_true htail hr
    · cases he : byId ss id with
      | none =>
        rw [appendNew, if_neg hh, he, addition_of_none he]
        exact appendNew_true htail hr
      | some e =>
        cases hsp : span ws e with
        | none => exact absurd ⟨e, he, hsp⟩ (h id List.mem_cons_self)
        | some c =>
          have hsame : ensureNewline result = result := if_pos hr
          rw [appendNew_cons hh he hsp (fun _ => hr), hsame, addition_of_some hh he hsp,
            appendNew_true htail (append_terminated hr).2]
          simp

theorem appendNew_false : ∀ {l : List Text} (result : Bytes), (∀ id ∈ l, ¬ Unreadable ws ss id) →
    appendNew ws hs ss l false result = some (withAdditions result (l.filterMap (addition ws hs ss)))
  | [], result, _ => rfl
  | id :: l, result, h => by
    have htail : ∀ j ∈ l, ¬ Unreadable ws ss j := fun j hj => h j (List.mem_cons_of_mem _ hj)
    rw [List.filterMap_cons]
    by_cases hh : (byId hs id).isSome
    · rw [appendNew, if_pos hh, addition_of_head hh]
      exact appendNew_false result htail
    · cases he : byId ss id with
      | none =>
        rw [appendNew, if_neg hh, he, addition_of_none he]
        exact appendNew_false result htail
      | some e =>
        cases hsp : span ws e with
        | none => exact absurd ⟨e, he, hsp⟩ (h id List.mem_cons_self)
        | some c =>
          rw [appendNew_cons hh he hsp (fun h => absurd h Bool.false_ne_true), addition_of_some hh he hsp,
            appendNew_true htail (append_terminated (endsWithNewline_ensureNewline result)).2]
          unfold withAdditions
          rw [if_neg (by simp)]
          simp

/-- The splices of the sorted replacements. -/
def spliceAll (head : Bytes) (replacements : List (Nat × Nat × Bytes)) : Option Bytes :=
  (replacements.insertionSort (fun a b => a.1 ≥ b.1)).foldlM (fun buf r => spliceBytes buf r.1 r.2.1 r.2.2) head

/-- **The substitution, when every changed entity can be read.** -/
theorem mergeByEntitySubstitution_eq (env : Env) {l : List Text} (h : ∀ id ∈ l, ¬ Unreadable ws ss id) :
    mergeByEntitySubstitution env head ws hs ss l =
      (spliceAll head ((env.hashOrder l).filterMap (replacement head ws hs ss))).map (fun result =>
        some (withAdditions result ((env.hashOrder l).filterMap (addition ws hs ss)))) := by
  have h' : ∀ id ∈ env.hashOrder l, ¬ Unreadable ws ss id := fun id hid => h id (env.mem_hashOrder.1 hid)
  unfold mergeByEntitySubstitution spliceAll
  dsimp only
  rw [collectReplacements_eq h']
  dsimp only
  cases (((env.hashOrder l).filterMap (replacement head ws hs ss)).insertionSort (fun a b => a.1 ≥ b.1)).foldlM
    (fun buf r => spliceBytes buf r.1 r.2.1 r.2.2) head with
  | none => rfl
  | some result => exact congrArg some (appendNew_false result h')

end Walk

/-! ## Two orders -/

theorem mem_of_byId {es : List Entity} {id : Text} {e : Entity} (h : byId es id = some e) : e ∈ es ∧ e.id = id := by
  unfold byId at h
  exact ⟨List.mem_reverse.1 (List.mem_of_find?_eq_some h), by simpa using List.find?_some h⟩

theorem readable_of_spans {ws : Bytes} {ss : List Entity} (h : RustSource.Spans 0 ws.length ss) (id : Text) :
    ¬ Unreadable ws ss id := by
  rintro ⟨e, he, hsp⟩
  have := h.1 e (mem_of_byId he).1
  unfold span slice at hsp
  rw [if_pos (by omega)] at hsp
  cases hsp

theorem replacement_inj {head ws : Bytes} {hs ss : List Entity} {n : Nat} (h : RustSource.Spans 0 n hs) {i j : Text}
    {r r' : Nat × Nat × Bytes} (hi : replacement head ws hs ss i = some r) (hj : replacement head ws hs ss j = some r')
    (hr : r.1 = r'.1) : r = r' := by
  unfold replacement at hi hj
  simp only [Option.bind_eq_bind, Option.bind_eq_some_iff] at hi hj
  obtain ⟨a, ha, b, hb, c, hc, hi⟩ := hi
  obtain ⟨a', ha', b', hb', c', hc', hj⟩ := hj
  cases hi
  cases hj
  have hbb : b = b' := by
    by_contra hne
    have hne' := either_of_pairwise h.2 (mem_of_byId hb).1 (mem_of_byId hb').1 hne
    dsimp only at hr
    omega
  have hij : i = j := by rw [← (mem_of_byId hb).2, ← (mem_of_byId hb').2, hbb]
  subst hbb hij
  rw [ha] at ha'
  cases ha'
  rw [hc] at hc'
  cases hc'
  rfl

theorem isOrder_startDesc : Sorting.IsOrder (fun a b : Nat × Nat × Bytes => decide (a.1 ≥ b.1)) :=
  Sorting.isOrder_swap (Sorting.isOrder_key Sorting.isOrder_le Prod.fst)

/-- The splices do not depend on the order in which the replacements were found. -/
theorem spliceAll_perm {head ws : Bytes} {hs ss : List Entity} {n : Nat} (h : RustSource.Spans 0 n hs) {l l' : List Text}
    (hp : l.Perm l') : spliceAll head (l.filterMap (replacement head ws hs ss)) =
      spliceAll head (l'.filterMap (replacement head ws hs ss)) := by
  have hperm := hp.filterMap (replacement head ws hs ss)
  have hsorted : ∀ l : List (Nat × Nat × Bytes),
      (l.insertionSort (fun a b => a.1 ≥ b.1)).Pairwise (fun a b => a.1 ≥ b.1) := fun l => by
    have := Sorting.pairwise_insertionSort isOrder_startDesc (R := fun _ _ => True) (l := l)
      (List.pairwise_of_forall fun _ _ => trivial)
    simpa using this.imp And.left
  have heq : (l.filterMap (replacement head ws hs ss)).insertionSort (fun a b => a.1 ≥ b.1) =
      (l'.filterMap (replacement head ws hs ss)).insertionSort (fun a b => a.1 ≥ b.1) := by
    refine List.Perm.eq_of_pairwise (fun a b ha hb hab hba => ?_) (hsorted _) (hsorted _)
      ((List.perm_insertionSort _ _).trans (hperm.trans (List.perm_insertionSort _ _).symm))
    obtain ⟨i, -, hi⟩ := List.mem_filterMap.1 ((List.mem_insertionSort _).1 ha)
    obtain ⟨j, -, hj⟩ := List.mem_filterMap.1 ((List.mem_insertionSort _).1 hb)
    exact replacement_inj h hi hj (le_antisymm hba hab)
  unfold spliceAll
  rw [heq]

/-- Every splice is inside the buffer, by the lengths alone. -/
def SplicesFit : Nat → List (Nat × Nat × Bytes) → Prop
  | _, [] => True
  | len, r :: l => r.1 ≤ r.2.1 ∧ r.2.1 ≤ len ∧ SplicesFit (len - (r.2.1 - r.1) + r.2.2.length) l

theorem isSome_foldlM_splice : ∀ (l : List (Nat × Nat × Bytes)) (buf : Bytes),
    (l.foldlM (fun buf r => spliceBytes buf r.1 r.2.1 r.2.2) buf).isSome ↔ SplicesFit buf.length l
  | [], _ => by simp [SplicesFit]
  | r :: l, buf => by
    rw [List.foldlM_cons]
    unfold SplicesFit spliceBytes
    by_cases hr : r.1 ≤ r.2.1 ∧ r.2.1 ≤ buf.length
    · rw [if_pos hr]
      have hlen : (buf.take r.1 ++ r.2.2 ++ buf.drop r.2.1).length = buf.length - (r.2.1 - r.1) + r.2.2.length := by
        simp only [List.length_append, List.length_take, List.length_drop]
        omega
      have ih := isSome_foldlM_splice l (buf.take r.1 ++ r.2.2 ++ buf.drop r.2.1)
      rw [hlen] at ih
      change ((l.foldlM (fun buf r => spliceBytes buf r.1 r.2.1 r.2.2) (buf.take r.1 ++ r.2.2 ++ buf.drop r.2.1)).isSome = true) ↔ _
      rw [ih]
      tauto
    · rw [if_neg hr]
      constructor
      · intro h
        cases h
      · rintro ⟨h1, h2, -⟩
        exact absurd ⟨h1, h2⟩ hr

/-- Texts that may stand in any order. -/
def Commute (texts : List Bytes) : Prop := ∀ x ∈ texts, ∀ y ∈ texts, terminated x ++ terminated y = terminated y ++ terminated x

theorem flatMap_terminated_perm {l l' : List Bytes} (hp : l.Perm l') : Commute l → l.flatMap terminated = l'.flatMap terminated := by
  induction hp with
  | nil => exact fun _ => rfl
  | cons x hp ih =>
    intro h
    rw [List.flatMap_cons, List.flatMap_cons, ih fun a ha b hb => h a (List.mem_cons_of_mem _ ha) b (List.mem_cons_of_mem _ hb)]
  | swap x y l =>
    intro h
    rw [List.flatMap_cons, List.flatMap_cons, List.flatMap_cons, List.flatMap_cons, ← List.append_assoc,
      ← List.append_assoc, h y (by simp) x (by simp)]
  | trans h1 _ ih1 ih2 =>
    intro h
    rw [ih1 h, ih2 fun a ha b hb => h a (h1.mem_iff.2 ha) b (h1.mem_iff.2 hb)]

theorem withAdditions_perm {result : Bytes} {l l' : List Bytes} (hp : l.Perm l') (h : Commute l) :
    withAdditions result l = withAdditions result l' := by
  unfold withAdditions
  rw [flatMap_terminated_perm hp h]
  by_cases hl : l = []
  · subst hl
    obtain rfl := hp.nil_eq
    rfl
  · rw [if_neg hl, if_neg fun hn => hl (by rw [hn] at hp; exact hp.eq_nil)]

section Orders

variable {p : Path} {base head ws : Bytes} {bs hs ss : List Entity}

/-- The file gets to level 2 with these entities: the lines overlap and the changed entities do not. -/
structure LevelTwo (env : Env) (p : Path) (base head ws : Bytes) (bs hs ss : List Entity) : Prop where
  lines : hunksOverlap (computeHunks (splitLines base) (splitLines head))
    (computeHunks (splitLines base) (splitLines ws)) = true
  rust : isRustPath p = true
  parsedBase : (env.parseRustSource p base).map Prod.fst = .ok bs
  parsedHead : (env.parseRustSource p head).map Prod.fst = .ok hs
  parsedWs : (env.parseRustSource p ws).map Prod.fst = .ok ss
  overlap : (changedEntityIds bs base hs head).filter (· ∈ changedEntityIds bs base ss ws) = []

theorem mergeEntities_levelTwo (env : Env) (n : Nat) (w : Uuid) (hw : RustSource.Spans 0 ws.length ss)
    (ho : (changedEntityIds bs base hs head).filter (· ∈ changedEntityIds bs base ss ws) = []) :
    mergeEntities env n p base head ws w bs hs ss =
      (spliceAll head ((env.hashOrder (changedEntityIds bs base ss ws)).filterMap (replacement head ws hs ss))).map
        (fun result => .autoMerged (withAdditions result
          ((env.hashOrder (changedEntityIds bs base ss ws)).filterMap (addition ws hs ss))) 2) := by
  unfold mergeEntities
  dsimp only
  rw [ho, List.isEmpty_nil, if_pos rfl, mergeByEntitySubstitution_eq env fun id _ => readable_of_spans hw id]
  cases spliceAll head ((env.hashOrder (changedEntityIds bs base ss ws)).filterMap (replacement head ws hs ss)) <;> rfl

theorem mergeEntities_conflict (env : Env) (n : Nat) (w : Uuid)
    (ho : (changedEntityIds bs base hs head).filter (· ∈ changedEntityIds bs base ss ws) ≠ []) :
    (mergeEntities env n p base head ws w bs hs ss).map FileMergeResult.merged = some none := by
  unfold mergeEntities
  dsimp only
  rw [if_neg (by rwa [List.isEmpty_iff])]
  rfl

theorem map_fst_ok {α β ε : Type} {r : Except ε (α × β)} {a : α} (h : r.map Prod.fst = .ok a) : ∃ b, r = .ok (a, b) := by
  cases r with
  | error e => cases h
  | ok q => cases h; exact ⟨q.2, rfl⟩

theorem LevelTwo.tryMergeFile_eq {env : Env} (h : LevelTwo env p base head ws bs hs ss) (n : Nat) (w : Uuid) :
    tryMergeFile env n p base head ws w = mergeEntities env n p base head ws w bs hs ss := by
  obtain ⟨_, hb⟩ := map_fst_ok h.parsedBase
  obtain ⟨_, hh⟩ := map_fst_ok h.parsedHead
  obtain ⟨_, hs'⟩ := map_fst_ok h.parsedWs
  unfold tryMergeFile
  dsimp only
  rw [h.lines, Bool.not_true, if_neg Bool.false_ne_true, if_pos h.rust, hb, hh, hs']

theorem LevelTwo.withOrder {env : Env} (h : LevelTwo env p base head ws bs hs ss) (order : List Text → List Text)
    (ho : ∀ l, (order l).Perm l) : LevelTwo (env.withOrder order ho) p base head ws bs hs ss :=
  ⟨h.lines, h.rust, h.parsedBase, h.parsedHead, h.parsedWs, h.overlap⟩

theorem LevelTwo.merged_eq {env : Env} (h : LevelTwo env p base head ws bs hs ss) (hw : RustSource.Spans 0 ws.length ss)
    (n : Nat) (w : Uuid) (order : List Text → List Text) (ho : ∀ l, (order l).Perm l) :
    (tryMergeFile (env.withOrder order ho) n p base head ws w).map FileMergeResult.merged =
      (spliceAll head ((order (changedEntityIds bs base ss ws)).filterMap (replacement head ws hs ss))).map
        (fun result => some (withAdditions result
          ((order (changedEntityIds bs base ss ws)).filterMap (addition ws hs ss)))) := by
  rw [(h.withOrder order ho).tryMergeFile_eq, mergeEntities_levelTwo _ n w hw h.overlap, Option.map_map]
  rfl

theorem merged_eq_of_not_levelTwo {env : Env} (h : ∀ bs hs ss, ¬ LevelTwo env p base head ws bs hs ss) (n : Nat) (w : Uuid)
    (o₁ o₂ : List Text → List Text) (h₁ : ∀ l, (o₁ l).Perm l) (h₂ : ∀ l, (o₂ l).Perm l) :
    (tryMergeFile (env.withOrder o₁ h₁) n p base head ws w).map FileMergeResult.merged =
      (tryMergeFile (env.withOrder o₂ h₂) n p base head ws w).map FileMergeResult.merged := by
  by_cases hl : hunksOverlap (computeHunks (splitLines base) (splitLines head))
      (computeHunks (splitLines base) (splitLines ws)) = true
  · by_cases hr : isRustPath p = true
    · unfold tryMergeFile
      dsimp only [Env.withOrder]
      rw [hl, Bool.not_true, if_neg Bool.false_ne_true, if_neg Bool.false_ne_true, if_pos hr, if_pos hr]
      cases hb : env.parseRustSource p base with
      | error e => rfl
      | ok qb =>
        cases hh : env.parseRustSource p head with
        | error e => rfl
        | ok qh =>
          cases hs : env.parseRustSource p ws with
          | error e => rfl
          | ok qs =>
            by_cases ho : (changedEntityIds qb.1 base qh.1 head).filter (· ∈ changedEntityIds qb.1 base qs.1 ws) = []
            · exact absurd ⟨hl, hr, by rw [hb]; rfl, by rw [hh]; rfl, by rw [hs]; rfl, ho⟩ (h qb.1 qh.1 qs.1)
            · exact (mergeEntities_conflict _ n w ho).trans (mergeEntities_conflict _ n w ho).symm
    · unfold tryMergeFile
      dsimp only
      rw [hl, Bool.not_true, if_neg Bool.false_ne_true, if_neg Bool.false_ne_true, if_neg hr, if_neg hr]
      rfl
  · rw [Bool.not_eq_true] at hl
    rw [tryMergeFile_level1 _ n p w hl, tryMergeFile_level1 _ n p w hl]

/-- An order of hash sets that lists one of them as given. -/
def orderOf (l target : List Text) (x : List Text) : List Text := if x = l then target else x

theorem orderOf_perm {l target : List Text} (h : target.Perm l) (x : List Text) : (orderOf l target x).Perm x := by
  unfold orderOf
  split
  · rename_i hx
    rw [hx]
    exact h
  · exact .refl _

/-- **When the order of a hash set does not matter**: two walks over the changed entities give the same file exactly when
level 2 is not reached, or a splice panics, or the texts that it would add may stand in any order. -/
theorem order_independent_iff {ts : RustSource.TreeSitter} {digest : Bytes → Text} {env : Env}
    (hparse : ∀ p c, (env.parseRustSource p c).map Prod.fst = RustSource.entitiesOf ts digest p c)
    (n : Nat) (p : Path) (base head ws : Bytes) (w : Uuid) :
    (∀ o₁ h₁ o₂ h₂, (tryMergeFile (env.withOrder o₁ h₁) n p base head ws w).map FileMergeResult.merged =
      (tryMergeFile (env.withOrder o₂ h₂) n p base head ws w).map FileMergeResult.merged) ↔
    ∀ bs hs ss, LevelTwo env p base head ws bs hs ss →
      SplicesFit head.length (((changedEntityIds bs base ss ws).filterMap (replacement head ws hs ss)).insertionSort
        (fun a b => a.1 ≥ b.1)) →
      Commute ((changedEntityIds bs base ss ws).filterMap (addition ws hs ss)) := by
  have hspans : ∀ {bs hs ss}, LevelTwo env p base head ws bs hs ss →
      RustSource.Spans 0 head.length hs ∧ RustSource.Spans 0 ws.length ss := fun h =>
    ⟨RustSource.entitiesOf_spans digest head p ((hparse p head).symm.trans h.parsedHead),
      RustSource.entitiesOf_spans digest ws p ((hparse p ws).symm.trans h.parsedWs)⟩
  constructor
  · intro hsame bs hs ss h2 hfit x hx y hy
    obtain ⟨hhs, hss⟩ := hspans h2
    obtain ⟨i, hi, hix⟩ := List.mem_filterMap.1 hx
    obtain ⟨j, hj, hjy⟩ := List.mem_filterMap.1 hy
    by_cases hij : i = j
    · subst hij
      rw [hix] at hjy
      cases hjy
      rfl
    -- two walks that begin with the two ids, in either order
    obtain ⟨l₁, hl₁⟩ : ∃ l₁, (changedEntityIds bs base ss ws).Perm (i :: l₁) := ⟨_, List.perm_cons_erase hi⟩
    obtain ⟨rest, hrest⟩ : ∃ rest, l₁.Perm (j :: rest) :=
      ⟨_, List.perm_cons_erase (List.mem_of_ne_of_mem (Ne.symm hij) (hl₁.mem_iff.1 hj))⟩
    have hp₁ : (i :: j :: rest).Perm (changedEntityIds bs base ss ws) := (hl₁.trans (hrest.cons i)).symm
    have hp₂ : (j :: i :: rest).Perm (changedEntityIds bs base ss ws) := (List.Perm.swap i j rest).trans hp₁
    have hm := hsame _ (orderOf_perm hp₁) _ (orderOf_perm hp₂)
    rw [h2.merged_eq hss, h2.merged_eq hss, orderOf, if_pos rfl, orderOf, if_pos rfl, spliceAll_perm hhs hp₁,
      spliceAll_perm hhs hp₂] at hm
    obtain ⟨result, hres⟩ := Option.isSome_iff_exists.1 ((isSome_foldlM_splice _ _).2 hfit)
    have hsplice : spliceAll head ((changedEntityIds bs base ss ws).filterMap (replacement head ws hs ss)) = some result := hres
    rw [hsplice, List.filterMap_cons_some hix, List.filterMap_cons_some hjy, List.filterMap_cons_some hjy,
      List.filterMap_cons_some hix, Option.map_some, Option.map_some, Option.some.injEq, Option.some.injEq] at hm
    unfold withAdditions at hm
    rw [if_neg (by simp), if_neg (by simp), List.append_cancel_left_eq, List.flatMap_cons, List.flatMap_cons,
      List.flatMap_cons, List.flatMap_cons, ← List.append_assoc, ← List.append_assoc, List.append_cancel_right_eq] at hm
    exact hm
  · intro hcomm o₁ h₁ o₂ h₂
    by_cases h2 : ∃ bs hs ss, LevelTwo env p base head ws bs hs ss
    · obtain ⟨bs, hs, ss, h2⟩ := h2
      obtain ⟨hhs, hss⟩ := hspans h2
      rw [h2.merged_eq hss, h2.merged_eq hss, spliceAll_perm hhs (h₁ _), spliceAll_perm hhs (h₂ _)]
      cases hsp : spliceAll head ((changedEntityIds bs base ss ws).filterMap (replacement head ws hs ss)) with
      | none => rfl
      | some result =>
        have hfit := (isSome_foldlM_splice _ _).1 (by unfold spliceAll at hsp; rw [hsp]; rfl)
        have hc := hcomm bs hs ss h2 hfit
        rw [Option.map_some, Option.map_some, withAdditions_perm ((h₁ _).symm.filterMap _) hc |>.symm,
          withAdditions_perm ((h₂ _).symm.filterMap _) hc |>.symm]
    · exact merged_eq_of_not_levelTwo (fun bs hs ss h => h2 ⟨bs, hs, ss, h⟩) n w o₁ o₂ h₁ h₂

end Orders

/-! ## Two functions that only the workspace has -/

/-- The node of a function `fn f() {…}` in the first line. -/
def functionNode (start size : Nat) : SyntaxNode :=
  .mk "function_item".toList none start (start + size) 0 0 true [
    .mk "fn".toList none start (start + 2) 0 0 false [],
    .mk "identifier".toList (some "name".toList) (start + 3) (start + 4) 0 0 true [],
    .mk "parameters".toList (some "parameters".toList) (start + 4) (start + 6) 0 0 true [],
    .mk "block".toList (some "body".toList) (start + 7) (start + size) 0 0 true []]

def fileNode (size : Nat) (items : List SyntaxNode) : SyntaxNode := .mk "source_file".toList none 0 size 0 0 true items

def onlyA : Bytes := Text.intoBytes "fn a() {}".toList
def aThenH : Bytes := Text.intoBytes "fn a() {} fn h() {}".toList
def aThenBThenC : Bytes := Text.intoBytes "fn a() {} fn b() {} fn c() {}".toList

/-- The trees of the three files. -/
def lineParser : RustSource.TreeSitter :=
  .ofTable [(onlyA, fileNode 9 [functionNode 0 9]), (aThenH, fileNode 19 [functionNode 0 9, functionNode 10 9]),
      (aThenBThenC, fileNode 29 [functionNode 0 9, functionNode 10 9, functionNode 20 9])] (by
    simp [RustSource.WellFormed, RustSource.InOrder, RustSource.itemKinds, fileNode, functionNode, SyntaxNode.startByte,
      SyntaxNode.endByte, SyntaxNode.field]
    decide +kernel)

/-- A process with such a parser, which iterates its hash sets as they come. -/
def parsingEnv (ts : RustSource.TreeSitter) : Env :=
  { Env.plain with
    parseRustSource := fun p c => (RustSource.entitiesOf ts Text.fromUtf8Lossy p c).map (fun es => (es, [])) }

theorem parsingEnv_parse (ts : RustSource.TreeSitter) (p : Path) (c : Bytes) :
    ((parsingEnv ts).parseRustSource p c).map Prod.fst = RustSource.entitiesOf ts Text.fromUtf8Lossy p c := by
  unfold parsingEnv
  dsimp only
  cases RustSource.entitiesOf ts Text.fromUtf8Lossy p c <;> rfl

/-- The entities that a parser finds in a file. -/
def entitiesIn (ts : RustSource.TreeSitter) (c : Bytes) : List Entity :=
  ((RustSource.entitiesOf ts Text.fromUtf8Lossy "a.rs".toList c).toOption).getD []

theorem entitiesIn_eq {ts : RustSource.TreeSitter} {c : Bytes} {es : List Entity}
    (h : ((parsingEnv ts).parseRustSource "a.rs".toList c).map Prod.fst = .ok es) : es = entitiesIn ts c := by
  rw [parsingEnv_parse] at h
  unfold entitiesIn
  rw [h]
  rfl

theorem parsed_entitiesIn {ts : RustSource.TreeSitter} {c : Bytes} (h : (ts.parse c).isSome) :
    ((parsingEnv ts).parseRustSource "a.rs".toList c).map Prod.fst = .ok (entitiesIn ts c) := by
  obtain ⟨root, hroot⟩ := Option.isSome_iff_exists.1 h
  rw [parsingEnv_parse]
  unfold entitiesIn RustSource.entitiesOf
  rw [hroot]
  rfl

theorem entitiesIn_spans (ts : RustSource.TreeSitter) (c : Bytes) : RustSource.Spans 0 c.length (entitiesIn ts c) := by
  unfold entitiesIn
  cases h : RustSource.entitiesOf ts Text.fromUtf8Lossy "a.rs".toList c with
  | error e => exact RustSource.Spans.nil _ _
  | ok es => exact RustSource.entitiesOf_spans _ _ _ h

/-- One function has one place. -/
theorem order_independent_iff_one :
    (tryMergeFile ((parsingEnv lineParser).withOrder id fun _ => .refl _) 0 "a.rs".toList onlyA aThenBThenC aThenH 7).map
        FileMergeResult.merged =
      (tryMergeFile ((parsingEnv lineParser).withOrder List.reverse List.reverse_perm) 0 "a.rs".toList onlyA aThenBThenC
        aThenH 7).map FileMergeResult.merged := by
  refine (order_independent_iff (parsingEnv_parse lineParser) 0 _ _ _ _ 7).2 (fun bs hs ss h _ => ?_) _ _ _ _
  have hone : (changedEntityIds bs onlyA ss aThenH).filterMap (addition aThenH hs ss) =
      [Text.intoBytes "fn h() {}".toList] := by
    rw [entitiesIn_eq h.parsedBase, entitiesIn_eq h.parsedHead, entitiesIn_eq h.parsedWs]
    decide +kernel
  rw [hone]
  intro x hx y hy
  rw [List.mem_singleton.1 hx, List.mem_singleton.1 hy]

/-- HEAD has added one function to a line, and the workspace has added two. -/
theorem two_functions_in_two_orders :
    (tryMergeFile ((parsingEnv lineParser).withOrder id fun _ => .refl _) 0 "a.rs".toList onlyA aThenH aThenBThenC 7).map
        FileMergeResult.merged =
      some (some (Text.intoBytes "fn a() {} fn h() {}\nfn b() {}\nfn c() {}\n".toList)) ∧
    (tryMergeFile ((parsingEnv lineParser).withOrder List.reverse List.reverse_perm) 0 "a.rs".toList onlyA aThenH
        aThenBThenC 7).map FileMergeResult.merged =
      some (some (Text.intoBytes "fn a() {} fn h() {}\nfn c() {}\nfn b() {}\n".toList)) := by
  decide +kernel

end Merge
end Vai
