import Vai.TryMerge
/-!
# Order — what the iteration order of a hash set can decide

`merge_by_entity_substitution` walks the set of changed entities twice, in whatever order the hash set gives.  Whether a
file is in conflict does not depend on that order (`tryMergeFile_clash_iff`): the walk gives up exactly when some changed
entity has a span that cannot be read.  What the order does decide is the content of a merged file, and whether a splice
panics.
-/
namespace Vai
namespace Merge

variable (head ws : Bytes) (hs ss : List Entity)

/-- The workspace's version of the entity `id` has a span outside the file. -/
def Unreadable (id : Text) : Prop := ∃ e, byId ss id = some e ∧ span ws e = none

theorem collectReplacements_eq_none : ∀ (l : List Text),
    collectReplacements head ws hs ss l = none ↔ ∃ id ∈ l, Unreadable ws ss id
  | [] => by simp [collectReplacements]
  | id :: l => by
    have ih := collectReplacements_eq_none l
    simp only [List.mem_cons, exists_eq_or_imp]
    rw [← ih, collectReplacements]
    cases he : byId ss id with
    | none => simp [Unreadable, he]
    | some e =>
      cases hsp : span ws e with
      | none => simp [Unreadable, he, hsp]
      | some c =>
        cases hrest : collectReplacements head ws hs ss l with
        | none => simp
        | some rest => cases byId hs id <;> simp [Unreadable, he, hsp]

/-- Once every changed entity has been read, the additions go through. -/
theorem appendNew_isSome : ∀ (l : List Text) (appended : Bool) (result : Bytes),
    (∀ id ∈ l, ¬ Unreadable ws ss id) → (appendNew ws hs ss l appended result).isSome
  | [], _, _, _ => rfl
  | id :: l, appended, result, h => by
    have htail : ∀ id ∈ l, ¬ Unreadable ws ss id := fun j hj => h j (List.mem_cons_of_mem _ hj)
    unfold appendNew
    split
    · exact appendNew_isSome l appended result htail
    · split
      · exact appendNew_isSome l appended result htail
      · rename_i e he
        cases hsp : span ws e with
        | none => exact absurd ⟨e, he, hsp⟩ (h id List.mem_cons_self)
        | some c => exact appendNew_isSome l true _ htail

/-- The substitution gives up exactly when a changed entity cannot be read. -/
theorem mergeByEntitySubstitution_eq_none (env : Env) (l : List Text) :
    mergeByEntitySubstitution env head ws hs ss l = some none ↔ ∃ id ∈ l, Unreadable ws ss id := by
  have hcollect := collectReplacements_eq_none head ws hs ss (env.hashOrder l)
  simp only [Env.mem_hashOrder] at hcollect
  unfold mergeByEntitySubstitution
  simp only
  split
  · rename_i hnone
    simpa using hcollect.1 hnone
  · rename_i rs hsome
    have hread : ¬ ∃ id ∈ l, Unreadable ws ss id := fun h => by
      rw [hcollect.2 h] at hsome
      cases hsome
    have happ : ∀ result, appendNew ws hs ss (env.hashOrder l) false result ≠ none := fun result hn => by
      have := appendNew_isSome ws hs ss (env.hashOrder l) false result
        (fun id hid hu => hread ⟨id, env.mem_hashOrder.1 hid, hu⟩)
      rw [hn] at this
      cases this
    split
    · simp [hread]
    · simp [hread, happ]

section TwoOrders

variable {e₁ e₂ : Env} (hp : e₁.parseRustSource = e₂.parseRustSource) (p : Path) (base : Bytes) (w : Uuid)

theorem mergeEntities_clash_iff (n : Nat) (bs : List Entity) :
    (mergeEntities e₁ n p base head ws w bs hs ss).map FileMergeResult.merged = some none ↔
      (mergeEntities e₂ n p base head ws w bs hs ss).map FileMergeResult.merged = some none := by
  have key : ∀ env : Env, (mergeEntities env n p base head ws w bs hs ss).map FileMergeResult.merged = some none ↔
      (changedEntityIds bs base hs head).filter (· ∈ changedEntityIds bs base ss ws) = [] →
        ∃ id ∈ changedEntityIds bs base ss ws, Unreadable ws ss id := by
    intro env
    rw [← mergeByEntitySubstitution_eq_none head ws hs ss env]
    unfold mergeEntities
    simp only
    split
    · rename_i hnil
      rw [List.isEmpty_iff] at hnil
      rcases hm : mergeByEntitySubstitution env head ws hs ss (changedEntityIds bs base ss ws) with _ | _ | c
      · simp [hnil]
      · simp [FileMergeResult.merged]
      · simp [hnil, FileMergeResult.merged]
    · rename_i hnil
      rw [List.isEmpty_iff] at hnil
      simp [hnil, FileMergeResult.merged]
  rw [key e₁, key e₂]

include hp in
/-- **Whether a file is in conflict does not depend on the order.** -/
theorem tryMergeFile_clash_iff (n : Nat) :
    (tryMergeFile e₁ n p base head ws w).map FileMergeResult.merged = some none ↔
      (tryMergeFile e₂ n p base head ws w).map FileMergeResult.merged = some none := by
  unfold tryMergeFile
  rw [hp]
  simp only
  split
  · rfl
  · split
    · split
      · exact mergeEntities_clash_iff head ws _ _ p base w n _
      · simp [FileMergeResult.merged]
    · simp [FileMergeResult.merged]

end TwoOrders

end Merge
end Vai
