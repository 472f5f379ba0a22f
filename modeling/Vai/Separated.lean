import Mathlib.Data.List.Basic
/-!
# Separated — two texts with a separator between them

`x ++ sep ++ y` does not tell `x` and `y` where the separator may also be part of them.  Two pairs with one text either are
the same, or in one of them the separator stands further on (`append_inj_iff`).
-/
namespace Vai
namespace Separated

variable {α : Type}

/-- The text of the first pair, cut where the separator stands further on. -/
def Shifted (sep x y x' y' : List α) : Prop := ∃ r, r ≠ [] ∧ x' = x ++ r ∧ sep ++ y = r ++ sep ++ y'

variable {sep x y x' y' : List α}

theorem Shifted.ne (h : Shifted sep x y x' y') : x ≠ x' := by
  obtain ⟨r, hr, hx, -⟩ := h
  intro he
  exact hr (List.append_right_eq_self.1 (he.trans hx).symm)

theorem Shifted.append_eq (h : Shifted sep x y x' y') : x ++ sep ++ y = x' ++ sep ++ y' := by
  obtain ⟨r, -, rfl, hy⟩ := h
  rw [List.append_assoc, hy]
  simp only [List.append_assoc]

/-- **When two pairs have one text.** -/
theorem append_inj_iff : x ++ sep ++ y = x' ++ sep ++ y' ↔
    (x = x' ∧ y = y') ∨ Shifted sep x y x' y' ∨ Shifted sep x' y' x y := by
  constructor
  · intro h
    rw [List.append_assoc, List.append_assoc, List.append_eq_append_iff] at h
    rcases h with ⟨r, hx, hy⟩ | ⟨r, hx, hy⟩
    · by_cases hr : r = []
      · subst hr
        rw [List.append_nil] at hx
        rw [List.nil_append] at hy
        exact Or.inl ⟨hx.symm, List.append_cancel_left hy⟩
      · exact Or.inr (Or.inl ⟨r, hr, hx, by rw [hy, List.append_assoc]⟩)
    · by_cases hr : r = []
      · subst hr
        rw [List.append_nil] at hx
        rw [List.nil_append] at hy
        exact Or.inl ⟨hx, (List.append_cancel_left hy).symm⟩
      · exact Or.inr (Or.inr ⟨r, hr, hx, by rw [hy, List.append_assoc]⟩)
  · rintro (⟨rfl, rfl⟩ | h | h)
    · rfl
    · exact h.append_eq
    · exact h.append_eq.symm

/-- The separator is one character twice: the first text goes on with that character and the second begins with it, or
what is between begins with the separator. -/
def MovesOn (c : α) (x y x' y' : List α) : Prop :=
  (x' = x ++ [c] ∧ y = c :: y') ∨ ∃ m, x' = x ++ [c, c] ++ m ∧ y = m ++ [c, c] ++ y'

theorem shifted_twice_iff {c : α} : Shifted [c, c] x y x' y' ↔ MovesOn c x y x' y' := by
  unfold MovesOn
  constructor
  · rintro ⟨r, hr, hx, hy⟩
    match r, hr, hx, hy with
    | [a], _, hx, hy =>
      simp only [List.cons_append, List.nil_append, List.cons.injEq] at hy
      obtain ⟨rfl, -, hy⟩ := hy
      exact Or.inl ⟨hx, hy⟩
    | a :: b :: m, _, hx, hy =>
      simp only [List.cons_append, List.nil_append, List.cons.injEq] at hy
      obtain ⟨rfl, rfl, hy⟩ := hy
      refine Or.inr ⟨m, ?_, ?_⟩
      · rw [hx, List.append_assoc]
        rfl
      · exact hy
  · rintro (⟨rfl, rfl⟩ | ⟨m, rfl, rfl⟩)
    · exact ⟨[c], List.cons_ne_nil _ _, rfl, rfl⟩
    · refine ⟨c :: c :: m, List.cons_ne_nil _ _, ?_, ?_⟩
      · rw [List.append_assoc]
        rfl
      · simp only [List.append_assoc, List.cons_append, List.nil_append]

theorem not_movesOn_self {c : α} : ¬ MovesOn c x y x y' := fun h => (shifted_twice_iff.2 h).ne rfl

/-- `append_inj_iff` for a separator of one character twice. -/
theorem append_twice_inj_iff {c : α} : x ++ [c, c] ++ y = x' ++ [c, c] ++ y' ↔
    (x = x' ∧ y = y') ∨ MovesOn c x y x' y' ∨ MovesOn c x' y' x y := by
  rw [append_inj_iff, shifted_twice_iff, shifted_twice_iff]

end Separated
end Vai
