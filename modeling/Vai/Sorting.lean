import Mathlib.Data.List.Sort
/-!
# Sorting — orders on several keys

A key orders values by a `Bool`-valued comparison, which is total and transitive (`IsOrder`).  `lexLe` compares by one key
after the other.  Stable sorts by each of them, the last key first, sort by `lexLe`, and leave together what it does not
tell apart (`pairwise_sortPasses`).

`RowOrder` is how a database answers `ORDER BY`: rows that compare equal come in some order.
-/
namespace Vai
namespace Sorting

variable {α : Type}

structure IsOrder (le : α → α → Bool) : Prop where
  total : ∀ a b, le a b = true ∨ le b a = true
  trans : ∀ a b c, le a b = true → le b c = true → le a c = true

theorem isOrder_swap {le : α → α → Bool} (h : IsOrder le) : IsOrder (fun a b => le b a) where
  total a b := h.total b a
  trans a b c hab hbc := h.trans c b a hbc hab

theorem isOrder_key {β : Type} {le : β → β → Bool} (h : IsOrder le) (key : α → β) : IsOrder (fun a b => le (key a) (key b)) where
  total a b := h.total (key a) (key b)
  trans a b c := h.trans (key a) (key b) (key c)

theorem isOrder_le {β : Type} [LinearOrder β] : IsOrder (fun a b : β => decide (a ≤ b)) where
  total a b := by simpa using le_total a b
  trans a b c := by simpa using le_trans

/-- The later orders decide where the first leaves two values together. -/
def lexLe : List (α → α → Bool) → α → α → Bool
  | [], _, _ => true
  | le :: les, a, b => le a b && (!le b a || lexLe les a b)

theorem lexLe_cons {le : α → α → Bool} {les : List (α → α → Bool)} {a b : α} :
    lexLe (le :: les) a b = true ↔ le a b = true ∧ (le b a = true → lexLe les a b = true) := by
  cases hba : le b a <;> simp [lexLe, hba]

theorem isOrder_lexLe {les : List (α → α → Bool)} (h : ∀ le ∈ les, IsOrder le) : IsOrder (lexLe les) := by
  induction les with
  | nil => exact ⟨fun _ _ => Or.inl rfl, fun _ _ _ _ _ => rfl⟩
  | cons le les ih =>
    have hle := h le List.mem_cons_self
    have hrest := ih fun le' hle' => h le' (List.mem_cons_of_mem _ hle')
    constructor
    · intro a b
      rw [lexLe_cons, lexLe_cons]
      cases hab : le a b with
      | false =>
        have hba := (hle.total a b).resolve_left (by simp [hab])
        exact Or.inr ⟨hba, fun h => by cases h⟩
      | true =>
        cases hba : le b a with
        | false => exact Or.inl ⟨rfl, fun h => by cases h⟩
        | true =>
          rcases hrest.total a b with h | h
          · exact Or.inl ⟨rfl, fun _ => h⟩
          · exact Or.inr ⟨rfl, fun _ => h⟩
    · intro a b c hab hbc
      rw [lexLe_cons] at hab hbc ⊢
      refine ⟨hle.trans a b c hab.1 hbc.1, fun hca => ?_⟩
      have hba := hle.trans b c a hbc.1 hca
      have hcb := hle.trans c a b hca hab.1
      exact hrest.trans a b c (hab.2 hba) (hbc.2 hcb)

/-- What `lexLe` does not tell apart, none of the orders does. -/
theorem lexLe_antisymm {les : List (α → α → Bool)} {a b : α} (hab : lexLe les a b = true) (hba : lexLe les b a = true) :
    ∀ le ∈ les, le a b = true ∧ le b a = true := by
  induction les with
  | nil => simp
  | cons le les ih =>
    rw [lexLe_cons] at hab hba
    have hrest := ih (hab.2 hba.1) (hba.2 hab.1)
    intro le' hle'
    rcases List.mem_cons.1 hle' with rfl | hle'
    · exact ⟨hab.1, hba.1⟩
    · exact hrest le' hle'

/-- Stable sorts by each of the orders, the last first. -/
def sortPasses (les : List (α → α → Bool)) (l : List α) : List α :=
  les.foldr (fun le l => l.insertionSort fun a b => le a b = true) l

theorem perm_sortPasses (les : List (α → α → Bool)) (l : List α) : (sortPasses les l).Perm l := by
  induction les with
  | nil => exact .refl _
  | cons le les ih => exact (List.perm_insertionSort _ _).trans ih

/-- What `lexLe` says, and `R` between what it does not tell apart. -/
def lexRel (R : α → α → Prop) : List (α → α → Bool) → α → α → Prop
  | [], a, b => R a b
  | le :: les, a, b => le a b = true ∧ (le b a = true → lexRel R les a b)

/-- **An insertion sort is stable**: values that compare equal stay as they were. -/
theorem pairwise_insertionSort {le : α → α → Bool} (h : IsOrder le) {R : α → α → Prop} {l : List α} (hR : l.Pairwise R) :
    (l.insertionSort fun a b => le a b = true).Pairwise fun a b => le a b = true ∧ (le b a = true → R a b) := by
  induction l with
  | nil => simp
  | cons a l ih =>
    rw [List.pairwise_cons] at hR
    have hsorted := ih hR.2
    have hmem : ∀ b ∈ l.insertionSort (fun a b => le a b = true), R a b := fun b hb =>
      hR.1 b ((List.mem_insertionSort _).1 hb)
    rw [List.insertionSort_cons]
    generalize l.insertionSort (fun a b => le a b = true) = s at hsorted hmem
    -- the new value comes before the first that is not smaller
    induction s with
    | nil => simp
    | cons b s ihs =>
      rw [List.pairwise_cons] at hsorted
      by_cases hab : le a b = true
      · rw [List.orderedInsert_cons, if_pos hab, List.pairwise_cons, List.pairwise_cons]
        refine ⟨fun c hc => ⟨?_, fun _ => hmem c hc⟩, hsorted⟩
        rcases List.mem_cons.1 hc with rfl | hc
        · exact hab
        · exact h.trans a b c hab (hsorted.1 c hc).1
      · have hba := (h.total a b).resolve_left hab
        rw [List.orderedInsert_cons, if_neg hab, List.pairwise_cons]
        refine ⟨fun c hc => ?_, ihs hsorted.2 fun c hc => hmem c (List.mem_cons_of_mem _ hc)⟩
        rw [List.mem_orderedInsert] at hc
        rcases hc with rfl | hc
        · exact ⟨hba, fun h => absurd h hab⟩
        · exact hsorted.1 c hc

theorem pairwise_sortPasses {les : List (α → α → Bool)} (h : ∀ le ∈ les, IsOrder le) {R : α → α → Prop} {l : List α}
    (hR : l.Pairwise R) : (sortPasses les l).Pairwise (lexRel R les) := by
  induction les with
  | nil => exact hR
  | cons le les ih =>
    have hrest := ih fun le' hle' => h le' (List.mem_cons_of_mem _ hle')
    exact pairwise_insertionSort (h le List.mem_cons_self) hrest

/-- How a database answers `ORDER BY`. -/
structure RowOrder (α : Type) where
  orderBy : (α → α → Bool) → List α → List α
  perm : ∀ le l, (orderBy le l).Perm l
  sorted : ∀ le l, IsOrder le → (orderBy le l).Pairwise fun a b => le a b = true

/-- Rows that compare equal stay as they come. -/
def RowOrder.stable : RowOrder α where
  orderBy le l := l.insertionSort fun a b => le a b = true
  perm _ l := List.perm_insertionSort _ l
  sorted _ _ h := (pairwise_insertionSort (R := fun _ _ => True) h (List.pairwise_of_forall fun _ _ => trivial)).imp And.left

end Sorting
end Vai
