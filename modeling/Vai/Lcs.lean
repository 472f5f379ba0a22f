import Mathlib.Data.List.Infix
import Mathlib.Order.Basic
/-!
# Lcs — how long a common subsequence can be

`best` is the recursion over the suffixes of two lists by which a table of their longest common subsequences is filled.
Where the lists begin with one element, that element is taken: of any common subsequence what follows its first element is
one of the two tails (`sublist_tail`), so that nothing is lost.  No common subsequence is longer (`length_le_best`).

`table` is the recursion for all pairs of suffixes, a row for each suffix of the first list.
-/
namespace Vai
namespace Lcs

variable {α : Type} [DecidableEq α]

def best : List α → List α → Nat
  | [], _ => 0
  | _ :: _, [] => 0
  | x :: a, y :: b => if x = y then 1 + best a b else max (best a (y :: b)) (best (x :: a) b)
termination_by a b => a.length + b.length

def table (a b : List α) : List (List Nat) := a.tails.map fun s => b.tails.map (best s)

@[simp] theorem best_nil_left (b : List α) : best [] b = 0 := by
  rw [best]

@[simp] theorem best_nil_right (a : List α) : best a [] = 0 := by
  cases a with
  | nil => rw [best]
  | cons x a => rw [best]

theorem best_cons_self (x : α) (a b : List α) : best (x :: a) (x :: b) = 1 + best a b := by
  rw [best, if_pos rfl]

theorem best_cons_of_ne {x y : α} (h : x ≠ y) (a b : List α) :
    best (x :: a) (y :: b) = max (best a (y :: b)) (best (x :: a) b) := by
  rw [best, if_neg h]

omit [DecidableEq α] in
/-- What follows the first element of a subsequence is a subsequence of the tail. -/
theorem sublist_tail {z x : α} {c a : List α} (h : (z :: c).Sublist (x :: a)) : c.Sublist a := by
  cases h with
  | cons _ h => exact (List.sublist_cons_self z c).trans h
  | cons_cons _ h => exact h

omit [DecidableEq α] in
/-- A subsequence that begins with another element is one of the tail. -/
theorem sublist_of_ne {z x : α} {c a : List α} (hne : z ≠ x) (h : (z :: c).Sublist (x :: a)) : (z :: c).Sublist a := by
  cases h with
  | cons _ h => exact h
  | cons_cons _ h => exact absurd rfl hne

/-- **No common subsequence is longer.** -/
theorem length_le_best (a b : List α) : ∀ {c : List α}, c.Sublist a → c.Sublist b → c.length ≤ best a b := by
  induction a, b using best.induct with
  | case1 b =>
    intro c ha _
    rw [List.sublist_nil.1 ha]
    exact Nat.zero_le _
  | case2 x a =>
    intro c _ hb
    rw [List.sublist_nil.1 hb]
    exact Nat.zero_le _
  | case3 x a b ih =>
    intro c ha hb
    rw [best_cons_self]
    cases c with
    | nil => exact Nat.zero_le _
    | cons z c =>
      have hle := ih (sublist_tail ha) (sublist_tail hb)
      rw [List.length_cons]
      omega
  | case4 x a y b hne iha ihb =>
    intro c ha hb
    rw [best_cons_of_ne hne]
    cases c with
    | nil => exact Nat.zero_le _
    | cons z c =>
      by_cases hz : z = x
      · -- it begins with `x`, and so not with `y`
        exact (ihb ha (sublist_of_ne (fun hy => hne (hz.symm.trans hy)) hb)).trans (le_max_right _ _)
      · exact (iha (sublist_of_ne hz ha) hb).trans (le_max_left _ _)

/-! ## The table -/

theorem table_nil (b : List α) : table [] b = [List.replicate (b.length + 1) 0] := by
  have hzero : b.tails.map (best ([] : List α)) = List.replicate (b.length + 1) 0 := by
    rw [List.eq_replicate_iff, List.length_map, List.length_tails]
    refine ⟨rfl, fun n hn => ?_⟩
    obtain ⟨s, -, rfl⟩ := List.mem_map.1 hn
    exact best_nil_left s
  unfold table
  rw [List.tails, List.map_singleton, hzero]

theorem table_cons (x : α) (a b : List α) : table (x :: a) b = b.tails.map (best (x :: a)) :: table a b := rfl

theorem headD_table (a b : List α) : (table a b).headD [] = b.tails.map (best a) := by
  cases a <;> rfl

theorem headD_row (a b : List α) : (b.tails.map (best a)).headD 0 = best a b := by
  cases b <;> rfl

theorem map_tail_table (a : List α) (y : α) (b : List α) : (table a (y :: b)).map List.tail = table a b := by
  unfold table
  rw [List.map_map]
  rfl

end Lcs
end Vai
