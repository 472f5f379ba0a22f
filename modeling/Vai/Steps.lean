import Mathlib.Data.List.Basic
/-!
# Steps — runs of a partial step function

A system is a function `step : α → σ → Option σ` that makes an action in a state, where it can be made.  A run is any
sequence of actions; it is kept with the states that they were made in, so that a condition on the actions is one on the
run (`Ran.keeps`).  `trace` computes a run.
-/
namespace Vai
namespace Steps

variable {α σ : Type*}

/-- One entry of a run: the action, and the state it was made in. -/
structure Turn (α σ : Type*) where
  action : α
  before : σ

/-- The runs from `s₀`. -/
inductive Ran (step : α → σ → Option σ) (s₀ : σ) : List (Turn α σ) → σ → Prop where
  | start : Ran step s₀ [] s₀
  | next {l : List (Turn α σ)} {s s' : σ} (h : Ran step s₀ l s) (a : α) (hs : step a s = some s') :
      Ran step s₀ (l ++ [⟨a, s⟩]) s'

variable {step : α → σ → Option σ} {s₀ s : σ} {l : List (Turn α σ)}

/-- **What every action keeps, where it meets its condition, a run keeps whose actions all meet theirs.** -/
theorem Ran.keeps {Inv : σ → Prop} {Meets : α → σ → Prop}
    (hstep : ∀ a s s', Inv s → Meets a s → step a s = some s' → Inv s') (h₀ : Inv s₀) (h : Ran step s₀ l s)
    (hmeets : ∀ t ∈ l, Meets t.action t.before) : Inv s := by
  induction h with
  | start => exact h₀
  | next _ a hs ih =>
    have hbefore := ih fun t ht => hmeets t (List.mem_append_left _ ht)
    exact hstep a _ _ hbefore (hmeets _ (List.mem_append_right _ (List.mem_singleton.2 rfl))) hs

/-- What every action keeps holds where each of them is made. -/
theorem Ran.before {Inv : σ → Prop} (hstep : ∀ a s s', Inv s → step a s = some s' → Inv s') (h₀ : Inv s₀)
    (h : Ran step s₀ l s) : ∀ t ∈ l, Inv t.before := by
  induction h with
  | start => exact fun t ht => absurd ht List.not_mem_nil
  | next hran a hs ih =>
    intro t ht
    rcases List.mem_append.1 ht with ht | ht
    · exact ih t ht
    · rw [List.mem_singleton.1 ht]
      exact @Ran.keeps _ _ _ _ _ _ Inv (fun _ _ => True) (fun a r r' hr _ hs => hstep a r r' hr hs) h₀ hran fun _ _ => trivial

theorem Ran.made (h : Ran step s₀ l s) : ∀ t ∈ l, ∃ s', step t.action t.before = some s' := by
  induction h with
  | start => exact fun t ht => absurd ht List.not_mem_nil
  | next _ a hs ih =>
    intro t ht
    rcases List.mem_append.1 ht with ht | ht
    · exact ih t ht
    · rw [List.mem_singleton.1 ht]
      exact ⟨_, hs⟩

/-- What comes before an action is a run that leads to it. -/
theorem Ran.earlier {l₁ l₂ : List (Turn α σ)} {t : Turn α σ} (h : Ran step s₀ (l₁ ++ t :: l₂) s) :
    Ran step s₀ l₁ t.before := by
  generalize hl : l₁ ++ t :: l₂ = l at h
  induction h generalizing l₂ with
  | start => simp at hl
  | next h a hs ih =>
    rcases List.eq_nil_or_concat l₂ with rfl | ⟨l₂, x, rfl⟩
    · obtain ⟨rfl, ht⟩ := List.append_inj' hl rfl
      cases ht
      exact h
    · rw [List.concat_eq_append, ← List.cons_append, ← List.append_assoc] at hl
      exact ih (List.append_inj' hl rfl).1

/-- A run leads to one state. -/
theorem Ran.unique {s' : σ} (h : Ran step s₀ l s) (h' : Ran step s₀ l s') : s = s' := by
  induction h generalizing s' with
  | start =>
    generalize hl : ([] : List (Turn α σ)) = l at h'
    cases h' with
    | start => rfl
    | next => simp at hl
  | next h a hs ih =>
    generalize hl : _ ++ [_] = l at h'
    cases h' with
    | start => simp at hl
    | next h' b hs' =>
      obtain ⟨rfl, ht⟩ := List.append_inj' hl rfl
      cases ht
      exact Option.some.inj (hs.symm.trans hs')

/-- The run of these actions. -/
def trace (step : α → σ → Option σ) : List α → σ → Option (List (Turn α σ) × σ)
  | [], s => some ([], s)
  | a :: actions, s => (step a s).bind fun s' => (trace step actions s').map fun r => (⟨a, s⟩ :: r.1, r.2)

theorem Ran.append_trace (h : Ran step s₀ l s) {actions : List α} {r : List (Turn α σ) × σ}
    (hr : trace step actions s = some r) : Ran step s₀ (l ++ r.1) r.2 := by
  induction actions generalizing l s r with
  | nil =>
    obtain rfl := Option.some.inj hr
    rw [List.append_nil]
    exact h
  | cons a actions ih =>
    obtain ⟨s', hs, hrest⟩ := Option.bind_eq_some_iff.1 hr
    obtain ⟨r', hr', rfl⟩ := Option.map_eq_some_iff.1 hrest
    have := ih (h.next a hs) hr'
    rwa [List.append_assoc] at this

theorem ran_of_trace {actions : List α} {r : List (Turn α σ) × σ} (hr : trace step actions s₀ = some r) :
    Ran step s₀ r.1 r.2 :=
  Ran.start.append_trace hr

end Steps
end Vai
