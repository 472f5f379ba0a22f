import Mathlib
/-!
# Proc — procedures that keep their state when they fail

A `Proc σ ε α` reads and changes a state `σ` and ends with a value or an error.  Unlike a state monad over `Except`,
the state it has reached is kept on both ends: what a failed call leaves behind is part of its meaning.

Three judgements, each with one rule per way of building a procedure (`pure`, `bind`, `forM`, `foldlM`, …):
- `Keeps I m`: `m` preserves `I`, whichever way it ends;
- `FailsOnly P m`: from every state, an error of `m` is one of `P`;
- `Ends m s Q E`: run from `s`, `m` ends with a value and a state in `Q`, or with an error and a state in `E`.

`Ends` covers partial correctness (`E` always true), total correctness (`E` always false) and everything between: the
`E` of a call says which errors are possible and when.
-/
namespace Vai

/-- A procedure over the state `σ`: a value or an error, and the state it leaves behind either way. -/
def Proc (σ ε α : Type) : Type := σ → Except ε α × σ

namespace Proc

variable {σ ε α β : Type}

def bind (m : Proc σ ε α) (f : α → Proc σ ε β) : Proc σ ε β := fun s =>
  match m s with
  | (.ok a, s') => f a s'
  | (.error e, s') => (.error e, s')

instance : Monad (Proc σ ε) where
  pure a := fun s => (.ok a, s)
  bind := Proc.bind

/-- End with the error `e`, the state as it is. -/
def fail (e : ε) : Proc σ ε α := fun s => (.error e, s)

/-- A value computed from the state alone. -/
def read (f : σ → α) : Proc σ ε α := fun s => (.ok (f s), s)

def modify (f : σ → σ) : Proc σ ε Unit := fun s => (.ok (), f s)

/-- A pure result, with its error renamed by `g`. -/
def ofExcept {ε' : Type} (g : ε' → ε) : Except ε' α → Proc σ ε α
  | .ok a => pure a
  | .error e => fail (g e)

/-- Run `m` and hand its error to the caller as a value (`if let Ok(..)`, `let _ = ..`). -/
def attempt (m : Proc σ ε α) : Proc σ ε (Except ε α) := fun s => (.ok (m s).1, (m s).2)

/-- `m` with its errors renamed (`map_err`, `?` through a `From` instance). -/
def mapErr {ε' : Type} (g : ε' → ε) (m : Proc σ ε' α) : Proc σ ε α := fun s =>
  match m s with
  | (.ok a, s') => (.ok a, s')
  | (.error e, s') => (.error (g e), s')

/-- A procedure on the first part of a state. -/
def onFst {τ : Type} (m : Proc σ ε α) : Proc (σ × τ) ε α := fun s => ((m s.1).1, (m s.1).2, s.2)

/-- A procedure on the second part. -/
def onSnd {τ : Type} (m : Proc σ ε α) : Proc (τ × σ) ε α := fun s => ((m s.2).1, s.1, (m s.2).2)

@[simp] theorem pure_apply (a : α) (s : σ) : (pure a : Proc σ ε α) s = (.ok a, s) := rfl
@[simp] theorem fail_apply (e : ε) (s : σ) : (fail e : Proc σ ε α) s = (.error e, s) := rfl
@[simp] theorem read_apply (f : σ → α) (s : σ) : (read f : Proc σ ε α) s = (.ok (f s), s) := rfl
@[simp] theorem modify_apply (f : σ → σ) (s : σ) : (modify f : Proc σ ε Unit) s = (.ok (), f s) := rfl
@[simp] theorem attempt_apply (m : Proc σ ε α) (s : σ) : attempt m s = (.ok (m s).1, (m s).2) := rfl

theorem bind_apply (m : Proc σ ε α) (f : α → Proc σ ε β) (s : σ) :
    (m >>= f) s = match m s with
      | (.ok a, s') => f a s'
      | (.error e, s') => (.error e, s') := rfl

theorem bind_of_ok {m : Proc σ ε α} {s s' : σ} {a : α} (h : m s = (.ok a, s')) (f : α → Proc σ ε β) :
    (m >>= f) s = f a s' := by
  rw [bind_apply, h]

theorem mapErr_of_ok {ε' : Type} {g : ε' → ε} {m : Proc σ ε' α} {s s' : σ} {a : α} (h : m s = (.ok a, s')) :
    mapErr g m s = (.ok a, s') := by
  unfold mapErr
  rw [h]

theorem mapErr_of_error {ε' : Type} {g : ε' → ε} {m : Proc σ ε' α} {e : ε'} {s s' : σ} (h : m s = (.error e, s')) :
    mapErr g m s = (.error (g e), s') := by
  unfold mapErr
  rw [h]

theorem bind_eq_ok {m : Proc σ ε α} {f : α → Proc σ ε β} {s s' : σ} {b : β} :
    (m >>= f) s = (.ok b, s') ↔ ∃ a s₁, m s = (.ok a, s₁) ∧ f a s₁ = (.ok b, s') := by
  rw [bind_apply]
  rcases h : m s with ⟨_ | a, s₁⟩ <;> simp

theorem bind_pure_id (m : Proc σ ε α) : (m >>= fun a => pure a) = m := by
  funext s
  rw [bind_apply]
  rcases m s with ⟨_ | _, _⟩ <;> rfl

theorem bind_bind {γ : Type} (m : Proc σ ε α) (f : α → Proc σ ε β) (g : β → Proc σ ε γ) :
    (m >>= f) >>= g = m >>= fun a => f a >>= g := by
  funext s
  simp only [bind_apply]
  rcases m s with ⟨_ | _, _⟩ <;> rfl

instance : LawfulMonad (Proc σ ε) := LawfulMonad.mk' _ bind_pure_id (fun _ _ => rfl) bind_bind

/-! ## What a procedure keeps -/

/-- `m` preserves `I`, whether it ends with a value or an error. -/
def Keeps (I : σ → Prop) (m : Proc σ ε α) : Prop := ∀ s, I s → I (m s).2

theorem keeps_pure (I : σ → Prop) (a : α) : Keeps I (pure a : Proc σ ε α) := fun _ h => h
theorem keeps_fail (I : σ → Prop) (e : ε) : Keeps I (fail e : Proc σ ε α) := fun _ h => h
theorem keeps_read (I : σ → Prop) (f : σ → α) : Keeps I (read f : Proc σ ε α) := fun _ h => h

theorem keeps_ofExcept {ε' : Type} (I : σ → Prop) (g : ε' → ε) (r : Except ε' α) :
    Keeps I (ofExcept g r : Proc σ ε α) := by
  cases r
  · exact keeps_fail I _
  · exact keeps_pure I _

theorem Keeps.attempt {I : σ → Prop} {m : Proc σ ε α} (h : Keeps I m) : Keeps I (attempt m) := h

theorem Keeps.mapErr {ε' : Type} {I : σ → Prop} {m : Proc σ ε' α} (h : Keeps I m) (g : ε' → ε) :
    Keeps I (mapErr g m) := by
  intro s hs
  have := h s hs
  unfold Proc.mapErr
  rcases hm : m s with ⟨_ | _, _⟩ <;> rw [hm] at this <;> exact this

theorem Keeps.bind {I : σ → Prop} {m : Proc σ ε α} {f : α → Proc σ ε β} (hm : Keeps I m) (hf : ∀ a, Keeps I (f a)) :
    Keeps I (m >>= f) := by
  intro s hs
  have h := hm s hs
  rw [bind_apply]
  rcases hms : m s with ⟨_ | a, s'⟩ <;> rw [hms] at h
  · exact h
  · exact hf a s' h

theorem keeps_ofExcept_bind {ε' : Type} {I : σ → Prop} {g : ε' → ε} {r : Except ε' α} {f : α → Proc σ ε β}
    (h : ∀ a, r = .ok a → Keeps I (f a)) : Keeps I (ofExcept g r >>= f) := by
  cases r with
  | error e => exact keeps_fail I _
  | ok a => exact h a rfl

theorem Keeps.onFst {τ : Type} {I : σ → Prop} {m : Proc σ ε α} (h : Keeps I m) :
    Keeps (fun s : σ × τ => I s.1) (onFst m) := fun s hs => h s.1 hs

theorem keeps_onSnd {τ : Type} (I : τ → Prop) (m : Proc σ ε α) : Keeps (fun s : τ × σ => I s.1) (onSnd m) := fun _ hs => hs

theorem keeps_modify {I : σ → Prop} {f : σ → σ} (h : ∀ s, I s → I (f s)) : Keeps I (modify f : Proc σ ε Unit) := h

theorem keeps_ite {I : σ → Prop} {c : Prop} [Decidable c] {m m' : Proc σ ε α} (h : Keeps I m) (h' : Keeps I m') :
    Keeps I (if c then m else m') := by
  split
  · exact h
  · exact h'

theorem keeps_forM_mem {I : σ → Prop} {f : α → Proc σ ε PUnit} : ∀ {l : List α}, (∀ a ∈ l, Keeps I (f a)) → Keeps I (l.forM f)
  | [], _ => keeps_pure I _
  | a :: _, h => (h a List.mem_cons_self).bind fun _ => keeps_forM_mem fun x hx => h x (List.mem_cons_of_mem a hx)

theorem keeps_forM {I : σ → Prop} {f : α → Proc σ ε PUnit} (h : ∀ a, Keeps I (f a)) (l : List α) : Keeps I (l.forM f) :=
  keeps_forM_mem fun a _ => h a

theorem keeps_foldlM_mem {I : σ → Prop} {f : β → α → Proc σ ε β} :
    ∀ {l : List α}, (∀ a ∈ l, ∀ b, Keeps I (f b a)) → ∀ (b : β), Keeps I (l.foldlM f b)
  | [], _, b => keeps_pure I b
  | a :: l, h, b => by
    rw [List.foldlM_cons]
    exact (h a List.mem_cons_self b).bind fun b' => keeps_foldlM_mem (fun x hx => h x (List.mem_cons_of_mem a hx)) b'

theorem keeps_foldlM {I : σ → Prop} {f : β → α → Proc σ ε β} (h : ∀ b a, Keeps I (f b a)) (l : List α) (b : β) :
    Keeps I (l.foldlM f b) := keeps_foldlM_mem (fun a _ b => h b a) b

/-! ## Which errors a procedure has -/

/-- From every state, an error of `m` is one of `P`. -/
def FailsOnly (P : ε → Prop) (m : Proc σ ε α) : Prop := ∀ s e s', m s = (.error e, s') → P e

theorem failsOnly_pure (P : ε → Prop) (a : α) : FailsOnly P (pure a : Proc σ ε α) := fun _ _ _ h => by cases h

theorem failsOnly_fail {P : ε → Prop} {e : ε} (h : P e) : FailsOnly P (fail e : Proc σ ε α) := fun _ _ _ he => by
  cases he
  exact h

theorem failsOnly_attempt (P : ε → Prop) (m : Proc σ ε α) : FailsOnly P (attempt m) := fun _ _ _ h => by cases h

theorem failsOnly_mapErr {ε' : Type} {P : ε → Prop} {g : ε' → ε} (h : ∀ e, P (g e)) (m : Proc σ ε' α) :
    FailsOnly P (mapErr g m) := by
  intro s e s' he
  unfold mapErr at he
  rcases hm : m s with ⟨e' | a, s₁⟩ <;> rw [hm] at he <;> cases he
  exact h e'

theorem FailsOnly.bind {P : ε → Prop} {m : Proc σ ε α} {f : α → Proc σ ε β} (hm : FailsOnly P m)
    (hf : ∀ a, FailsOnly P (f a)) : FailsOnly P (m >>= f) := by
  intro s e s' h
  rw [bind_apply] at h
  rcases hms : m s with ⟨e' | a, s₁⟩ <;> rw [hms] at h
  · cases h
    exact hm s e _ hms
  · exact hf a s₁ e s' h

theorem FailsOnly.mono {P P' : ε → Prop} {m : Proc σ ε α} (h : FailsOnly P m) (hP : ∀ e, P e → P' e) : FailsOnly P' m :=
  fun s e s' he => hP e (h s e s' he)

theorem failsOnly_forM {P : ε → Prop} {f : α → Proc σ ε PUnit} (h : ∀ a, FailsOnly P (f a)) :
    ∀ (l : List α), FailsOnly P (l.forM f)
  | [] => failsOnly_pure P _
  | a :: l => (h a).bind (fun _ => failsOnly_forM h l)

/-! ## Which values a procedure has -/

/-- From every state, a value of `m` is one of `P`. -/
def Yields (P : α → Prop) (m : Proc σ ε α) : Prop := ∀ s a s', m s = (.ok a, s') → P a

theorem yields_pure {P : α → Prop} {a : α} (h : P a) : Yields P (pure a : Proc σ ε α) := fun _ _ _ ha => by
  cases ha
  exact h

theorem yields_fail (P : α → Prop) (e : ε) : Yields P (fail e : Proc σ ε α) := fun _ _ _ h => by cases h

theorem Yields.bind {Q : α → Prop} {P : β → Prop} {m : Proc σ ε α} {f : α → Proc σ ε β} (hm : Yields Q m)
    (hf : ∀ a, Q a → Yields P (f a)) : Yields P (m >>= f) := by
  intro s b s' h
  obtain ⟨a, s₁, ha, hb⟩ := bind_eq_ok.1 h
  exact hf a (hm s a s₁ ha) s₁ b s' hb

theorem yields_bind {P : β → Prop} {m : Proc σ ε α} {f : α → Proc σ ε β} (hf : ∀ a, Yields P (f a)) : Yields P (m >>= f) :=
  Yields.bind (Q := fun _ => True) (fun _ _ _ _ => trivial) fun a _ => hf a

/-! ## How a procedure ends -/

/-- Run from `s`, `m` ends with a value and a state in `Q`, or with an error and a state in `E`. -/
def Ends (m : Proc σ ε α) (s : σ) (Q : α → σ → Prop) (E : ε → σ → Prop) : Prop :=
  match m s with
  | (.ok a, s') => Q a s'
  | (.error e, s') => E e s'

variable {Q Q' : α → σ → Prop} {E E' : ε → σ → Prop} {s : σ}

theorem ends_iff {m : Proc σ ε α} : Ends m s Q E ↔
    (∀ a s', m s = (.ok a, s') → Q a s') ∧ (∀ e s', m s = (.error e, s') → E e s') := by
  unfold Ends
  rcases m s with ⟨_ | _, _⟩ <;> simp

theorem Ends.ok {m : Proc σ ε α} (h : Ends m s Q E) {a : α} {s' : σ} (hm : m s = (.ok a, s')) : Q a s' :=
  (ends_iff.1 h).1 a s' hm

theorem Ends.error {m : Proc σ ε α} (h : Ends m s Q E) {e : ε} {s' : σ} (hm : m s = (.error e, s')) : E e s' :=
  (ends_iff.1 h).2 e s' hm

/-- A procedure that cannot end with an error does end with a value. -/
theorem Ends.exists_ok {m : Proc σ ε α} (h : Ends m s Q E) (hE : ∀ e s', ¬ E e s') :
    ∃ a s', m s = (.ok a, s') ∧ Q a s' := by
  unfold Ends at h
  rcases hm : m s with ⟨e | a, s'⟩ <;> rw [hm] at h
  · exact absurd h (hE e s')
  · exact ⟨a, s', rfl, h⟩

theorem ends_of_ok {m : Proc σ ε α} {a : α} {s' : σ} (hm : m s = (.ok a, s')) (h : Q a s') : Ends m s Q E := by
  unfold Ends
  rw [hm]
  exact h

theorem ends_of_error {m : Proc σ ε α} {e : ε} {s' : σ} (hm : m s = (.error e, s')) (h : E e s') : Ends m s Q E := by
  unfold Ends
  rw [hm]
  exact h

theorem Ends.mono {m : Proc σ ε α} (h : Ends m s Q E) (hQ : ∀ a s', Q a s' → Q' a s') (hE : ∀ e s', E e s' → E' e s') :
    Ends m s Q' E' :=
  ends_iff.2 ⟨fun a s' hm => hQ a s' (h.ok hm), fun e s' hm => hE e s' (h.error hm)⟩

theorem Ends.and {m : Proc σ ε α} (h : Ends m s Q E) (h' : Ends m s Q' E') :
    Ends m s (fun a s' => Q a s' ∧ Q' a s') (fun e s' => E e s' ∧ E' e s') :=
  ends_iff.2 ⟨fun _ _ hm => ⟨h.ok hm, h'.ok hm⟩, fun _ _ hm => ⟨h.error hm, h'.error hm⟩⟩

theorem Keeps.ends {I : σ → Prop} {m : Proc σ ε α} (h : Keeps I m) (hs : I s) :
    Ends m s (fun _ s' => I s') (fun _ s' => I s') := by
  have := h s hs
  refine ends_iff.2 ⟨fun a s' hm => ?_, fun e s' hm => ?_⟩ <;> rw [hm] at this <;> exact this

theorem keeps_iff_ends {I : σ → Prop} {m : Proc σ ε α} :
    Keeps I m ↔ ∀ s, I s → Ends m s (fun _ s' => I s') (fun _ s' => I s') := by
  constructor
  · exact fun h s hs => h.ends hs
  · intro h s hs
    have hE := h s hs
    unfold Ends at hE
    rcases hm : m s with ⟨_ | _, _⟩ <;> rw [hm] at hE <;> exact hE

/-- What holds of the state on either end holds of the state. -/
theorem Ends.state {I : σ → Prop} {m : Proc σ ε α} (h : Ends m s (fun _ => I) (fun _ => I)) : I (m s).2 := by
  unfold Ends at h
  rcases hm : m s with ⟨_ | _, _⟩ <;> rw [hm] at h <;> exact h

theorem ends_somehow (m : Proc σ ε α) (s : σ) : Ends m s (fun _ _ => True) (fun _ _ => True) :=
  ends_iff.2 ⟨fun _ _ _ => trivial, fun _ _ _ => trivial⟩

theorem ends_pure {a : α} (h : Q a s) : Ends (pure a : Proc σ ε α) s Q E := h
theorem ends_fail {e : ε} (h : E e s) : Ends (fail e : Proc σ ε α) s Q E := h
theorem ends_read {f : σ → α} (h : Q (f s) s) : Ends (read f : Proc σ ε α) s Q E := h

theorem ends_modify {f : σ → σ} {Q : Unit → σ → Prop} (h : Q () (f s)) : Ends (modify f : Proc σ ε Unit) s Q E := h

theorem ends_ofExcept {ε' : Type} {g : ε' → ε} {r : Except ε' α} (hQ : ∀ a, r = .ok a → Q a s)
    (hE : ∀ e, r = .error e → E (g e) s) : Ends (ofExcept g r : Proc σ ε α) s Q E := by
  cases r with
  | ok a => exact hQ a rfl
  | error e => exact hE e rfl

theorem ends_attempt {m : Proc σ ε α} {Q : Except ε α → σ → Prop}
    (h : Ends m s (fun a s' => Q (.ok a) s') (fun e s' => Q (.error e) s')) : Ends (attempt m) s Q E := by
  unfold Ends at h ⊢
  rw [attempt_apply]
  rcases hm : m s with ⟨_ | _, _⟩ <;> rw [hm] at h <;> exact h

theorem ends_mapErr {ε' : Type} {g : ε' → ε} {m : Proc σ ε' α} (h : Ends m s Q (fun e s' => E (g e) s')) :
    Ends (mapErr g m) s Q E := by
  unfold Ends mapErr at *
  rcases hm : m s with ⟨_ | _, _⟩ <;> rw [hm] at h <;> exact h

/-- What a failure leaves behind is not changed by the name that it is given. -/
theorem ends_renamed {ε' : Type} {g : ε' → ε} {m : Proc σ ε' α} {I : σ → Prop} (h : Ends m s Q (fun _ => I)) :
    Ends (mapErr g m) s Q (fun _ => I) := ends_mapErr h

theorem ends_onFst {τ : Type} {m : Proc σ ε α} {s : σ × τ} {Q : α → σ × τ → Prop} {E : ε → σ × τ → Prop}
    (h : Ends m s.1 (fun a x => Q a (x, s.2)) fun e x => E e (x, s.2)) : Ends (onFst m) s Q E := by
  unfold Ends onFst at *
  rcases hm : m s.1 with ⟨_ | _, _⟩ <;> rw [hm] at h <;> exact h

theorem ends_onSnd {τ : Type} {m : Proc σ ε α} {s : τ × σ} {Q : α → τ × σ → Prop} {E : ε → τ × σ → Prop}
    (h : Ends m s.2 (fun a x => Q a (s.1, x)) fun e x => E e (s.1, x)) : Ends (onSnd m) s Q E := by
  unfold Ends onSnd at *
  rcases hm : m s.2 with ⟨_ | _, _⟩ <;> rw [hm] at h <;> exact h

theorem ends_bind {m : Proc σ ε α} {f : α → Proc σ ε β} {Q : β → σ → Prop}
    (h : Ends m s (fun a s' => Ends (f a) s' Q E) E) : Ends (m >>= f) s Q E := by
  unfold Ends at h ⊢
  rw [bind_apply]
  rcases hm : m s with ⟨_ | _, _⟩ <;> rw [hm] at h <;> exact h

theorem ends_bind_of_ok {m : Proc σ ε α} {f : α → Proc σ ε β} {Q : β → σ → Prop} {a : α} {s' : σ}
    (h : m s = (.ok a, s')) (hf : Ends (f a) s' Q E) : Ends (m >>= f) s Q E := by
  apply ends_bind
  unfold Ends at hf ⊢
  rw [h]
  exact hf

/-- A step, and then the rest from whatever the step has established. -/
theorem Ends.bind {m : Proc σ ε α} {f : α → Proc σ ε β} {R : α → σ → Prop} {F : ε → σ → Prop} {Q : β → σ → Prop}
    (h : Ends m s R F) (hE : ∀ e s', F e s' → E e s') (hf : ∀ a s', R a s' → Ends (f a) s' Q E) :
    Ends (m >>= f) s Q E :=
  ends_bind (h.mono hf hE)

/-- The element that a loop over `l` is at. -/
theorem mem_of_split {l pre post : List α} {a : α} (h : [] ++ l = pre ++ a :: post) : a ∈ l := by
  rw [List.nil_append] at h
  rw [h]
  exact List.mem_append_right _ List.mem_cons_self

/-- A loop carries an invariant that speaks of the elements already visited. -/
theorem ends_foldlM {f : β → α → Proc σ ε β} (J : List α → β → σ → Prop) :
    ∀ (post pre : List α) (b : β) (s : σ), J pre b s →
      (∀ pre' a post' b s, pre ++ post = pre' ++ a :: post' → J pre' b s →
        Ends (f b a) s (fun b' s' => J (pre' ++ [a]) b' s') E) →
      Ends (post.foldlM f b) s (fun b' s' => J (pre ++ post) b' s') E
  | [], pre, b, s, hJ, _ => ends_pure (by simpa using hJ)
  | a :: post, pre, b, s, hJ, hstep => by
    rw [List.foldlM_cons]
    refine (hstep pre a post b s rfl hJ).bind (fun _ _ h => h) fun b' s' h => ?_
    have := ends_foldlM J post (pre ++ [a]) b' s' h
      (fun pre' a' post' b s hl => hstep pre' a' post' b s (by simpa using hl))
    simpa using this

theorem ends_forM {f : α → Proc σ ε PUnit} (J : List α → σ → Prop) :
    ∀ (post pre : List α) (s : σ), J pre s →
      (∀ pre' a post' s, pre ++ post = pre' ++ a :: post' → J pre' s →
        Ends (f a) s (fun _ s' => J (pre' ++ [a]) s') E) →
      Ends (post.forM f) s (fun _ s' => J (pre ++ post) s') E
  | [], pre, s, hJ, _ => ends_pure (by simpa using hJ)
  | a :: post, pre, s, hJ, hstep => by
    refine Ends.bind (hstep pre a post s rfl hJ) (fun _ _ h => h) fun _ s' h => ?_
    have := ends_forM J post (pre ++ [a]) s' h
      (fun pre' a' post' s hl => hstep pre' a' post' s (by simpa using hl))
    simpa using this

/-! ## One call for each element -/

theorem mapM_of_ok {f : α → Proc σ ε β} {g : α → β} {s : σ} : ∀ {l : List α}, (∀ a ∈ l, f a s = (.ok (g a), s)) →
    l.mapM f s = (.ok (l.map g), s)
  | [], _ => rfl
  | a :: l, h => by
    have hl := mapM_of_ok fun b hb => h b (List.mem_cons_of_mem a hb)
    rw [List.mapM_cons, bind_of_ok (h a List.mem_cons_self), bind_of_ok hl]
    rfl

theorem mem_of_mapM {f : α → Proc σ ε β} {s : σ} (hsame : ∀ a, (f a s).2 = s) :
    ∀ {l : List α} {bs : List β} {s' : σ}, l.mapM f s = (.ok bs, s') → s' = s ∧ ∀ b, b ∈ bs ↔ ∃ a ∈ l, f a s = (.ok b, s)
  | [], _, _, h => by
    cases h
    exact ⟨rfl, fun b => by simp⟩
  | a :: l, bs, s', h => by
    rw [List.mapM_cons] at h
    obtain ⟨b, s₁, ha, h⟩ := bind_eq_ok.1 h
    obtain ⟨bs', s₂, hl, h⟩ := bind_eq_ok.1 h
    cases h
    have hs₁ : s₁ = s := by
      rw [← hsame a, ha]
    rw [hs₁] at ha hl
    obtain ⟨hs₂, hmem⟩ := mem_of_mapM hsame hl
    refine ⟨hs₂, fun b' => ?_⟩
    have hfirst : f a s = (.ok b', s) ↔ b' = b := by
      rw [ha]
      constructor
      · intro h
        cases h
        rfl
      · intro h
        rw [h]
    rw [List.mem_cons, hmem b', List.exists_mem_cons_iff, hfirst]

theorem fst_bind_pure (m : Proc σ ε α) (g : α → β) (s : σ) : ((m >>= fun a => pure (g a)) s).1 = (m s).1.map g := by
  rw [bind_apply]
  rcases m s with ⟨_ | _, _⟩ <;> rfl

theorem mapM_same {f f' : α → Proc σ ε β} {s s' : σ} (hf : ∀ a, (f a s).2 = s) (hf' : ∀ a, (f' a s').2 = s') :
    ∀ {l : List α}, (∀ a ∈ l, (f a s).1 = (f' a s').1) → (l.mapM f s).1 = (l.mapM f' s').1
  | [], _ => rfl
  | a :: l, h => by
    have hl := mapM_same hf hf' fun b hb => h b (List.mem_cons_of_mem a hb)
    have ha := h a List.mem_cons_self
    have hs := hf a
    have hs' := hf' a
    rw [List.mapM_cons, List.mapM_cons, bind_apply, bind_apply]
    rcases hfa : f a s with ⟨e | b, t⟩ <;> rcases hfa' : f' a s' with ⟨e' | b', t'⟩ <;> rw [hfa, hfa'] at ha <;> cases ha
    · rfl
    · rw [hfa] at hs
      rw [hfa'] at hs'
      cases hs
      cases hs'
      dsimp only
      rw [fst_bind_pure, fst_bind_pure, hl]

/-! ## Success with and without faults -/

/-- Where `m` succeeds, `m'` does the same. -/
def Within (m m' : Proc σ ε α) : Prop := ∀ s a s', m s = (.ok a, s') → m' s = (.ok a, s')

theorem within_refl (m : Proc σ ε α) : Within m m := fun _ _ _ h => h

theorem within_fail (e : ε) (m : Proc σ ε α) : Within (fail e) m := fun _ _ _ h => by cases h

theorem Within.bind {m m' : Proc σ ε α} {f f' : α → Proc σ ε β} (hm : Within m m') (hf : ∀ a, Within (f a) (f' a)) :
    Within (m >>= f) (m' >>= f') := by
  intro s b s' h
  obtain ⟨a, s₁, ha, hb⟩ := bind_eq_ok.1 h
  exact bind_eq_ok.2 ⟨a, s₁, hm s a s₁ ha, hf a s₁ b s' hb⟩

theorem within_ite {c : Prop} [Decidable c] {m n m' n' : Proc σ ε α} (h : Within m m') (h' : Within n n') :
    Within (if c then m else n) (if c then m' else n') := by
  split
  · exact h
  · exact h'

end Proc
end Vai
