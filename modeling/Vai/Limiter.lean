import Vai.Proc
import Vai.FMap
/-!
# Limiter — counters that are raised before they are compared

A limit on how often a key passes in one bucket of time, kept in a table.  The counter of the key in the bucket that the
clock shows is raised and read back; where it is over the maximum it is lowered again, and the key is refused.  The clock
is read for the raise, and for the lowering either once more or not at all.

`check_exact_iff`: the counters count what has passed if and only if the check is `Clean`.
-/
namespace Vai

open Proc

/-- Where the states `σ` keep the counters of the keys `κ`, and the clock that they read. -/
structure Limiter (σ κ : Type) where
  counters : σ → FMap (κ × Nat) Nat
  setCounters : FMap (κ × Nat) Nat → σ → σ
  /-- The bucket that the clock shows. -/
  bucket : σ → Nat
  /-- What a reading of the clock leaves. -/
  tick : σ → σ
  counters_set : ∀ m s, counters (setCounters m s) = m
  bucket_set : ∀ m s, bucket (setCounters m s) = bucket s
  counters_tick : ∀ s, counters (tick s) = counters s

/-- The steps on the table. -/
inductive LimitCall where
  | raise | count | lower
deriving DecidableEq, Repr

namespace Limiter

variable {σ ε κ : Type} [DecidableEq κ] (L : Limiter σ κ)

/-- The counter of a key in a bucket; one that is missing is zero. -/
def count (x : κ × Nat) (s : σ) : Nat := ((L.counters s).get x).getD 0

/-- The bucket of a reading of the clock. -/
def readBucket : Proc σ ε Nat := fun s => (.ok (L.bucket s), L.tick s)

/-- `INSERT … ON CONFLICT DO UPDATE SET count = count + 1`. -/
def raised (x : κ × Nat) (s : σ) : σ := L.setCounters ((L.counters s).insert x (L.count x s + 1)) s

/-- `UPDATE … SET count = count - 1`. -/
def lowered (x : κ × Nat) (s : σ) : σ := L.setCounters ((L.counters s).put x (((L.counters s).get x).map (· - 1))) s

section Procedures

variable (fails : LimitCall → Bool) (db : ε)

def step (c : LimitCall) : Proc σ ε Unit := if fails c then fail db else pure ()

/-- Raise the counter and read it back: the bucket, and the count. -/
def increment (k : κ) : Proc σ ε (Nat × Nat) := do
  let b ← L.readBucket
  step fails db .raise
  modify (L.raised (k, b))
  step fails db .count
  let n ← Proc.read (L.count (k, b))
  pure (b, n)

/-- The bucket to lower, with `again` read once more. -/
def bucketFor (again : Bool) (b : Nat) : Proc σ ε Nat := if again then L.readBucket else pure b

/-- Lower the counter again; a step that fails is passed over. -/
def rollback (again : Bool) (k : κ) (b : Nat) : Proc σ ε Unit := do
  let b' ← L.bucketFor again b
  if fails .lower then pure () else modify (L.lowered (k, b'))

def check (again : Bool) (k : κ) (max : Nat) (excess : Nat → ε) : Proc σ ε Unit := do
  let r ← L.increment fails db k
  if max < r.2 then
    L.rollback fails again k r.1
    fail (excess r.2)
  else pure ()

end Procedures

/-! ## What the steps do to the counters -/

variable {L} {s : σ} {k : κ} {x y : κ × Nat}

theorem count_tick : L.count x (L.tick s) = L.count x s := by
  unfold count
  rw [L.counters_tick]

theorem count_raised : L.count y (L.raised x s) = L.count y s + if y = x then 1 else 0 := by
  unfold raised count
  rw [L.counters_set, FMap.get_insert]
  by_cases h : y = x
  · simp [h]
  · simp [h]

theorem count_lowered : L.count y (L.lowered x s) = L.count y s - if y = x then 1 else 0 := by
  unfold lowered count
  rw [L.counters_set, FMap.get_put]
  by_cases h : y = x
  · subst h
    cases (L.counters s).get y <;> simp
  · simp [h]

variable {fails : LimitCall → Bool} {db : ε} {again : Bool} {max : Nat} {excess : Nat → ε}

/-- What a raise leaves, with the reading before it. -/
abbrev counted (L : Limiter σ κ) (k : κ) (s : σ) : σ := L.raised (k, L.bucket s) (L.tick s)

theorem count_counted : L.count y (L.counted k s) = L.count y s + if y = (k, L.bucket s) then 1 else 0 := by
  rw [count_raised, count_tick]

theorem increment_apply : L.increment fails db k s =
    if fails .raise = true then (.error db, L.tick s)
    else if fails .count = true then (.error db, L.counted k s)
    else (.ok (L.bucket s, L.count (k, L.bucket s) s + 1), L.counted k s) := by
  have hcount : L.count (k, L.bucket s) (L.counted k s) = L.count (k, L.bucket s) s + 1 := by
    rw [count_counted, if_pos rfl]
  have hread : L.readBucket s = ((.ok (L.bucket s), L.tick s) : Except ε Nat × σ) := rfl
  unfold increment
  rw [bind_of_ok hread]
  unfold step
  cases fails .raise with
  | true => rfl
  | false =>
    cases fails .count with
    | true => rfl
    | false =>
      rw [if_neg Bool.false_ne_true, if_neg Bool.false_ne_true, if_neg Bool.false_ne_true, ← hcount]
      rfl

/-- What a check leaves that refuses `k`, from the bucket `b` of the raise. -/
def undone (L : Limiter σ κ) (fails : LimitCall → Bool) (again : Bool) (k : κ) (b : Nat) (s : σ) : σ :=
  let s' := if again then L.tick s else s
  if fails .lower then s' else L.lowered (k, if again then L.bucket s else b) s'

theorem rollback_apply {b : Nat} : (L.rollback fails again k b : Proc σ ε Unit) s = (.ok (), L.undone fails again k b s) := by
  unfold rollback bucketFor undone
  cases again with
  | true =>
    have hread : L.readBucket s = ((.ok (L.bucket s), L.tick s) : Except ε Nat × σ) := rfl
    rw [if_pos rfl, bind_of_ok hread]
    cases fails .lower <;> rfl
  | false => cases fails .lower <;> rfl

theorem count_undone {b : Nat} : L.count y (L.undone fails again k b s) = L.count y s -
    if fails .lower = false ∧ y = (k, if again then L.bucket s else b) then 1 else 0 := by
  have hread : L.count y (if again then L.tick s else s) = L.count y s := by
    cases again
    · rfl
    · exact count_tick
  unfold undone
  dsimp only
  cases fails .lower
  · rw [if_neg Bool.false_ne_true, count_lowered, hread]
    simp only [true_and]
  · rw [if_pos rfl, hread]
    simp

/-- What the counters and the clock have no part in, a check keeps. -/
theorem keeps_check {I : σ → Prop} (hset : ∀ m s, I s → I (L.setCounters m s)) (htick : ∀ s, I s → I (L.tick s)) :
    Keeps I (L.check fails db again k max excess) := by
  have hstep : ∀ c, Keeps I (step fails db c) := fun c => by
    unfold step
    exact keeps_ite (keeps_fail I _) (keeps_pure I _)
  have hincrement : Keeps I (L.increment fails db k) := by
    unfold increment
    refine Keeps.bind (fun s hs => htick s hs) fun b => (hstep _).bind fun _ => ?_
    refine (keeps_modify fun s hs => hset _ s hs).bind fun _ => (hstep _).bind fun _ => ?_
    exact (keeps_read I _).bind fun _ => keeps_pure I _
  have hrollback : ∀ b, Keeps I (L.rollback fails again k b : Proc σ ε Unit) := fun b => by
    have hbucket : Keeps I (L.bucketFor again b : Proc σ ε Nat) := by
      unfold bucketFor
      exact keeps_ite (fun s hs => htick s hs) (keeps_pure I _)
    unfold rollback
    exact hbucket.bind fun b' => keeps_ite (keeps_pure I _) (keeps_modify fun s hs => hset _ s hs)
  unfold check
  exact hincrement.bind fun r => keeps_ite ((hrollback _).bind fun _ => keeps_fail I _) (keeps_pure I _)

/-! ## The check -/

/-- The steps work, and the counter is below the maximum. -/
def Passes (L : Limiter σ κ) (fails : LimitCall → Bool) (k : κ) (max : Nat) (s : σ) : Prop :=
  fails .raise = false ∧ fails .count = false ∧ L.count (k, L.bucket s) s < max

/-- A counter that has been raised is also read; and a refusal lowers it, in a bucket that is still the same. -/
structure Clean (L : Limiter σ κ) (fails : LimitCall → Bool) (again : Bool) (k : κ) (max : Nat) (s : σ) : Prop where
  read : fails .raise = false → fails .count = false
  back : fails .raise = false → max ≤ L.count (k, L.bucket s) s →
    fails .lower = false ∧ (again = true → L.bucket (L.tick s) = L.bucket s)

theorem check_of_passes (h : Passes L fails k max s) :
    L.check fails db again k max excess s = (.ok (), L.counted k s) := by
  have hincrement : L.increment fails db k s = (.ok (L.bucket s, L.count (k, L.bucket s) s + 1), L.counted k s) := by
    rw [increment_apply, if_neg (by simp [h.1]), if_neg (by simp [h.2.1])]
  have hmax : ¬ max < L.count (k, L.bucket s) s + 1 := by
    have := h.2.2
    omega
  unfold check
  rw [bind_of_ok hincrement, if_neg hmax]
  rfl

theorem check_of_excess (hraise : fails .raise = false) (hcount : fails .count = false)
    (hmax : max ≤ L.count (k, L.bucket s) s) : L.check fails db again k max excess s =
      (.error (excess (L.count (k, L.bucket s) s + 1)), L.undone fails again k (L.bucket s) (L.counted k s)) := by
  have hincrement : L.increment fails db k s = (.ok (L.bucket s, L.count (k, L.bucket s) s + 1), L.counted k s) := by
    rw [increment_apply, if_neg (by simp [hraise]), if_neg (by simp [hcount])]
  unfold check
  rw [bind_of_ok hincrement, if_pos (Nat.lt_succ_of_le hmax), bind_of_ok rollback_apply]
  rfl

theorem check_of_raise (h : fails .raise = true) : L.check fails db again k max excess s = (.error db, L.tick s) := by
  have hincrement : L.increment fails db k s = (.error db, L.tick s) := by
    rw [increment_apply, if_pos h]
  unfold check
  rw [bind_apply, hincrement]

theorem check_of_count (hraise : fails .raise = false) (h : fails .count = true) :
    L.check fails db again k max excess s = (.error db, L.counted k s) := by
  have hincrement : L.increment fails db k s = (.error db, L.counted k s) := by
    rw [increment_apply, if_neg (by simp [hraise]), if_pos h]
  unfold check
  rw [bind_apply, hincrement]

/-- The counters after a check count one more where it passes, and are as they were where it does not. -/
def Exact (L : Limiter σ κ) (fails : LimitCall → Bool) (k : κ) (max : Nat) (s s' : σ) : Prop :=
  ∀ y, (Passes L fails k max s → L.count y s' = L.count y s + if y = (k, L.bucket s) then 1 else 0) ∧
    (¬ Passes L fails k max s → L.count y s' = L.count y s)

/-- **The counters count what passes, exactly where the check is clean.** -/
theorem check_exact_iff :
    Exact L fails k max s (L.check fails db again k max excess s).2 ↔ Clean L fails again k max s := by
  cases hraise : fails .raise with
  | true =>
    rw [check_of_raise hraise]
    constructor
    · exact fun _ => ⟨fun h => by simp [hraise] at h, fun h => by simp [hraise] at h⟩
    · exact fun _ y => ⟨fun h => by simp [h.1] at hraise, fun _ => count_tick⟩
  | false =>
    cases hcount : fails .count with
    | true =>
      rw [check_of_count hraise hcount]
      constructor
      · intro h
        have := (h (k, L.bucket s)).2 fun hp => by simp [hp.2.1] at hcount
        rw [count_counted, if_pos rfl] at this
        omega
      · intro h
        have := h.read hraise
        simp [hcount] at this
    | false =>
      by_cases hmax : max ≤ L.count (k, L.bucket s) s
      · have hpass : ¬ Passes L fails k max s := fun h => absurd h.2.2 (not_lt.2 hmax)
        have hbucket : L.bucket (L.counted k s) = L.bucket (L.tick s) := L.bucket_set _ _
        rw [check_of_excess hraise hcount hmax]
        have hafter : ∀ y, L.count y (L.undone fails again k (L.bucket s) (L.counted k s)) =
            L.count y s + (if y = (k, L.bucket s) then 1 else 0) -
              if fails .lower = false ∧ y = (k, if again then L.bucket (L.tick s) else L.bucket s) then 1 else 0 := by
          intro y
          rw [count_undone, count_counted, hbucket]
        constructor
        · intro h
          refine ⟨fun _ => hcount, fun _ _ => ?_⟩
          have hsame := (h (k, L.bucket s)).2 hpass
          rw [hafter, if_pos rfl] at hsame
          by_cases hback : fails .lower = false ∧ (k, L.bucket s) = (k, if again then L.bucket (L.tick s) else L.bucket s)
          · refine ⟨hback.1, fun hagain => ?_⟩
            have := congrArg Prod.snd hback.2
            rw [if_pos hagain] at this
            exact this.symm
          · rw [if_neg hback] at hsame
            omega
        · intro h y
          refine ⟨fun hp => absurd hp hpass, fun _ => ?_⟩
          obtain ⟨hlower, hsame⟩ := h.back hraise hmax
          have hbucket : (if again then L.bucket (L.tick s) else L.bucket s) = L.bucket s := by
            cases again
            · rfl
            · exact hsame rfl
          rw [hafter, hbucket]
          by_cases hy : y = (k, L.bucket s)
          · simp [hy, hlower]
          · simp [hy]
      · have hpass : Passes L fails k max s := ⟨hraise, hcount, not_le.1 hmax⟩
        rw [check_of_passes hpass]
        constructor
        · exact fun _ => ⟨fun _ => hcount, fun _ h => absurd h hmax⟩
        · exact fun _ y => ⟨fun _ => count_counted, fun h => absurd hpass h⟩

end Limiter
end Vai
