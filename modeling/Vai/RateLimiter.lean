import Vai.FMap
import Vai.Data
import Vai.Steps
/-!
# RateLimiter — the sliding windows of the server

`RateLimiter::check` of `server/mod.rs`, which the middleware calls with a key of the client and the category, and the
maximum and the window of the category.  An instant is in nanoseconds since the earliest that can be represented, which is
where `checked_sub` gives up; the cutoff is then `now`, and every request of the key is forgotten.

`limited_of_meets`: where no request is forgotten so, no window has more than the maximum.  `retry_after_honest_iff`: the
seconds of a refusal are rounded down, and are enough when nothing is lost by it.
-/
namespace Vai
namespace RateLimiter

open Steps

def second : Nat := 10 ^ 9

inductive RateLimitResult where
  | allowed
  | denied (retryAfterSecs : Nat)
deriving DecidableEq, Repr

abbrev Windows := FMap Text (List Nat)

/-- `now.checked_sub(window).unwrap_or(now)`. -/
def cutoff (now : Nat) (window : Nat) : Nat := if window ≤ now then now - window else now

/-- Timestamps older than the window are dropped. -/
def pruned (now : Nat) (window : Nat) (entry : List Nat) : List Nat :=
  entry.dropWhile fun ts => ts ≤ cutoff now window

def queue (windows : Windows) (key : Text) : List Nat := (windows.get key).getD []

/-- No result is the `expect` that fails. -/
def check (key : Text) (max : Nat) (window : Nat) (now : Nat) (windows : Windows) : Option RateLimitResult × Windows :=
  let entry := pruned now window (queue windows key)
  if max ≤ entry.length then
    (entry.head?.map fun oldest => .denied (Nat.max ((window - (now - oldest)) / second) 1), windows.insert key entry)
  else (some .allowed, windows.insert key (entry ++ [now]))

/-! ## Runs -/

structure Call where
  key : Text
  max : Nat
  window : Nat
  now : Nat
deriving DecidableEq, Repr

structure State where
  windows : Windows
  clock : Nat

def Call.check (c : Call) (windows : Windows) : Option RateLimitResult × Windows :=
  RateLimiter.check c.key c.max c.window c.now windows

/-- The clock does not go back. -/
def step (c : Call) (s : State) : Option State := if s.clock ≤ c.now then some ⟨(c.check s.windows).2, c.now⟩ else none

def State.start (clock : Nat) : State := ⟨∅, clock⟩

def answer (t : Turn Call State) : Option RateLimitResult := (t.action.check t.before.windows).1

/-- The requests of a key that were allowed, by their times. -/
def allowedTimes (key : Text) (l : List (Turn Call State)) : List Nat :=
  (l.filter fun t => t.action.key = key && answer t = some .allowed).map fun t => t.action.now

/-- All requests of a key have its maximum and its window. -/
def Fixed (key : Text) (max : Nat) (window : Nat) (l : List (Turn Call State)) : Prop :=
  ∀ t ∈ l, t.action.key = key → t.action.max = max ∧ t.action.window = window

/-- The windows after these calls alone. -/
def windowsOf (calls : List Call) : Windows := calls.foldl (fun windows c => (c.check windows).2) ∅

/-- What the limiter is to do for a key. -/
structure Limited (key : Text) (max : Nat) (window : Nat) (l : List (Turn Call State)) : Prop where
  /-- No interval of this length has more. -/
  bound : ∀ start, ((allowedTimes key l).filter fun ts => start ≤ ts && ts < start + window).length ≤ max
  /-- A request that is refused has that many before it, in the window that ends with it. -/
  denied : ∀ l₁ t l₂ secs, l = l₁ ++ t :: l₂ → t.action.key = key → answer t = some (.denied secs) →
    ((allowedTimes key l₁).filter fun ts => t.action.now < ts + window && ts ≤ t.action.now).length = max
  /-- The answers are those without the other keys. -/
  apart : ∀ l₁ t l₂, l = l₁ ++ t :: l₂ → t.action.key = key →
    answer t = (t.action.check (windowsOf ((l₁.map Turn.action).filter fun c => c.key = key))).1

/-- The window does not reach beyond the earliest instant, or there is nothing to forget. -/
def Meets (c : Call) (s : State) : Prop := c.window ≤ c.now ∨ queue s.windows c.key = []

/-! ## One call -/

section Calls

variable {key : Text} {max : Nat} {window : Nat} {now : Nat} {windows : Windows} {c : Call} {s s' : State}

/-- What a call leaves for its key. -/
def after (max : Nat) (window : Nat) (now : Nat) (entry : List Nat) : List Nat :=
  if max ≤ (pruned now window entry).length then pruned now window entry else pruned now window entry ++ [now]

theorem queue_check (k : Text) : queue (check key max window now windows).2 k =
    if k = key then after max window now (queue windows key) else queue windows k := by
  have hinsert : ∀ entry, queue (windows.insert key entry) k = if k = key then entry else queue windows k := by
    intro entry
    unfold queue
    rw [FMap.get_insert]
    split
    · rfl
    · rfl
  unfold check after
  dsimp only
  split
  · exact hinsert _
  · exact hinsert _

theorem check_fst : (check key max window now windows).1 =
    if max ≤ (pruned now window (queue windows key)).length then
      (pruned now window (queue windows key)).head?.map fun oldest =>
        .denied (Nat.max ((window - (now - oldest)) / second) 1)
    else some .allowed := by
  unfold check
  dsimp only
  split
  · rfl
  · rfl

theorem allowed_iff : (check key max window now windows).1 = some .allowed ↔
    (pruned now window (queue windows key)).length < max := by
  rw [check_fst]
  split
  · rename_i h
    constructor
    · intro ha
      cases hhead : (pruned now window (queue windows key)).head? with
      | none =>
        rw [hhead] at ha
        cases ha
      | some oldest =>
        rw [hhead] at ha
        cases ha
    · intro hlt
      omega
  · rename_i h
    exact ⟨fun _ => Nat.lt_of_not_le h, fun _ => rfl⟩

theorem denied_iff {secs : Nat} : (check key max window now windows).1 = some (.denied secs) ↔
    max ≤ (pruned now window (queue windows key)).length ∧ ∃ oldest, (pruned now window (queue windows key)).head? = some oldest ∧
      secs = Nat.max ((window - (now - oldest)) / second) 1 := by
  rw [check_fst]
  split
  · rename_i h
    rw [Option.map_eq_some_iff]
    constructor
    · rintro ⟨oldest, hhead, hsecs⟩
      cases hsecs
      exact ⟨h, oldest, hhead, rfl⟩
    · rintro ⟨-, oldest, hhead, rfl⟩
      exact ⟨oldest, hhead, rfl⟩
  · rename_i h
    constructor
    · intro hd
      cases hd
    · intro hd
      exact absurd hd.1 h

/-- With a cutoff in the past, what is left of a queue is what counts. -/
theorem pruned_eq {entry : List Nat} (h : window ≤ now ∨ entry = []) :
    pruned now window entry = entry.dropWhile fun ts => ts + window ≤ now := by
  rcases h with h | rfl
  · unfold pruned cutoff
    rw [if_pos h]
    exact congrArg (fun p => List.dropWhile p entry) (funext fun ts => decide_eq_decide.2 (Nat.le_sub_iff_add_le h))
  · rfl

theorem length_after_le (entry : List Nat) (h : entry.length ≤ max) :
    (after max window now entry).length ≤ max := by
  have hpruned : (pruned now window entry).length ≤ entry.length := (List.dropWhile_sublist _).length_le
  unfold after
  split
  · omega
  · rw [List.length_append, List.length_singleton]
    omega

theorem mem_after {entry : List Nat} {ts : Nat} (h : ts ∈ after max window now entry) : ts ∈ entry ∨ ts = now := by
  unfold after at h
  split at h
  · exact .inl ((List.dropWhile_sublist _).subset h)
  · rcases List.mem_append.1 h with h | h
    · exact .inl ((List.dropWhile_sublist _).subset h)
    · exact .inr (List.mem_singleton.1 h)

theorem step_eq (hs : step c s = some s') : s.clock ≤ c.now ∧ s'.clock = c.now ∧ s'.windows = (c.check s.windows).2 := by
  unfold step at hs
  split at hs
  · rename_i hclock
    cases hs
    exact ⟨hclock, rfl, rfl⟩
  · cases hs

theorem queue_step (hs : step c s = some s') (k : Text) : queue s'.windows k =
    if k = c.key then after c.max c.window c.now (queue s.windows k) else queue s.windows k := by
  rw [(step_eq hs).2.2]
  unfold Call.check
  rw [queue_check]
  split
  · rename_i hk
    rw [hk]
  · rfl

end Calls

/-! ## Keys apart -/

section Runs

variable {key : Text} {max : Nat} {window : Nat} {clock : Nat} {s s' : State} {l : List (Turn Call State)}

theorem queue_windowsOf_concat (calls : List Call) (c : Call) (k : Text) : queue (windowsOf (calls ++ [c])) k =
    if k = c.key then after c.max c.window c.now (queue (windowsOf calls) k) else queue (windowsOf calls) k := by
  have hlast : windowsOf (calls ++ [c]) = (c.check (windowsOf calls)).2 := by
    unfold windowsOf
    rw [List.foldl_append]
    rfl
  rw [hlast]
  unfold Call.check
  rw [queue_check]
  split
  · rename_i hk
    rw [hk]
  · rfl

theorem queue_alone (h : Ran step (State.start clock) l s) (k : Text) :
    queue s.windows k = queue (windowsOf ((l.map Turn.action).filter fun c => c.key = k)) k := by
  induction h with
  | start => rfl
  | next _ c hs ih =>
    rw [queue_step hs, List.map_append, List.filter_append]
    rw [List.map_singleton]
    by_cases hk : k = c.key
    · rw [List.filter_cons_of_pos (by simp [hk]), List.filter_nil, queue_windowsOf_concat, if_pos hk, if_pos hk, ih]
    · rw [List.filter_cons_of_neg (by simp [Ne.symm hk]), List.filter_nil, List.append_nil, if_neg hk, ih]

theorem answer_alone (h : Ran step (State.start clock) l s) (c : Call) :
    (c.check s.windows).1 = (c.check (windowsOf ((l.map Turn.action).filter fun c' => c'.key = c.key))).1 := by
  unfold Call.check
  rw [check_fst, check_fst, queue_alone h]

/-! ## The bound -/

/-- The times of the allowed requests of a key against the state after them. -/
structure Sliding (key : Text) (max window : Nat) (times : List Nat) (s : State) : Prop where
  ordered : times.Pairwise (· ≤ ·)
  past : ∀ ts ∈ times, ts ≤ s.clock
  /-- Those that count from now on are in the queue. -/
  kept : ∀ now, s.clock ≤ now →
    ((queue s.windows key).dropWhile fun ts => ts + window ≤ now) = times.filter fun ts => now < ts + window
  bound : ∀ start, (times.filter fun ts => start ≤ ts && ts < start + window).length ≤ max

theorem dropWhile_eq_filter {times : List Nat} (h : times.Pairwise (· ≤ ·)) (now : Nat) :
    (times.dropWhile fun ts => ts + window ≤ now) = times.filter fun ts => now < ts + window := by
  induction times with
  | nil => rfl
  | cons ts times ih =>
    obtain ⟨hfirst, hrest⟩ := List.pairwise_cons.1 h
    by_cases hold : ts + window ≤ now
    · rw [List.dropWhile_cons_of_pos (by simpa using hold), List.filter_cons_of_neg (by simpa using hold), ih hrest]
    · rw [List.dropWhile_cons_of_neg (by simpa using hold)]
      refine (List.filter_eq_self.2 fun x hx => ?_).symm
      rcases List.mem_cons.1 hx with rfl | hx
      · simpa using hold
      · have := hfirst x hx
        simp only [decide_eq_true_eq]
        omega

theorem allowedTimes_concat (key : Text) (l : List (Turn Call State)) (t : Turn Call State) : allowedTimes key (l ++ [t]) =
    allowedTimes key l ++ if t.action.key = key ∧ answer t = some .allowed then [t.action.now] else [] := by
  unfold allowedTimes
  rw [List.filter_append, List.map_append]
  congr 1
  by_cases h : t.action.key = key ∧ answer t = some .allowed
  · rw [if_pos h, List.filter_cons_of_pos (by simp [h])]
    rfl
  · rw [if_neg h, List.filter_cons_of_neg (by simpa using h)]
    rfl

theorem Sliding.pruned_eq {times : List Nat} {now : Nat} (h : Sliding key max window times s) (hclock : s.clock ≤ now)
    (hmeets : window ≤ now ∨ queue s.windows key = []) :
    pruned now window (queue s.windows key) = times.filter fun ts => now < ts + window :=
  (RateLimiter.pruned_eq hmeets).trans (h.kept now hclock)

/-- What counts at a request is what counts later of all before it. -/
theorem filter_later {times : List Nat} {now later : Nat} (h : now ≤ later) :
    ((times.filter fun ts => now < ts + window).filter fun ts => later < ts + window) =
      times.filter fun ts => later < ts + window := by
  rw [List.filter_filter]
  refine List.filter_congr fun ts _ => ?_
  rw [← Bool.decide_and, decide_eq_decide]
  omega

/-- A queue that stays as it is. -/
theorem Sliding.frame {times : List Nat} (h : Sliding key max window times s) (hclock : s.clock ≤ s'.clock)
    (hqueue : queue s'.windows key = queue s.windows key) : Sliding key max window times s' where
  ordered := h.ordered
  past ts hts := (h.past ts hts).trans hclock
  kept now hle := by
    rw [hqueue]
    exact h.kept now (hclock.trans hle)
  bound := h.bound

/-- A refused request leaves what counts. -/
theorem Sliding.refuse {times : List Nat} (h : Sliding key max window times s) (hclock : s.clock ≤ s'.clock)
    (hqueue : queue s'.windows key = times.filter fun ts => s'.clock < ts + window) : Sliding key max window times s' where
  ordered := h.ordered
  past ts hts := (h.past ts hts).trans hclock
  kept now hle := by
    rw [hqueue, dropWhile_eq_filter (h.ordered.filter _), filter_later hle]
  bound := h.bound

theorem Sliding.admit {times : List Nat} (h : Sliding key max window times s) (hclock : s.clock ≤ s'.clock)
    (hroom : (times.filter fun ts => s'.clock < ts + window).length < max)
    (hqueue : queue s'.windows key = (times.filter fun ts => s'.clock < ts + window) ++ [s'.clock]) :
    Sliding key max window (times ++ [s'.clock]) s' := by
  have hlast : ∀ {l : List Nat}, (∀ ts ∈ l, ts ∈ times) → l.Pairwise (· ≤ ·) → (l ++ [s'.clock]).Pairwise (· ≤ ·) := by
    intro l hl hordered
    refine List.pairwise_append.2 ⟨hordered, List.pairwise_singleton _ _, fun ts hts n hn => ?_⟩
    rw [List.mem_singleton.1 hn]
    exact (h.past ts (hl ts hts)).trans hclock
  constructor
  · exact hlast (fun ts hts => hts) h.ordered
  · intro ts hts
    rcases List.mem_append.1 hts with hts | hts
    · exact (h.past ts hts).trans hclock
    · exact (List.mem_singleton.1 hts).le
  · intro now hle
    have hsorted := hlast (fun ts hts => (List.mem_filter.1 hts).1) (h.ordered.filter fun ts => s'.clock < ts + window)
    rw [hqueue, dropWhile_eq_filter hsorted, List.filter_append, List.filter_append, filter_later hle]
  · intro start
    rw [List.filter_append, List.length_append]
    by_cases hin : start ≤ s'.clock ∧ s'.clock < start + window
    · -- the earlier ones of the interval all count at this request
      have hsub : (times.filter fun ts => start ≤ ts && ts < start + window).length ≤
          (times.filter fun ts => s'.clock < ts + window).length := by
        refine (List.monotone_filter_right _ fun ts hts => ?_).length_le
        simp only [Bool.and_eq_true, decide_eq_true_eq] at hts ⊢
        omega
      have hone : ([s'.clock].filter fun ts => start ≤ ts && ts < start + window).length ≤ 1 := List.length_filter_le _ _
      omega
    · rw [List.filter_cons_of_neg (by simpa using hin), List.filter_nil]
      exact h.bound start

/-- **One step**: a request of the key, or of another one. -/
theorem Sliding.step {times : List Nat} {c : Call} (h : Sliding key max window times s) (hs : step c s = some s')
    (hfixed : c.key = key → c.max = max ∧ c.window = window) (hmeets : c.key = key → Meets c s) :
    Sliding key max window
      (times ++ if c.key = key ∧ answer ⟨c, s⟩ = some .allowed then [c.now] else []) s' := by
  obtain ⟨hclock, hnow, -⟩ := step_eq hs
  by_cases hkey : c.key = key
  · obtain ⟨hmax, hwindow⟩ := hfixed hkey
    have hmeets' : window ≤ c.now ∨ queue s.windows key = [] := by
      have := hmeets hkey
      unfold Meets at this
      rwa [hwindow, hkey] at this
    have hlive := h.pruned_eq hclock hmeets'
    have hqueue : queue s'.windows key = after max window c.now (queue s.windows key) := by
      rw [queue_step hs, if_pos hkey.symm, hmax, hwindow]
    have hallowed : answer ⟨c, s⟩ = some .allowed ↔ (times.filter fun ts => c.now < ts + window).length < max := by
      unfold answer Call.check
      rw [allowed_iff, hkey, hmax, hwindow, hlive]
    unfold after at hqueue
    rw [hlive] at hqueue
    rw [← hnow] at hqueue hallowed hclock ⊢
    by_cases hroom : (times.filter fun ts => s'.clock < ts + window).length < max
    · rw [if_pos ⟨hkey, hallowed.2 hroom⟩]
      exact h.admit hclock hroom (hqueue.trans (if_neg (by omega)))
    · rw [if_neg fun hboth => hroom (hallowed.1 hboth.2), List.append_nil]
      exact h.refuse hclock (hqueue.trans (if_pos (by omega)))
  · rw [if_neg fun hboth => hkey hboth.1, List.append_nil]
    exact h.frame (hclock.trans hnow.ge) ((queue_step hs key).trans (if_neg fun hk => hkey hk.symm))

theorem sliding_run (h : Ran step (State.start clock) l s) (hfixed : Fixed key max window l)
    (hmeets : ∀ t ∈ l, t.action.key = key → Meets t.action t.before) : Sliding key max window (allowedTimes key l) s := by
  induction h with
  | start => exact ⟨List.Pairwise.nil, fun ts hts => absurd hts List.not_mem_nil, fun _ _ => rfl, fun _ => Nat.zero_le _⟩
  | next _ c hs ih =>
    have hbefore := ih (fun t ht => hfixed t (List.mem_append_left _ ht)) fun t ht => hmeets t (List.mem_append_left _ ht)
    rw [allowedTimes_concat]
    exact hbefore.step hs (hfixed _ (List.mem_append_right _ (List.mem_singleton.2 rfl)))
      (hmeets _ (List.mem_append_right _ (List.mem_singleton.2 rfl)))

/-- **The limiter keeps its bound** in every run in which no request of the key is forgotten early. -/
theorem limited_of_meets (h : Ran step (State.start clock) l s) (hfixed : Fixed key max window l)
    (hmeets : ∀ t ∈ l, t.action.key = key → Meets t.action t.before) : Limited key max window l := by
  refine ⟨(sliding_run h hfixed hmeets).bound, ?_, ?_⟩
  · rintro l₁ t l₂ secs rfl hkey hdenied
    have hbefore := h.earlier
    have hmem : t ∈ l₁ ++ t :: l₂ := List.mem_append_right _ List.mem_cons_self
    have hsliding := sliding_run hbefore (fun t ht => hfixed t (List.mem_append_left _ ht))
      fun t ht => hmeets t (List.mem_append_left _ ht)
    obtain ⟨s', hs⟩ := h.made t hmem
    have hclock := (step_eq hs).1
    have hlive := hsliding.pruned_eq hclock (by
      have := hmeets t hmem hkey
      unfold Meets at this
      rwa [(hfixed t hmem hkey).2, hkey] at this)
    unfold answer Call.check at hdenied
    rw [denied_iff, hkey, (hfixed t hmem hkey).1, (hfixed t hmem hkey).2, hlive] at hdenied
    have hsame : ((allowedTimes key l₁).filter fun ts => t.action.now < ts + window && ts ≤ t.action.now) =
        (allowedTimes key l₁).filter fun ts => t.action.now < ts + window := by
      refine List.filter_congr fun ts hts => ?_
      have := (hsliding.past ts hts).trans hclock
      simp [this]
    -- they are all in the last interval that ends with the request
    have hlast : ((allowedTimes key l₁).filter fun ts => t.action.now < ts + window).length ≤
        ((allowedTimes key l₁).filter fun ts => t.action.now + 1 - window ≤ ts &&
          ts < t.action.now + 1 - window + window).length := by
      have hsub : ((allowedTimes key l₁).filter fun ts => t.action.now < ts + window) =
          ((allowedTimes key l₁).filter fun ts => t.action.now < ts + window && ts ≤ t.action.now) := hsame.symm
      rw [hsub]
      refine (List.monotone_filter_right _ fun ts hts => ?_).length_le
      simp only [Bool.and_eq_true, decide_eq_true_eq] at hts ⊢
      omega
    rw [hsame]
    exact le_antisymm (hlast.trans (hsliding.bound _)) hdenied.1
  · rintro l₁ t l₂ rfl hkey
    have halone := answer_alone h.earlier t.action
    rwa [hkey] at halone

/-! ## The answer of a refusal -/

/-- Nothing is lost of a duration when it is rounded down to seconds, and up to one. -/
def Whole (d : Nat) : Prop := d < second ∨ second ∣ d

theorem rounded_iff (d : Nat) : d ≤ Nat.max (d / second) 1 * second ↔ Whole d := by
  have hpos : 0 < second := by decide
  have hdown : d / second * second ≤ d := Nat.div_mul_le_self d second
  unfold Whole
  rcases Nat.lt_or_ge d second with hlt | hge
  · have hzero : d / second = 0 := Nat.div_eq_of_lt hlt
    have hone : Nat.max 0 1 = 1 := rfl
    rw [hzero, hone, one_mul]
    exact ⟨fun _ => .inl hlt, fun _ => hlt.le⟩
  · have hone : 1 ≤ d / second := (Nat.one_le_div_iff hpos).2 hge
    have hmax : Nat.max (d / second) 1 = d / second := Nat.max_eq_left hone
    rw [hmax]
    constructor
    · intro h
      exact .inr (Nat.dvd_of_mod_eq_zero (by
        have := Nat.div_add_mod' d second
        omega))
    · rintro (h | h)
      · omega
      · exact (Nat.div_mul_cancel h).ge

/-- The queue of a key is no longer than its maximum, and not ahead of the clock. -/
structure Bounded (key : Text) (max : Nat) (s : State) : Prop where
  length : (queue s.windows key).length ≤ max
  past : ∀ ts ∈ queue s.windows key, ts ≤ s.clock

theorem Bounded.step {c : Call} (h : Bounded key max s) (hs : step c s = some s') (hfixed : c.key = key → c.max = max) :
    Bounded key max s' := by
  obtain ⟨hclock, hnow, -⟩ := step_eq hs
  by_cases hkey : key = c.key
  · have hqueue : queue s'.windows key = after max c.window c.now (queue s.windows key) := by
      rw [queue_step hs, if_pos hkey, hfixed hkey.symm]
    constructor
    · rw [hqueue]
      exact length_after_le _ h.length
    · rw [hqueue, hnow]
      intro ts hts
      rcases mem_after hts with hts | rfl
      · exact (h.past ts hts).trans hclock
      · exact le_rfl
  · have hqueue : queue s'.windows key = queue s.windows key := by rw [queue_step hs, if_neg hkey]
    constructor
    · rw [hqueue]
      exact h.length
    · rw [hqueue, hnow]
      exact fun ts hts => (h.past ts hts).trans hclock

theorem bounded_run (h : Ran step (State.start clock) l s) (hfixed : Fixed key max window l) : Bounded key max s := by
  induction h with
  | start => exact ⟨Nat.zero_le _, fun ts hts => absurd hts List.not_mem_nil⟩
  | next _ c hs ih =>
    have hbefore := ih fun t ht => hfixed t (List.mem_append_left _ ht)
    exact hbefore.step hs fun hkey => (hfixed _ (List.mem_append_right _ (List.mem_singleton.2 rfl)) hkey).1

theorem queue_others (calls : List Call) (h : ∀ c ∈ calls, c.key ≠ key) (windows : Windows) :
    queue (calls.foldl (fun windows c => (c.check windows).2) windows) key = queue windows key := by
  induction calls generalizing windows with
  | nil => rfl
  | cons c calls ih =>
    rw [List.foldl_cons, ih fun c' hc' => h c' (List.mem_cons_of_mem _ hc')]
    unfold Call.check
    rw [queue_check, if_neg (Ne.symm (h c List.mem_cons_self))]

/-- What a refusal rests on: a full queue, of which the oldest counts. -/
theorem Bounded.of_denied {now secs : Nat} (h : Bounded key max s) (hclock : s.clock ≤ now)
    (hdenied : (check key max window now s.windows).1 = some (.denied secs)) :
    ∃ oldest rest, pruned now window (queue s.windows key) = oldest :: rest ∧ rest.length + 1 = max ∧
      secs = Nat.max ((window - (now - oldest)) / second) 1 ∧ window ≤ now ∧ now - window < oldest ∧ oldest ≤ now := by
  obtain ⟨hfull, oldest, hhead, hsecs⟩ := denied_iff.1 hdenied
  obtain ⟨rest, hlive⟩ := List.head?_eq_some_iff.1 hhead
  have hlength : (pruned now window (queue s.windows key)).length = max :=
    le_antisymm ((List.dropWhile_sublist _).length_le.trans h.length) hfull
  have hmem : oldest ∈ pruned now window (queue s.windows key) := List.mem_of_mem_head? hhead
  have hpast := (h.past oldest ((List.dropWhile_sublist _).subset hmem)).trans hclock
  have hcounts : cutoff now window < oldest := by
    have hnot := List.head?_dropWhile_not (fun ts => decide (ts ≤ cutoff now window)) (queue s.windows key)
    unfold pruned at hhead
    rw [hhead] at hnot
    simpa using hnot
  have hwindow : window ≤ now := by
    by_contra hno
    unfold cutoff at hcounts
    rw [if_neg hno] at hcounts
    omega
  unfold cutoff at hcounts
  rw [if_pos hwindow] at hcounts
  rw [hlive, List.length_cons] at hlength
  exact ⟨oldest, rest, hlive, hlength, hsecs, hwindow, hcounts, hpast⟩

theorem length_pruned_lt {later oldest : Nat} {rest : List Nat} (hwindow : window ≤ later) :
    (pruned later window (oldest :: rest)).length < rest.length + 1 ↔ oldest ≤ later - window := by
  have hcutoff : cutoff later window = later - window := if_pos hwindow
  unfold pruned
  rw [hcutoff]
  by_cases hold : oldest ≤ later - window
  · rw [List.dropWhile_cons_of_pos (by simpa using hold)]
    have := (List.dropWhile_sublist (fun ts => decide (ts ≤ later - window)) (l := rest)).length_le
    exact ⟨fun _ => hold, fun _ => by omega⟩
  · rw [List.dropWhile_cons_of_neg (by simpa using hold), List.length_cons]
    exact ⟨fun hlt => by omega, fun hle => absurd hle hold⟩

/-- **When `Retry-After` is honest**: after any requests, a refused key that waits as long as it is told is allowed exactly
when the oldest request that counts is to leave the window in less than a second or in whole seconds. -/
theorem retry_after_honest_iff (h : Ran step (State.start clock) l s) (hfixed : Fixed key max window l)
    {now secs : Nat} (hclock : s.clock ≤ now) (hdenied : (check key max window now s.windows).1 = some (.denied secs))
    {others : List Call} (hothers : ∀ c ∈ others, c.key ≠ key) :
    (check key max window (now + secs * second)
        (others.foldl (fun windows c => (c.check windows).2) (check key max window now s.windows).2)).1 = some .allowed ↔
      ∀ oldest, (pruned now window (queue s.windows key)).head? = some oldest → Whole (window - (now - oldest)) := by
  obtain ⟨oldest, rest, hlive, hlength, hsecs, hwindow, hcounts, hpast⟩ := (bounded_run h hfixed).of_denied hclock hdenied
  have hqueue : queue (others.foldl (fun windows c => (c.check windows).2) (check key max window now s.windows).2) key =
      oldest :: rest := by
    rw [queue_others others hothers, queue_check, if_pos rfl]
    unfold after
    rw [hlive, List.length_cons, if_pos hlength.ge]
  have hleft : (pruned (now + secs * second) window (oldest :: rest)).length < max ↔
      oldest ≤ now + secs * second - window := by
    rw [← hlength]
    exact length_pruned_lt (by omega)
  have hround := rounded_iff (window - (now - oldest))
  rw [← hsecs] at hround
  rw [allowed_iff, hqueue, hleft, hlive, List.head?_cons]
  constructor
  · rintro hle _ hsome
    cases hsome
    exact hround.1 (by omega)
  · intro hwhole
    have := hround.2 (hwhole oldest rfl)
    omega

end Runs

/-! ## One request a minute -/

def client : Text := "ip_auth:10.0.0.1".toList

def request (now : Nat) : Call := ⟨client, 1, 60 * second, now⟩

/-- A run of requests, of which every one or none reaches back to the earliest instant. -/
def requests (times : List Nat) : Option (List (Turn Call State) × State) :=
  trace step (times.map request) (State.start 0)

/-- After an hour the limiter keeps its bound. -/
theorem limited_of_meets_hour : ∃ r, requests [3600 * second, 3630 * second, 3660 * second] = some r ∧
    Limited client 1 (60 * second) r.1 ∧ r.1.map answer = [some .allowed, some (.denied 30), some .allowed] := by
  have hrun : (requests [3600 * second, 3630 * second, 3660 * second]).any (fun r =>
      r.1.all (fun t => t.action.max == 1 && (t.action.window == 60 * second && decide (t.action.window ≤ t.action.now))) &&
        r.1.map answer == [some .allowed, some (.denied 30), some .allowed]) = true := by decide +kernel
  cases hr : requests [3600 * second, 3630 * second, 3660 * second] with
  | none =>
    rw [hr] at hrun
    cases hrun
  | some r =>
    rw [hr, Option.any_some, Bool.and_eq_true, List.all_eq_true, beq_iff_eq] at hrun
    have hcalls : ∀ t ∈ r.1, t.action.max = 1 ∧ t.action.window = 60 * second ∧ t.action.window ≤ t.action.now := fun t ht => by
      have := hrun.1 t ht
      rwa [Bool.and_eq_true, Bool.and_eq_true, beq_iff_eq, beq_iff_eq, decide_eq_true_iff] at this
    exact ⟨r, rfl, limited_of_meets (ran_of_trace hr) (fun t ht _ => ⟨(hcalls t ht).1, (hcalls t ht).2.1⟩)
      (fun t ht _ => .inl (hcalls t ht).2.2), hrun.2⟩

/-- Two requests just after the earliest instant are both allowed, where one a minute is. -/
theorem early_requests_pass_the_limit : ∃ r, requests [second, 2 * second] = some r ∧
    Ran step (State.start 0) r.1 r.2 ∧ Fixed client 1 (60 * second) r.1 ∧
    allowedTimes client r.1 = [second, 2 * second] ∧ ¬ Limited client 1 (60 * second) r.1 := by
  have hrun : (requests [second, 2 * second]).any (fun r =>
      r.1.all (fun t => t.action.max == 1 && t.action.window == 60 * second) &&
        allowedTimes client r.1 == [second, 2 * second]) = true := by decide +kernel
  cases hr : requests [second, 2 * second] with
  | none =>
    rw [hr] at hrun
    cases hrun
  | some r =>
    rw [hr, Option.any_some, Bool.and_eq_true, List.all_eq_true, beq_iff_eq] at hrun
    refine ⟨r, rfl, ran_of_trace hr, fun t ht _ => ?_, hrun.2, fun h => ?_⟩
    · have := hrun.1 t ht
      rwa [Bool.and_eq_true, beq_iff_eq, beq_iff_eq] at this
    · have hbound := h.bound second
      rw [hrun.2] at hbound
      revert hbound
      decide +kernel

/-- The limiter after one request. -/
def once : State := ⟨((request (3600 * second)).check ∅).2, 3600 * second⟩

theorem ran_once : Ran step (State.start 0) [⟨request (3600 * second), State.start 0⟩] once :=
  Ran.start.next (request (3600 * second)) (if_pos (Nat.zero_le _))

theorem fixed_once : Fixed client 1 (60 * second) [⟨request (3600 * second), State.start 0⟩] := by
  intro t ht _
  rw [List.mem_singleton.1 ht]
  exact ⟨rfl, rfl⟩

/-- A refusal half a minute later is for half a minute. -/
theorem retry_after_honest_iff_half : (check client 1 (60 * second) (3630 * second + 30 * second)
    (check client 1 (60 * second) (3630 * second) once.windows).2).1 = some .allowed := by
  refine (retry_after_honest_iff ran_once fixed_once (by decide) (by decide +kernel)
    (fun c hc => absurd hc List.not_mem_nil)).2 fun oldest holdest => ?_
  have hhead : (pruned (3630 * second) (60 * second) (queue once.windows client)).head? = some (3600 * second) := by
    decide +kernel
  rw [hhead] at holdest
  cases holdest
  exact .inr (by decide +kernel)

/-- A refusal half a second later is for 59 seconds, and there is half a second more to wait. -/
theorem refusal_is_short :
    Ran step (State.start 0) [⟨request (3600 * second), State.start 0⟩] once ∧
    (check client 1 (60 * second) (3600 * second + second / 2) once.windows).1 = some (.denied 59) ∧
    (check client 1 (60 * second) (3600 * second + second / 2 + 59 * second)
      (check client 1 (60 * second) (3600 * second + second / 2) once.windows).2).1 = some (.denied 1) := by
  refine ⟨ran_once, ?_, ?_⟩
  · decide +kernel
  · decide +kernel

end RateLimiter
end Vai
