import Vai.LocalStream
/-!
# ReplayBuffer — what a client has missed

`EventBuffer::push` and `EventBuffer::events_since` of `server/mod.rs`, over any pushes of events whose ids count up
from 1.  What is evicted is evicted from the front, and the event that is pushed stays, so the buffer is the end of what
was pushed and is only empty before the first push.

`replay_law_iff`: the answer of `events_since` is right unless `last_event_id + 1` wraps around, for the last id there is.
-/
namespace Vai
namespace Broadcast

/-- A push, and the clock at it. -/
structure Push where
  event : BroadcastEvent
  now : Instant
deriving DecidableEq, Repr

def bufferOf (parse : Text → Option Instant) (pushes : List Push) : List BroadcastEvent :=
  pushes.foldl (fun events p => bufferPush parse p.now events p.event) []

/-- Events with consecutive ids of 64 bits, each with a timestamp that is not too old when it is pushed. -/
structure Pushed (parse : Text → Option Instant) (pushes : List Push) : Prop where
  ids : pushes.map (fun p => p.event.eventId) = List.range' 1 pushes.length
  issued : pushes.length < 2 ^ 64
  fresh : ∀ p ∈ pushes, ∃ ts, parse p.event.timestamp = some ts ∧ p.now ≤ ts + bufferMaxAgeSecs * 10 ^ 9
  ordered : pushes.Pairwise fun p q => ∀ ts ts', parse p.event.timestamp = some ts → parse q.event.timestamp = some ts' → ts ≤ ts'

/-- What `events_since` is to answer. -/
structure Law (pushes : List Push) (buffer : List BroadcastEvent) (lastEventId : Nat) : Prop where
  missed : (eventsSince buffer lastEventId).1 = false →
    (eventsSince buffer lastEventId).2 = (pushes.map Push.event).filter fun e => lastEventId < e.eventId
  exceeded : (eventsSince buffer lastEventId).1 = true →
    (∃ p ∈ pushes, lastEventId < p.event.eventId ∧ p.event ∉ buffer) ∨ ∀ p ∈ pushes, p.event.eventId ≠ lastEventId

section Pushes

variable {parse : Text → Option Instant} {pushes : List Push} {lastEventId : Nat}

/-! ## The buffer -/

theorem bufferPush_ne_nil {now : Instant} {events : List BroadcastEvent} {e : BroadcastEvent}
    (h : ∀ ts, parse e.timestamp = some ts → now ≤ ts + bufferMaxAgeSecs * 10 ^ 9) : bufferPush parse now events e ≠ [] := by
  have hstays : ∀ l : List BroadcastEvent, e ∈ l →
      l.dropWhile (fun front => (parse front.timestamp).any (· < now - bufferMaxAgeSecs * 10 ^ 9)) ≠ [] := by
    intro l he hnil
    have hold := List.dropWhile_eq_nil_iff.1 hnil e he
    cases hts : parse e.timestamp with
    | none =>
      rw [hts] at hold
      cases hold
    | some ts =>
      rw [hts, Option.any_some, decide_eq_true_iff] at hold
      exact absurd (h ts hts) (not_le.2 (lt_sub_iff_add_lt.1 hold))
  refine hstays _ ?_
  have hdrop : (events ++ [e]).length - bufferMaxEvents ≤ events.length := by
    have hmax : 1 ≤ bufferMaxEvents := by decide
    rw [List.length_append, List.length_singleton]
    omega
  rw [List.drop_append_of_le_length hdrop]
  exact List.mem_append_right _ (List.mem_singleton.2 rfl)

-- the unifier is not to count to `bufferMaxEvents`
attribute [local irreducible] bufferPush

/-- **The buffer is the end of what was pushed**, and not empty after a push. -/
theorem bufferOf_suffix (h : ∀ p ∈ pushes, ∃ ts, parse p.event.timestamp = some ts ∧ p.now ≤ ts + bufferMaxAgeSecs * 10 ^ 9) :
    bufferOf parse pushes <:+ pushes.map Push.event ∧ (pushes ≠ [] → bufferOf parse pushes ≠ []) := by
  induction pushes using List.reverseRecOn with
  | nil => exact ⟨List.suffix_refl _, fun hne => absurd rfl hne⟩
  | append_singleton pushes p ih =>
    have hlast : bufferOf parse (pushes ++ [p]) = bufferPush parse p.now (bufferOf parse pushes) p.event := by
      unfold bufferOf
      rw [List.foldl_append, List.foldl_cons, List.foldl_nil]
    obtain ⟨evicted, hevicted⟩ := (ih fun q hq => h q (List.mem_append_left _ hq)).1
    rw [hlast, List.map_append, List.map_singleton]
    constructor
    · have hsuffix : bufferOf parse pushes ++ [p.event] <:+ pushes.map Push.event ++ [p.event] :=
        ⟨evicted, by rw [← List.append_assoc, hevicted]⟩
      exact (bufferPush_suffix p.now _ p.event).trans hsuffix
    · intro _
      obtain ⟨ts, hts, hle⟩ := h p (List.mem_append_right _ (List.mem_singleton.2 rfl))
      refine bufferPush_ne_nil fun ts' hts' => ?_
      rw [hts] at hts'
      cases hts'
      exact hle

theorem Pushed.eventId_iff (h : Pushed parse pushes) (id : Nat) :
    (∃ p ∈ pushes, p.event.eventId = id) ↔ 1 ≤ id ∧ id ≤ pushes.length := by
  have hmem : id ∈ pushes.map (fun p => p.event.eventId) ↔ ∃ p ∈ pushes, p.event.eventId = id := List.mem_map
  rw [← hmem, h.ids, List.mem_range'_1]
  omega

/-- **What was evicted comes first**: so many events, up to the oldest that is kept. -/
theorem Pushed.split (h : Pushed parse pushes) (hne : pushes ≠ []) : ∃ evicted oldest rest,
    pushes.map Push.event = evicted ++ oldest :: rest ∧ bufferOf parse pushes = oldest :: rest ∧
      oldest.eventId = evicted.length + 1 ∧ (∀ e ∈ evicted, e.eventId ≤ evicted.length) ∧
      ∀ e ∈ oldest :: rest, evicted.length < e.eventId := by
  obtain ⟨⟨evicted, hevicted⟩, hfull⟩ := bufferOf_suffix h.fresh
  cases hbuffer : bufferOf parse pushes with
  | nil => exact absurd hbuffer (hfull hne)
  | cons oldest rest =>
    rw [hbuffer] at hevicted
    have hids : (evicted ++ oldest :: rest).map BroadcastEvent.eventId = List.range' 1 pushes.length := by
      rw [hevicted, List.map_map]
      exact h.ids
    have hlength : pushes.length = evicted.length + (rest.length + 1) := by
      have := congrArg List.length hids
      rw [List.length_map, List.length_append, List.length_range', List.length_cons] at this
      exact this.symm
    rw [hlength, List.map_append, ← List.range'_append_1] at hids
    obtain ⟨hfirst, hsecond⟩ := List.append_inj hids (by rw [List.length_map, List.length_range'])
    refine ⟨evicted, oldest, rest, hevicted.symm, rfl, ?_, ?_, ?_⟩
    · rw [List.map_cons, List.range'_succ] at hsecond
      have := (List.cons.inj hsecond).1
      omega
    · intro e he
      have hmem := List.mem_map_of_mem (f := BroadcastEvent.eventId) he
      rw [hfirst, List.mem_range'_1] at hmem
      omega
    · intro e he
      have hmem := List.mem_map_of_mem (f := BroadcastEvent.eventId) he
      rw [hsecond, List.mem_range'_1] at hmem
      omega

/-! ## The answer -/

/-- Below the last id, the answer is right. -/
theorem Pushed.law (h : Pushed parse pushes) (hlast : lastEventId + 1 < 2 ^ 64) :
    Law pushes (bufferOf parse pushes) lastEventId := by
  by_cases hne : pushes = []
  · subst hne
    exact ⟨fun _ => rfl, fun _ => .inr fun p hp => absurd hp List.not_mem_nil⟩
  obtain ⟨evicted, oldest, rest, hpushed, hbuffer, holdest, hgone, hkept⟩ := h.split hne
  have hanswer : (eventsSince (bufferOf parse pushes) lastEventId).1 = decide (lastEventId < evicted.length) := by
    unfold eventsSince
    rw [hbuffer]
    dsimp only [List.head?_cons]
    rw [Nat.mod_eq_of_lt hlast, holdest, decide_eq_decide]
    omega
  constructor
  · intro hnot
    rw [hanswer, decide_eq_false_iff_not] at hnot
    have hnone : (evicted.filter fun e => lastEventId < e.eventId) = [] :=
      List.filter_eq_nil_iff.2 fun e he hlt => by
        have := hgone e he
        rw [decide_eq_true_iff] at hlt
        omega
    unfold eventsSince
    rw [hpushed, hbuffer, List.filter_append, hnone, List.nil_append]
  · intro hyes
    rw [hanswer, decide_eq_true_iff] at hyes
    -- the next event was evicted
    have hlength : evicted.length ≤ pushes.length := by
      have := congrArg List.length hpushed
      rw [List.length_map, List.length_append] at this
      omega
    obtain ⟨p, hp, hid⟩ := (h.eventId_iff (lastEventId + 1)).2 ⟨Nat.le_add_left _ _, by omega⟩
    refine .inl ⟨p, hp, by omega, fun hin => ?_⟩
    rw [hbuffer] at hin
    have := hkept p.event hin
    omega

/-- At the last id, whose successor wraps to zero, the client is told that something is lost. -/
theorem Pushed.law_wraps (h : Pushed parse pushes) (hlast : lastEventId + 1 = 2 ^ 64) :
    Law pushes (bufferOf parse pushes) lastEventId ↔ pushes.length ≠ lastEventId := by
  have hissued := h.issued
  have hnone : ∀ p ∈ pushes, ¬ lastEventId < p.event.eventId := by
    intro p hp
    have := (h.eventId_iff p.event.eventId).1 ⟨p, hp, rfl⟩
    omega
  have hmissing : (∀ p ∈ pushes, p.event.eventId ≠ lastEventId) ↔ pushes.length ≠ lastEventId := by
    have hiff := h.eventId_iff lastEventId
    constructor
    · intro hno heq
      obtain ⟨p, hp, hid⟩ := hiff.2 ⟨by omega, by omega⟩
      exact hno p hp hid
    · intro hlen p hp hid
      have := (hiff.1 ⟨p, hp, hid⟩).2
      omega
  rw [← hmissing]
  by_cases hne : pushes = []
  · subst hne
    exact ⟨fun _ p hp => absurd hp List.not_mem_nil,
      fun hno => ⟨fun _ => rfl, fun _ => .inr hno⟩⟩
  obtain ⟨evicted, oldest, rest, -, hbuffer, holdest, -, -⟩ := h.split hne
  have hanswer : (eventsSince (bufferOf parse pushes) lastEventId).1 = true := by
    unfold eventsSince
    rw [hbuffer]
    dsimp only [List.head?_cons]
    rw [hlast, Nat.mod_self, holdest, decide_eq_true_iff]
    omega
  constructor
  · intro hlaw
    rcases hlaw.exceeded hanswer with ⟨p, hp, hlt, -⟩ | hno
    · exact absurd hlt (hnone p hp)
    · exact hno
  · intro hno
    refine ⟨fun hnot => ?_, fun _ => .inr hno⟩
    rw [hanswer] at hnot
    cases hnot

/-- **When the replay buffer answers right**: always, but for a client that has the last id of 64 bits, once that id has
been issued. -/
theorem replay_law_iff (h : Pushed parse pushes) (hlast : lastEventId < 2 ^ 64) :
    Law pushes (bufferOf parse pushes) lastEventId ↔ ¬ (lastEventId + 1 = 2 ^ 64 ∧ ∃ p ∈ pushes, p.event.eventId = lastEventId) := by
  have hissued := h.issued
  by_cases hmax : lastEventId + 1 = 2 ^ 64
  · rw [h.law_wraps hmax, h.eventId_iff]
    constructor
    · intro hne hboth
      omega
    · intro hno heq
      exact hno ⟨hmax, by omega, by omega⟩
  · exact ⟨fun _ hboth => hmax hboth.1, fun _ => h.law (by omega)⟩

end Pushes

/-! ## Events of one instant -/

/-- The events up to an id, all at the epoch. -/
def upTo (n : Nat) : List Push := (List.range' 1 n).map fun id => ⟨{ discarded with eventId := id }, 0⟩

theorem pushed_upTo {n : Nat} (h : n < 2 ^ 64) : Pushed parseEpoch (upTo n) := by
  have hlength : (upTo n).length = n := by
    unfold upTo
    rw [List.length_map, List.length_range']
  have htime : ∀ p ∈ upTo n, parseEpoch p.event.timestamp = some 0 ∧ p.now = 0 := by
    intro p hp
    obtain ⟨id, -, rfl⟩ := List.mem_map.1 hp
    exact ⟨if_pos rfl, rfl⟩
  refine ⟨?_, by rwa [hlength], fun p hp => ⟨0, (htime p hp).1, ?_⟩, ?_⟩
  · rw [hlength]
    unfold upTo
    rw [List.map_map]
    exact List.map_id _
  · rw [(htime p hp).2]
    decide
  · refine List.Pairwise.imp_of_mem (fun hp hq _ ts ts' hts hts' => ?_) (List.pairwise_of_forall (R := fun _ _ => True) fun _ _ => trivial)
    rw [(htime _ hp).1] at hts
    rw [(htime _ hq).1] at hts'
    cases hts
    cases hts'
    exact le_rfl

/-- A client that has seen the first of three events. -/
theorem replay_law_iff_first : Law (upTo 3) (bufferOf parseEpoch (upTo 3)) 1 :=
  (replay_law_iff (pushed_upTo (by decide)) (by decide)).2 fun h => absurd h.1 (by decide)

/-- A client that has seen all of `2 ^ 64 - 1` events is told that some are lost. -/
theorem last_id_is_exceeded : Pushed parseEpoch (upTo (2 ^ 64 - 1)) ∧
    ¬ Law (upTo (2 ^ 64 - 1)) (bufferOf parseEpoch (upTo (2 ^ 64 - 1))) (2 ^ 64 - 1) := by
  have hpushed : Pushed parseEpoch (upTo (2 ^ 64 - 1)) := pushed_upTo (by decide)
  refine ⟨hpushed, fun hlaw => (hpushed.law_wraps (by decide)).1 hlaw ?_⟩
  unfold upTo
  rw [List.length_map, List.length_range']

end Broadcast
end Vai
