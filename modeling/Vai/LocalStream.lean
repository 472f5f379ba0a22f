import Vai.EventStream
/-!
# LocalStream — events over a WebSocket, from memory

`AppState::broadcast` and `EventBuffer` of `server/mod.rs` with `handle_ws_connection` of `server/ws.rs`: any number of
broadcasts, and one client that connects again with `last_event_id = n`.

A broadcast draws its id, enters the replay buffer and is sent on the channel in three steps, and others go between them.
The client is on the channel from the moment it connects; its first task replays the buffer and then installs the filter,
the other takes the events from the channel and drops them while there is no filter.  The channel does not lag, and the
buffer's lock is not poisoned.

`reconnect_continuous`: in a run whose steps meet `Meets`, the client is told that the buffer is exceeded, or gets every
event after `n` once and in order.
-/
namespace Vai
namespace Broadcast

open Steps Ws

structure BroadcastEvent where
  eventType : Text
  eventId : Nat
  workspaceId : Option Text
  timestamp : Text
  /-- `data.to_string()`. -/
  data : Text
deriving DecidableEq, Repr

def filterMatches (filter : SubscriptionFilter) (event : BroadcastEvent) : Bool :=
  (filter.eventTypes.isEmpty || event.eventType ∈ filter.eventTypes) &&
    (filter.workspaces.isEmpty || event.workspaceId.any (· ∈ filter.workspaces)) &&
    (filter.entities.isEmpty || filter.entities.any (· <:+: event.data)) &&
    (filter.paths.isEmpty || filter.paths.any (· <:+: event.data))

/-! ## The replay buffer -/

def bufferMaxEvents : Nat := 10000

def bufferMaxAgeSecs : Int := 3600

/-- An instant, in nanoseconds. -/
abbrev Instant := Int

/-- `EventBuffer::push` at `now`; `parse` is `parse_from_rfc3339`. -/
def bufferPush (parse : Text → Option Instant) (now : Instant) (events : List BroadcastEvent) (event : BroadcastEvent) :
    List BroadcastEvent :=
  let events := events ++ [event]
  let events := events.drop (events.length - bufferMaxEvents)
  events.dropWhile (fun front => (parse front.timestamp).any (· < now - bufferMaxAgeSecs * 10 ^ 9))

/-- `EventBuffer::events_since`; the sum wraps. -/
def eventsSince (events : List BroadcastEvent) (lastEventId : Nat) : Bool × List BroadcastEvent :=
  (match events.head? with
    | none => decide (0 < lastEventId)
    | some oldest => decide ((lastEventId + 1) % 2 ^ 64 < oldest.eventId),
   events.filter (fun e => lastEventId < e.eventId))

/-! ## The tasks -/

/-- The task that reads the client's messages. -/
inductive Recv where
  /-- The client has not connected again. -/
  | away
  | waiting
  | replaying (events : List BroadcastEvent)
  | replayed
  /-- The filter is installed. -/
  | subscribed
deriving DecidableEq, Repr

structure Hub where
  eventSeq : Nat
  /-- All events that have drawn an id. -/
  history : List BroadcastEvent
  /-- Those that have not entered the buffer. -/
  assigned : List BroadcastEvent
  /-- Those that have. -/
  pushed : List BroadcastEvent
  /-- Of these, those that have not been sent on the channel. -/
  entered : List BroadcastEvent
  buffer : List BroadcastEvent
  recv : Recv
  /-- What the channel holds for the client. -/
  queue : List BroadcastEvent
  /-- What the buffer gave for the replay. -/
  missed : List BroadcastEvent
  /-- The client has been sent `buffer_exceeded`. -/
  exceeded : Bool
  sent : List BroadcastEvent

/-- The server has started. -/
def Hub.empty : Hub := ⟨0, [], [], [], [], [], .away, [], [], false, []⟩

inductive Step where
  | assign (event : BroadcastEvent)
  | push (id : Nat) (now : Instant)
  | send (id : Nat)
  | connect
  | subscribe
  /-- The next event of the replay, or its end. -/
  | replay
  | install
  /-- The next event of the channel. -/
  | deliver
deriving DecidableEq, Repr

section

variable (parse : Text → Option Instant) (keep : BroadcastEvent → Bool) (n : Nat)

def step : Step → Hub → Option Hub
  | .assign event, s =>
    if s.eventSeq + 1 < 2 ^ 64 then
      some { s with eventSeq := s.eventSeq + 1, history := s.history ++ [{ event with eventId := s.eventSeq + 1 }],
                    assigned := s.assigned ++ [{ event with eventId := s.eventSeq + 1 }] }
    else none
  | .push id now, s =>
    (s.assigned.find? (fun e => e.eventId = id)).map fun e =>
      { s with assigned := s.assigned.filter (fun e => e.eventId ≠ id), pushed := s.pushed ++ [e],
               entered := s.entered ++ [e], buffer := bufferPush parse now s.buffer e }
  | .send id, s =>
    (s.entered.find? (fun e => e.eventId = id)).map fun e =>
      { s with entered := s.entered.filter (fun e => e.eventId ≠ id),
               queue := if s.recv = .away then s.queue else s.queue ++ [e] }
  | .connect, s => if s.recv = .away then some { s with recv := .waiting } else none
  | .subscribe, s =>
    if s.recv = .waiting then
      some { s with recv := .replaying (eventsSince s.buffer n).2, missed := (eventsSince s.buffer n).2,
                    exceeded := s.exceeded || (eventsSince s.buffer n).1 }
    else none
  | .replay, s =>
    match s.recv with
    | .replaying (e :: rest) => some { s with recv := .replaying rest, sent := if keep e then s.sent ++ [e] else s.sent }
    | .replaying [] => some { s with recv := .replayed }
    | _ => none
  | .install, s => if s.recv = .replayed then some { s with recv := .subscribed } else none
  | .deliver, s =>
    match s.queue with
    | [] => none
    | e :: rest =>
      -- without a filter the event is dropped
      some { s with queue := rest, sent := if s.recv = .subscribed ∧ keep e then s.sent ++ [e] else s.sent }

/-! ## What the client is to get -/

/-- The event matches, and comes after the client's last one. -/
def due (e : BroadcastEvent) : Bool := keep e && decide (n < e.eventId)

/-- All broadcasts are through, and the client has taken what they sent. -/
structure Hub.Done (s : Hub) : Prop where
  recv : s.recv = .subscribed
  assigned : s.assigned = []
  entered : s.entered = []
  queue : s.queue = []

/-- Each event that is due is received once, in the order of the ids. -/
structure Continuous (s : Hub) : Prop where
  ordered : (s.sent.filter (due keep n)).Pairwise (fun a b => a.eventId < b.eventId)
  complete : s.Done → ∀ e ∈ s.history, due keep n e = true → e ∈ s.sent

/-! ## The condition -/

/-- The step does not reach one of the gaps of the protocol: events enter the buffer, and those that are due go to the
client's channel, in the order of their ids; a buffer that a client with `n = 0` finds empty has had no event for it; and an
event that is due and that the client's loop takes from the channel was replayed when the filter is not there yet, and was not
when it is.  A client that has been told to synchronise is beyond them. -/
def Meets : Step → Hub → Prop
  | .push id _, s => s.exceeded = false → ∀ e ∈ s.assigned, id ≤ e.eventId
  | .send id, s => s.exceeded = false → s.recv ≠ .away → ∀ e ∈ s.entered, e.eventId = id → due keep n e = true →
    ∀ e' ∈ s.entered, due keep n e' = true → id ≤ e'.eventId
  | .subscribe, s => n = 0 → s.buffer = [] → ∀ e ∈ s.pushed, keep e = false
  | .deliver, s => s.exceeded = false → ∀ e ∈ s.queue.head?, due keep n e = true →
    if s.recv = .subscribed then e ∉ s.missed else s.recv = .waiting ∨ e ∈ s.missed
  | _, _ => True

end

instance decidableMeets (keep : BroadcastEvent → Bool) (n : Nat) : (a : Step) → (s : Hub) → Decidable (Meets keep n a s)
  | .push id _, s => inferInstanceAs (Decidable (s.exceeded = false → ∀ e ∈ s.assigned, id ≤ e.eventId))
  | .send id, s => inferInstanceAs (Decidable (s.exceeded = false → s.recv ≠ .away → ∀ e ∈ s.entered, e.eventId = id →
      due keep n e = true → ∀ e' ∈ s.entered, due keep n e' = true → id ≤ e'.eventId))
  | .subscribe, s => inferInstanceAs (Decidable (n = 0 → s.buffer = [] → ∀ e ∈ s.pushed, keep e = false))
  | .deliver, s => inferInstanceAs (Decidable (s.exceeded = false → ∀ e ∈ s.queue.head?, due keep n e = true →
      if s.recv = .subscribed then e ∉ s.missed else s.recv = .waiting ∨ e ∈ s.missed))
  | .assign _, _ => isTrue trivial
  | .connect, _ => isTrue trivial
  | .replay, _ => isTrue trivial
  | .install, _ => isTrue trivial

/-! ## The invariant -/

variable {parse : Text → Option Instant} {keep : BroadcastEvent → Bool} {n : Nat} {s s' : Hub}

def Recv.hand : Recv → List BroadcastEvent
  | .replaying events => events
  | _ => []

/-- The events that are due and are on the channel, or on the way to it. -/
def Hub.live (keep : BroadcastEvent → Bool) (n : Nat) (s : Hub) : List BroadcastEvent :=
  (s.queue ++ s.entered).filter (due keep n)

/-- Events enter the buffer in the order of their ids. -/
structure Queued (s : Hub) : Prop where
  ordered : s.history.Pairwise (fun a b => a.eventId < b.eventId)
  known : ∀ e ∈ s.history, e.eventId ≤ s.eventSeq
  split : s.history = s.pushed ++ s.assigned
  buffered : s.buffer <:+ s.pushed
  entered : s.entered.Sublist s.pushed

/-- Before the replay. -/
structure Ahead (keep : BroadcastEvent → Bool) (n : Nat) (s : Hub) : Prop where
  sent : s.sent = []
  live : ∀ e ∈ s.live keep n, e ∈ s.pushed
  queue : s.recv = .away → s.queue = []

/-- After it: of the events that have entered the buffer, `missed` are the replay's, `got` have been sent from the channel,
and `rest` are there; what is before `rest` on the channel was replayed. -/
def Behind (keep : BroadcastEvent → Bool) (n : Nat) (s : Hub) : Prop :=
  ∃ again rest got : List BroadcastEvent,
    s.live keep n = again ++ rest ∧ s.pushed.filter (due keep n) = s.missed.filter (due keep n) ++ got ++ rest ∧
    (∀ e ∈ again, e ∈ s.missed) ∧
    s.sent.filter (due keep n) ++ s.recv.hand.filter (due keep n) = s.missed.filter (due keep n) ++ got ∧
    (s.recv ≠ .subscribed → got = [])

structure Sound (keep : BroadcastEvent → Bool) (n : Nat) (s : Hub) : Prop where
  queued : Queued s
  ahead : s.recv = .away ∨ s.recv = .waiting → Ahead keep n s
  behind : s.recv ≠ .away → s.recv ≠ .waiting → Behind keep n s

theorem Queued.pushed_ordered (h : Queued s) : s.pushed.Pairwise (fun a b => a.eventId < b.eventId) := by
  have := h.ordered
  rw [h.split] at this
  exact (List.pairwise_append.1 this).1

theorem Sound.ordered (h : Sound keep n s) :
    (s.sent.filter (due keep n)).Pairwise (fun a b => a.eventId < b.eventId) := by
  by_cases hbefore : s.recv = .away ∨ s.recv = .waiting
  · rw [(h.ahead hbefore).sent]
    exact List.Pairwise.nil
  · rw [not_or] at hbefore
    obtain ⟨again, rest, got, -, hpushed, -, hsent, -⟩ := h.behind hbefore.1 hbefore.2
    -- what has been sent is the beginning of what has entered the buffer
    have hordered := h.queued.pushed_ordered.filter (due keep n)
    rw [hpushed, ← hsent, List.append_assoc] at hordered
    exact (List.pairwise_append.1 hordered).1

theorem Sound.continuous (h : Sound keep n s) : Continuous keep n s where
  ordered := h.ordered
  complete := by
    intro hdone e he hdue
    obtain ⟨again, rest, got, hlive, hpushed, -, hsent, -⟩ :=
      h.behind (by rw [hdone.recv]; exact fun he => nomatch he) (by rw [hdone.recv]; exact fun he => nomatch he)
    have hrest : rest = [] := by
      unfold Hub.live at hlive
      rw [hdone.queue, hdone.entered] at hlive
      exact (List.append_eq_nil_iff.1 hlive.symm).2
    rw [h.queued.split, hdone.assigned, List.append_nil] at he
    have hmem : e ∈ s.pushed.filter (due keep n) := List.mem_filter.2 ⟨he, hdue⟩
    rw [hpushed, hrest, List.append_nil, ← hsent, hdone.recv] at hmem
    have hin : e ∈ s.sent.filter (due keep n) := by simpa [Recv.hand] using hmem
    exact (List.mem_filter.1 hin).1

theorem sound_empty : Sound keep n Hub.empty where
  queued := ⟨List.Pairwise.nil, fun _ he => absurd he List.not_mem_nil, rfl, List.suffix_refl _, List.Sublist.refl _⟩
  ahead _ := ⟨rfl, fun _ he => absurd he List.not_mem_nil, fun _ => rfl⟩
  behind haway _ := absurd rfl haway

/-! ## Steps -/

theorem eq_cons_of_least {l : List BroadcastEvent} (hordered : l.Pairwise (fun a b => a.eventId < b.eventId))
    {e : BroadcastEvent} (he : e ∈ l) (hle : ∀ x ∈ l, e.eventId ≤ x.eventId) :
    l = e :: l.filter (fun x => x.eventId ≠ e.eventId) := by
  cases l with
  | nil => exact absurd he List.not_mem_nil
  | cons a l =>
    obtain ⟨hhead, -⟩ := List.pairwise_cons.1 hordered
    obtain rfl : e = a := by
      rcases List.mem_cons.1 he with rfl | he
      · rfl
      · exact absurd (hle a List.mem_cons_self) (Nat.not_le.2 (hhead e he))
    have hrest : l.filter (fun x => x.eventId ≠ e.eventId) = l :=
      List.filter_eq_self.2 fun x hx => decide_eq_true (hhead x hx).ne'
    rw [List.filter_cons_of_neg (by simp), hrest]

theorem eq_of_eventId {l : List BroadcastEvent} (hordered : l.Pairwise (fun a b => a.eventId < b.eventId))
    {e x : BroadcastEvent} (he : e ∈ l) (hx : x ∈ l) (hid : x.eventId = e.eventId) : x = e := by
  have hnodup : (l.map BroadcastEvent.eventId).Nodup := List.pairwise_map.2 (hordered.imp fun hlt => hlt.ne)
  exact List.inj_on_of_nodup_map hnodup hx he hid

theorem live_send {l : List BroadcastEvent} (hordered : l.Pairwise (fun a b => a.eventId < b.eventId)) {e : BroadcastEvent}
    (he : e ∈ l) (hturn : due keep n e = true → ∀ x ∈ l, due keep n x = true → e.eventId ≤ x.eventId) :
    (e :: l.filter (fun x => x.eventId ≠ e.eventId)).filter (due keep n) = l.filter (due keep n) := by
  by_cases hdue : due keep n e = true
  · have hfirst := eq_cons_of_least (hordered.filter (due keep n)) (List.mem_filter.2 ⟨he, hdue⟩) fun x hx =>
      hturn hdue x (List.mem_filter.1 hx).1 (List.mem_filter.1 hx).2
    rw [List.filter_cons_of_pos hdue, List.filter_comm]
    exact hfirst.symm
  · rw [List.filter_cons_of_neg hdue, List.filter_filter]
    refine List.filter_congr fun x hx => ?_
    by_cases hid : x.eventId = e.eventId
    · rw [eq_of_eventId hordered he hx hid]
      simpa using hdue
    · simp [hid]

theorem bufferPush_suffix (now : Instant) (events : List BroadcastEvent) (e : BroadcastEvent) :
    bufferPush parse now events e <:+ events ++ [e] :=
  (List.dropWhile_suffix _).trans (List.drop_suffix _ _)

-- the unifier is not to count to `bufferMaxEvents`
attribute [local irreducible] bufferPush

theorem Queued.assign (h : Queued s) {e : BroadcastEvent} (hid : e.eventId = s.eventSeq + 1) :
    Queued { s with eventSeq := s.eventSeq + 1, history := s.history ++ [e], assigned := s.assigned ++ [e] } := by
  refine ⟨?_, fun x hx => ?_, ?_, h.buffered, h.entered⟩
  · refine List.pairwise_append.2 ⟨h.ordered, List.pairwise_singleton _ _, fun a ha b hb => ?_⟩
    rw [List.mem_singleton.1 hb, hid]
    exact Nat.lt_succ_of_le (h.known a ha)
  · rcases List.mem_append.1 hx with hx | hx
    · exact Nat.le_succ_of_le (h.known x hx)
    · obtain rfl := List.mem_singleton.1 hx
      exact hid.le
  · show s.history ++ [e] = s.pushed ++ (s.assigned ++ [e])
    rw [h.split, List.append_assoc]

theorem Queued.push (h : Queued s) {e : BroadcastEvent} {now : Instant} (he : e ∈ s.assigned)
    (hturn : ∀ x ∈ s.assigned, e.eventId ≤ x.eventId) :
    Queued { s with assigned := s.assigned.filter (fun x => x.eventId ≠ e.eventId), pushed := s.pushed ++ [e],
                    entered := s.entered ++ [e], buffer := bufferPush parse now s.buffer e } := by
  have hassigned : s.assigned.Pairwise (fun a b => a.eventId < b.eventId) := by
    have := h.ordered
    rw [h.split] at this
    exact (List.pairwise_append.1 this).2.1
  have hfirst := eq_cons_of_least hassigned he hturn
  refine ⟨h.ordered, h.known, ?_, ?_, h.entered.append (List.Sublist.refl _)⟩
  · show s.history = s.pushed ++ [e] ++ s.assigned.filter (fun x => x.eventId ≠ e.eventId)
    rw [List.append_assoc, List.singleton_append, ← hfirst]
    exact h.split
  · show bufferPush parse now s.buffer e <:+ s.pushed ++ [e]
    obtain ⟨evicted, hevicted⟩ := h.buffered
    have hsuffix : s.buffer ++ [e] <:+ s.pushed ++ [e] := ⟨evicted, by rw [← List.append_assoc, hevicted]⟩
    exact (bufferPush_suffix now s.buffer e).trans hsuffix

theorem Queued.same (h : Queued s) (hseq : s'.eventSeq = s.eventSeq) (hhistory : s'.history = s.history)
    (hassigned : s'.assigned = s.assigned) (hpushed : s'.pushed = s.pushed) (hbuffer : s'.buffer = s.buffer)
    (hentered : s'.entered.Sublist s.entered) : Queued s' := by
  constructor
  · rw [hhistory]
    exact h.ordered
  · rw [hhistory, hseq]
    exact h.known
  · rw [hhistory, hpushed, hassigned]
    exact h.split
  · rw [hbuffer, hpushed]
    exact h.buffered
  · rw [hpushed]
    exact hentered.trans h.entered

/-- A buffer that is not exceeded has every event that is due. -/
theorem due_of_eventsSince (h : Queued s) (hnot : (eventsSince s.buffer n).1 = false)
    (hempty : n = 0 → s.buffer = [] → ∀ e ∈ s.pushed, keep e = false) :
    s.pushed.filter (due keep n) = (eventsSince s.buffer n).2.filter (due keep n) := by
  have hmissed : (eventsSince s.buffer n).2.filter (due keep n) = s.buffer.filter (due keep n) := by
    show (s.buffer.filter _).filter _ = _
    rw [List.filter_filter]
    refine List.filter_congr fun e _ => ?_
    unfold due
    cases keep e <;> simp
  obtain ⟨evicted, hevicted⟩ := h.buffered
  have hordered := h.pushed_ordered
  rw [← hevicted] at hordered
  suffices hgone : evicted.filter (due keep n) = [] by
    rw [hmissed, ← hevicted, List.filter_append, hgone]
    rfl
  refine List.filter_eq_nil_iff.2 fun e he hdue => ?_
  have hpushed : e ∈ s.pushed := by rw [← hevicted]; exact List.mem_append_left _ he
  obtain ⟨hkeep, hafter⟩ : keep e = true ∧ n < e.eventId := by simpa [due] using hdue
  unfold eventsSince at hnot
  cases hbuffer : s.buffer with
  | nil =>
    rw [hbuffer] at hnot
    have hzero : n = 0 := by simpa using hnot
    rw [hempty hzero hbuffer e hpushed] at hkeep
    cases hkeep
  | cons oldest rest =>
    rw [hbuffer] at hnot hordered
    have hle : oldest.eventId ≤ (n + 1) % 2 ^ 64 := by simpa using hnot
    have hlt : e.eventId < oldest.eventId := (List.pairwise_append.1 hordered).2.2 e he oldest List.mem_cons_self
    have hmod : (n + 1) % 2 ^ 64 ≤ n + 1 := Nat.mod_le _ _
    omega

/-- The client and its tasks stay. -/
structure Beside (s s' : Hub) : Prop where
  recv : s'.recv = s.recv
  missed : s'.missed = s.missed
  sent : s'.sent = s.sent

/-- A broadcast goes on: what has entered the buffer is on the way to the channel. -/
theorem Sound.beside (h : Sound keep n s) (hb : Beside s s') (hqueued : Queued s') {more : List BroadcastEvent}
    (hpushed : s'.pushed = s.pushed ++ more)
    (haway : s.recv = .away → s'.queue = s.queue ∧ ∀ e ∈ s'.entered, e ∈ s.entered ++ more)
    (hlive : s.recv ≠ .away → s'.live keep n = s.live keep n ++ more.filter (due keep n)) : Sound keep n s' where
  queued := hqueued
  ahead hrecv := by
    rw [hb.recv] at hrecv
    have hahead := h.ahead hrecv
    refine ⟨hb.sent.trans hahead.sent, fun e he => ?_, fun hr => ?_⟩
    · rw [hpushed]
      by_cases hr : s.recv = .away
      · obtain ⟨hqueue, hentered⟩ := haway hr
        have he' := (List.mem_filter.1 he).1
        rw [hqueue, hahead.queue hr, List.nil_append] at he'
        rcases List.mem_append.1 (hentered e he') with hin | hin
        · exact List.mem_append_left _ (h.queued.entered.subset hin)
        · exact List.mem_append_right _ hin
      · rw [hlive hr] at he
        rcases List.mem_append.1 he with he | he
        · exact List.mem_append_left _ (hahead.live e he)
        · exact List.mem_append_right _ (List.mem_filter.1 he).1
    · rw [hb.recv] at hr
      exact (haway hr).1.trans (hahead.queue hr)
  behind hr hr' := by
    rw [hb.recv] at hr hr'
    obtain ⟨again, rest, got, hl, hp, hagain, hsent, hgot⟩ := h.behind hr hr'
    refine ⟨again, rest ++ more.filter (due keep n), got, ?_, ?_, ?_, ?_, ?_⟩
    · rw [hlive hr, hl, List.append_assoc]
    · rw [hpushed, List.filter_append, hp, hb.missed, List.append_assoc]
    · rw [hb.missed]
      exact hagain
    · rw [hb.sent, hb.recv, hb.missed]
      exact hsent
    · rw [hb.recv]
      exact hgot

theorem Sound.assign (h : Sound keep n s) {event : BroadcastEvent} (hs : step parse keep n (.assign event) s = some s') :
    Sound keep n s' := by
  unfold step at hs
  dsimp only at hs
  split at hs
  · obtain rfl := Option.some.inj hs
    refine h.beside ⟨rfl, rfl, rfl⟩ (h.queued.assign rfl) (List.append_nil _).symm (fun _ => ⟨rfl, fun e he => ?_⟩) fun _ => ?_
    · exact List.mem_append_left _ he
    · exact (List.append_nil _).symm
  · cases hs

theorem Sound.push (h : Sound keep n s) {id : Nat} {now : Instant} (hnot : s.exceeded = false)
    (hmeets : Meets keep n (.push id now) s) (hs : step parse keep n (.push id now) s = some s') : Sound keep n s' := by
  obtain ⟨e, hfind, rfl⟩ := Option.map_eq_some_iff.1 hs
  have he : e ∈ s.assigned := List.mem_of_find?_eq_some hfind
  obtain rfl : e.eventId = id := by simpa using List.find?_some hfind
  refine h.beside ⟨rfl, rfl, rfl⟩ (h.queued.push he (hmeets hnot)) rfl (fun _ => ⟨rfl, fun x hx => hx⟩) fun _ => ?_
  show (s.queue ++ (s.entered ++ [e])).filter _ = _
  rw [← List.append_assoc, List.filter_append]
  rfl

theorem Sound.send (h : Sound keep n s) {id : Nat} (hnot : s.exceeded = false) (hmeets : Meets keep n (.send id) s)
    (hs : step parse keep n (.send id) s = some s') : Sound keep n s' := by
  obtain ⟨e, hfind, rfl⟩ := Option.map_eq_some_iff.1 hs
  have he : e ∈ s.entered := List.mem_of_find?_eq_some hfind
  obtain rfl : e.eventId = id := by simpa using List.find?_some hfind
  have hordered := h.queued.pushed_ordered.sublist h.queued.entered
  refine h.beside ⟨rfl, rfl, rfl⟩ (h.queued.same rfl rfl rfl rfl rfl List.filter_sublist) (List.append_nil _).symm
    (fun hr => ⟨if_pos hr, fun x hx => ?_⟩) fun hr => ?_
  · exact List.mem_append_left _ (List.mem_filter.1 hx).1
  · show ((if s.recv = .away then s.queue else s.queue ++ [e]) ++ s.entered.filter _).filter _ = _ ++ []
    rw [if_neg hr, List.append_assoc, List.singleton_append, List.filter_append,
      live_send hordered he (hmeets hnot hr e he rfl), ← List.filter_append, List.append_nil]
    rfl

theorem Sound.connect (h : Sound keep n s) (hs : step parse keep n .connect s = some s') : Sound keep n s' := by
  unfold step at hs
  dsimp only at hs
  split at hs
  · rename_i haway
    obtain rfl := Option.some.inj hs
    have hahead := h.ahead (.inl haway)
    exact ⟨h.queued.same rfl rfl rfl rfl rfl (List.Sublist.refl _), fun _ => ⟨hahead.sent, hahead.live, fun hr => nomatch hr⟩,
      fun _ hr => absurd rfl hr⟩
  · cases hs

/-- The replay reads the buffer. -/
theorem Sound.subscribe (h : Sound keep n s) (hmeets : Meets keep n .subscribe s) (hnot : s'.exceeded = false)
    (hs : step parse keep n .subscribe s = some s') : Sound keep n s' := by
  unfold step at hs
  dsimp only at hs
  split at hs
  · rename_i hwaiting
    obtain rfl := Option.some.inj hs
    have hahead := h.ahead (.inr hwaiting)
    have hfull := due_of_eventsSince h.queued (Bool.or_eq_false_iff.1 hnot).2 hmeets
    refine ⟨h.queued.same rfl rfl rfl rfl rfl (List.Sublist.refl _), fun hr => ?_, fun _ _ => ?_⟩
    · rcases hr with hr | hr <;> cases hr
    · refine ⟨s.live keep n, [], [], (List.append_nil _).symm, ?_, fun e he => ?_, ?_, fun _ => rfl⟩
      · rw [List.append_nil, List.append_nil]
        exact hfull
      · have hin : e ∈ s.pushed.filter (due keep n) := List.mem_filter.2 ⟨hahead.live e he, (List.mem_filter.1 he).2⟩
        rw [hfull] at hin
        exact (List.mem_filter.1 hin).1
      · show s.sent.filter _ ++ _ = _
        rw [hahead.sent, List.append_nil]
        rfl
  · cases hs

theorem Sound.onward (h : Sound keep n s) (hqueued : Queued s') (hlive : s'.live keep n = s.live keep n)
    (hpushed : s'.pushed = s.pushed) (hmissed : s'.missed = s.missed)
    (hsent : s'.sent.filter (due keep n) ++ s'.recv.hand.filter (due keep n) =
      s.sent.filter (due keep n) ++ s.recv.hand.filter (due keep n))
    (hwas : s.recv ≠ .away ∧ s.recv ≠ .waiting ∧ s.recv ≠ .subscribed) (hnow : s'.recv ≠ .away ∧ s'.recv ≠ .waiting) :
    Sound keep n s' where
  queued := hqueued
  ahead hr := absurd hr (not_or.2 hnow)
  behind _ _ := by
    obtain ⟨again, rest, got, hl, hp, hagain, hs, hgot⟩ := h.behind hwas.1 hwas.2.1
    refine ⟨again, rest, got, hlive.trans hl, ?_, ?_, ?_, fun _ => hgot hwas.2.2⟩
    · rw [hpushed, hmissed]
      exact hp
    · rw [hmissed]
      exact hagain
    · rw [hsent, hmissed]
      exact hs

theorem Sound.replay (h : Sound keep n s) (hs : step parse keep n .replay s = some s') : Sound keep n s' := by
  unfold step at hs
  dsimp only at hs
  split at hs
  · rename_i e rest hrecv
    obtain rfl := Option.some.inj hs
    refine h.onward (h.queued.same rfl rfl rfl rfl rfl (List.Sublist.refl _)) rfl rfl rfl ?_ (by simp [hrecv]) (by simp)
    show (if keep e then s.sent ++ [e] else s.sent).filter _ ++ rest.filter _ = _ ++ s.recv.hand.filter _
    rw [hrecv]
    cases hkeep : keep e <;> simp [Recv.hand, List.filter_cons, due, hkeep]
    split <;> simp
  · rename_i hrecv
    obtain rfl := Option.some.inj hs
    refine h.onward (h.queued.same rfl rfl rfl rfl rfl (List.Sublist.refl _)) rfl rfl rfl ?_ (by simp [hrecv]) (by simp)
    rw [hrecv]
    rfl
  · cases hs

theorem Sound.install (h : Sound keep n s) (hs : step parse keep n .install s = some s') : Sound keep n s' := by
  unfold step at hs
  dsimp only at hs
  split at hs
  · rename_i hrecv
    obtain rfl := Option.some.inj hs
    refine h.onward (h.queued.same rfl rfl rfl rfl rfl (List.Sublist.refl _)) rfl rfl rfl ?_ (by simp [hrecv]) (by simp)
    rw [hrecv]
    rfl
  · cases hs

/-- An event that is not due is taken from the channel. -/
theorem Behind.other (h : Behind keep n s) (hlive : s'.live keep n = s.live keep n) (hpushed : s'.pushed = s.pushed)
    (hmissed : s'.missed = s.missed) (hrecv : s'.recv = s.recv)
    (hsent : s'.sent.filter (due keep n) = s.sent.filter (due keep n)) : Behind keep n s' := by
  unfold Behind
  rw [hlive, hpushed, hmissed, hrecv, hsent]
  exact h

theorem Behind.deliver (h : Behind keep n s) (hqueued : Queued s) {e : BroadcastEvent} {rest : List BroadcastEvent}
    (hqueue : s.queue = e :: rest) (hdue : due keep n e = true)
    (hmeets : if s.recv = .subscribed then e ∉ s.missed else e ∈ s.missed) :
    Behind keep n { s with queue := rest, sent := if s.recv = .subscribed ∧ keep e then s.sent ++ [e] else s.sent } := by
  obtain ⟨again, fresh, got, hl, hp, hagain, hsent, hgot⟩ := h
  have hlive : s.live keep n = e :: (rest ++ s.entered).filter (due keep n) := by
    unfold Hub.live
    rw [hqueue, List.cons_append, List.filter_cons_of_pos hdue]
  rw [hlive] at hl
  by_cases hrecv : s.recv = .subscribed
  · rw [if_pos hrecv] at hmeets
    have hkeep : keep e = true := (Bool.and_eq_true_iff.1 hdue).1
    cases again with
    | cons a again =>
      obtain rfl : e = a := (List.cons.inj hl).1
      exact absurd (hagain e List.mem_cons_self) hmeets
    | nil =>
      rw [List.nil_append] at hl
      rw [← hl] at hp
      refine ⟨[], _, got ++ [e], (List.nil_append _).symm, ?_, fun x hx => absurd hx List.not_mem_nil, ?_,
        fun hne => absurd hrecv hne⟩
      · show s.pushed.filter _ = _ ++ (got ++ [e]) ++ _
        rw [hp, List.append_assoc, List.append_assoc, List.append_assoc]
        rfl
      · show (if s.recv = .subscribed ∧ keep e then s.sent ++ [e] else s.sent).filter _ ++ s.recv.hand.filter _ = _
        rw [hrecv] at hsent ⊢
        rw [if_pos ⟨rfl, hkeep⟩, List.filter_append, ← List.append_assoc, ← hsent]
        simp [Recv.hand, hdue]
  · rw [if_neg hrecv] at hmeets
    cases again with
    | cons a again =>
      obtain ⟨-, hl⟩ := List.cons.inj hl
      refine ⟨again, fresh, got, hl, hp, fun x hx => hagain x (List.mem_cons_of_mem a hx), ?_, hgot⟩
      rw [← hsent]
      show (if s.recv = .subscribed ∧ keep e then s.sent ++ [e] else s.sent).filter _ ++ _ = _
      rw [if_neg fun hboth => hrecv hboth.1]
    | nil =>
      -- an event that has entered the buffer after the replay is not one of the replay's
      have hordered := hqueued.pushed_ordered.filter (due keep n)
      rw [hp, List.append_assoc] at hordered
      rw [List.nil_append] at hl
      have hin : e ∈ got ++ fresh := List.mem_append_right _ (hl ▸ List.mem_cons_self)
      exact absurd ((List.pairwise_append.1 hordered).2.2 e (List.mem_filter.2 ⟨hmeets, hdue⟩) e hin) (lt_irrefl _)

theorem Sound.deliver (h : Sound keep n s) (hnot : s.exceeded = false) (hmeets : Meets keep n .deliver s)
    (hs : step parse keep n .deliver s = some s') : Sound keep n s' := by
  unfold step at hs
  dsimp only at hs
  split at hs
  · cases hs
  · rename_i e rest hqueue
    obtain rfl := Option.some.inj hs
    refine ⟨h.queued.same rfl rfl rfl rfl rfl (List.Sublist.refl _), fun hr => ?_, fun hr hr' => ?_⟩
    · have hahead := h.ahead hr
      refine ⟨?_, fun x hx => hahead.live x ?_, fun haway => ?_⟩
      · show (if s.recv = .subscribed ∧ keep e then _ else s.sent) = []
        rw [if_neg (by rintro ⟨hsub, -⟩; rcases hr with hr | hr <;> exact nomatch hsub.symm.trans hr)]
        exact hahead.sent
      · obtain ⟨hmem, hdue⟩ := List.mem_filter.1 hx
        refine List.mem_filter.2 ⟨?_, hdue⟩
        rw [hqueue]
        exact List.mem_cons_of_mem e hmem
      · have hnone := hahead.queue haway
        rw [hqueue] at hnone
        cases hnone
    · have hbehind := h.behind hr hr'
      by_cases hdue : due keep n e = true
      · have hcond := hmeets hnot e (by rw [hqueue]; rfl) hdue
        refine hbehind.deliver h.queued hqueue hdue ?_
        split
        · rwa [if_pos ‹_›] at hcond
        · rw [if_neg ‹_›] at hcond
          exact hcond.resolve_left hr'
      · refine hbehind.other ?_ rfl rfl rfl ?_
        · unfold Hub.live
          rw [hqueue, List.cons_append, List.filter_cons_of_neg hdue]
        · show (if _ then s.sent ++ [e] else s.sent).filter _ = _
          split
          · rw [List.filter_append, List.filter_cons_of_neg hdue, List.filter_nil, List.append_nil]
          · rfl

theorem exceeded_mono {a : Step} (hs : step parse keep n a s = some s') (hnot : s'.exceeded = false) : s.exceeded = false := by
  cases a with
  | push id now =>
    obtain ⟨e, -, rfl⟩ := Option.map_eq_some_iff.1 hs
    exact hnot
  | send id =>
    obtain ⟨e, -, rfl⟩ := Option.map_eq_some_iff.1 hs
    exact hnot
  | subscribe =>
    unfold step at hs
    dsimp only at hs
    split at hs
    · obtain rfl := Option.some.inj hs
      exact (Bool.or_eq_false_iff.1 hnot).1
    · cases hs
  | assign event | connect | replay | install | deliver =>
    unfold step at hs
    dsimp only at hs
    split at hs <;> cases hs <;> exact hnot

/-- **Every step that meets its condition keeps the invariant**, until the client is told to synchronise. -/
theorem sound_step {a : Step} (h : s.exceeded = true ∨ Sound keep n s) (hmeets : Meets keep n a s)
    (hs : step parse keep n a s = some s') : s'.exceeded = true ∨ Sound keep n s' := by
  by_cases hend : s'.exceeded = true
  · exact .inl hend
  · have hnot' : s'.exceeded = false := Bool.eq_false_iff.2 hend
    have hnot := exceeded_mono hs hnot'
    have hsound := h.resolve_left (by rw [hnot]; exact Bool.false_ne_true)
    right
    cases a with
    | assign event => exact hsound.assign hs
    | push id now => exact hsound.push hnot hmeets hs
    | send id => exact hsound.send hnot hmeets hs
    | connect => exact hsound.connect hs
    | subscribe => exact hsound.subscribe hmeets hnot' hs
    | replay => exact hsound.replay hs
    | install => exact hsound.install hs
    | deliver => exact hsound.deliver hnot hmeets hs

/-- **Where no step reaches a gap, nothing is lost or repeated across a reconnect**: the client has been told that the buffer
is exceeded, or it receives every event after `n` that matches once, in the order of the ids. -/
theorem reconnect_continuous (parse : Text → Option Instant) (sub : SubscriptionFilter) (n : Nat) {l : List (Turn Step Hub)}
    (hran : Ran (step parse (filterMatches sub) n) Hub.empty l s)
    (hmeets : ∀ t ∈ l, Meets (filterMatches sub) n t.action t.before) :
    s.exceeded = true ∨ Continuous (filterMatches sub) n s := by
  have hsound := hran.keeps (fun a r r' hr hmeets hs => sound_step hr hmeets hs) (.inr sound_empty) hmeets
  exact hsound.imp_right Sound.continuous

def epochText : Text := "1970-01-01T00:00:00+00:00".toList

/-- `parse_from_rfc3339` on the timestamps of these runs. -/
def parseEpoch (timestamp : Text) : Option Instant := if timestamp = epochText then some 0 else none

def discarded : BroadcastEvent := ⟨"WorkspaceDiscarded".toList, 0, none, epochText, "{}".toList⟩

/-- One event of before, one that enters the buffer before the client connects and is sent after it, one that comes live. -/
def acrossTheSeam : List Step :=
  [.assign discarded, .push 1 0, .send 1, .assign discarded, .push 2 0, .connect, .send 2, .subscribe, .replay, .deliver, .replay,
   .install, .assign discarded, .push 3 0, .send 3, .deliver]

theorem reconnect_continuous_acrossTheSeam :
    ∃ (l : List (Turn Step Hub)) (s : Hub), Ran (step parseEpoch (filterMatches everything) 1) Hub.empty l s ∧
      (∀ t ∈ l, Meets (filterMatches everything) 1 t.action t.before) ∧ s.Done ∧ s.exceeded = false ∧
      s.sent.map BroadcastEvent.eventId = [2, 3] ∧ (s.exceeded = true ∨ Continuous (filterMatches everything) 1 s) := by
  have hrun : ∃ r ∈ trace (step parseEpoch (filterMatches everything) 1) acrossTheSeam Hub.empty,
      (∀ t ∈ r.1, Meets (filterMatches everything) 1 t.action t.before) ∧ r.2.recv = .subscribed ∧ r.2.assigned = [] ∧
      r.2.entered = [] ∧ r.2.queue = [] ∧ r.2.exceeded = false ∧ r.2.sent.map BroadcastEvent.eventId = [2, 3] := by
    decide +kernel
  obtain ⟨r, htrace, hmeets, h₁, h₂, h₃, h₄, hnot, hsent⟩ := hrun
  have hran := ran_of_trace htrace
  exact ⟨r.1, r.2, hran, hmeets, ⟨h₁, h₂, h₃, h₄⟩, hnot, hsent, reconnect_continuous parseEpoch everything 1 hran hmeets⟩

/-- An event is broadcast between the replay and the installation of the filter. -/
def throughTheGap : List Step :=
  [.assign discarded, .push 1 0, .send 1, .connect, .subscribe, .replay, .assign discarded, .push 2 0, .send 2, .deliver, .install]

/-- **An event can be lost without a word**: the replay's buffer did not have it, and the loop dropped it for want of a
filter. -/
theorem gap_loses_event :
    ∃ (l : List (Turn Step Hub)) (s : Hub), Ran (step parseEpoch (filterMatches everything) 1) Hub.empty l s ∧ s.Done ∧
      s.history.map BroadcastEvent.eventId = [1, 2] ∧ s.sent = [] ∧
      ¬ (s.exceeded = true ∨ Continuous (filterMatches everything) 1 s) := by
  have hrun : ∃ r ∈ trace (step parseEpoch (filterMatches everything) 1) throughTheGap Hub.empty,
      (r.2.recv = .subscribed ∧ r.2.assigned = [] ∧ r.2.entered = [] ∧ r.2.queue = []) ∧
      r.2.history.map BroadcastEvent.eventId = [1, 2] ∧ r.2.sent = [] ∧ r.2.exceeded = false ∧
      ∃ e ∈ r.2.history, due (filterMatches everything) 1 e = true := by
    decide +kernel
  obtain ⟨r, htrace, ⟨h₁, h₂, h₃, h₄⟩, hids, hsent, hnot, e, he, hdue⟩ := hrun
  have hran := ran_of_trace htrace
  refine ⟨r.1, r.2, hran, ⟨h₁, h₂, h₃, h₄⟩, hids, hsent, ?_⟩
  rintro (hend | hcont)
  · rw [hnot] at hend
    cases hend
  · have hin := hcont.complete ⟨h₁, h₂, h₃, h₄⟩ e he hdue
    rw [hsent] at hin
    exact absurd hin List.not_mem_nil

end Broadcast
end Vai
