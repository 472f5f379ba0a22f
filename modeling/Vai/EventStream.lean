import Vai.Pull
import Vai.Steps
/-!
# EventStream — events over a WebSocket, from Postgres

`handle_ws_connection_pg` of `server/ws.rs`, with `append` and `query_since_id_filtered` of `storage/postgres/event.rs`:
one client of one repository, and the transactions that append events.

An event gets its id when its row is inserted and is seen, and notified, when the transaction commits, so ids may commit
out of order.  Two tasks serve the client.  One reads its subscription, replays what was missed since `last_event_id` and
then installs the filter; the other takes the notifications and sends what the query after the cursor `last_delivered_id`
gives.  Every step of a task that another one can see is a step here.  Pings, the texts of the messages and the
notifications of other repositories (which are passed over) are left out; a listener that is made again loses nothing.

`stream_delivers`: in a run whose steps meet `Meets`, every event that the client is to get is sent once.
-/
namespace Vai
namespace Ws

open Handlers Steps

/-! ## Filters -/

structure SubscriptionFilter where
  entities : List Text
  paths : List Text
  eventTypes : List Text
  workspaces : List Text
deriving DecidableEq, Repr

structure EventFilter where
  eventTypes : List Text
  workspaceIds : List Uuid
  entityIds : List Text
  paths : List Text
deriving DecidableEq, Repr

/-- `str::parse::<Uuid>`, and `payload::text`. -/
structure Texts where
  parseUuid : Text → Option Uuid
  payloadText : EventKind → Text

/-- Workspace ids that cannot be parsed are dropped. -/
def subscriptionToEventFilter (texts : Texts) (sub : SubscriptionFilter) : EventFilter :=
  ⟨sub.eventTypes, sub.workspaces.filterMap texts.parseUuid, sub.entities, sub.paths⟩

/-- SQL's `LIKE`, the pattern first. -/
def like : Text → Text → Bool
  | [], s => s.isEmpty
  | '%' :: p, s => s.tails.any (like p)
  | '_' :: p, s => !s.isEmpty && like p s.tail
  | '\\' :: c :: p, s => s.head? == some c && like p s.tail
  | c :: p, s => s.head? == some c && like p s.tail

def EventFilter.selects (texts : Texts) (f : EventFilter) (e : Event) : Bool :=
  (f.eventTypes.isEmpty || e.kind.eventType ∈ f.eventTypes) &&
    (f.workspaceIds.isEmpty || e.kind.workspaceId.any (· ∈ f.workspaceIds)) &&
    (f.entityIds.isEmpty || f.entityIds.any (fun x => like ('%' :: x ++ ['%']) (texts.payloadText e.kind))) &&
    (f.paths.isEmpty || f.paths.any (fun x => like ('%' :: x ++ ['%']) (texts.payloadText e.kind)))

/-- The events that a client with this subscription is to get. -/
def SubscriptionFilter.picks (texts : Texts) (sub : SubscriptionFilter) : Event → Bool :=
  (subscriptionToEventFilter texts sub).selects texts

/-- `n as i64`. -/
def asI64 (n : Nat) : Int := if n < 2 ^ 63 then n else (n : Int) - 2 ^ 64

/-! ## The tasks -/

/-- The task that reads the client's messages. -/
inductive Recv where
  | waiting
  /-- The replay still has these events to send; `max_id` so far. -/
  | replaying (events : List Event) (maxId : Nat)
  | replayed
  /-- The filter is installed. -/
  | subscribed
deriving DecidableEq, Repr

/-- The main loop. -/
inductive Loop where
  | idle
  /-- For this notification, these events are still to be sent. -/
  | delivering (notified : Nat) (events : List Event)
deriving DecidableEq, Repr

/-- The events of a repository, and one client. -/
structure Conn where
  nextId : Nat
  /-- Inserted, and not committed. -/
  inserted : List Event
  events : List Event
  /-- Those that had been committed when the client connected. -/
  older : List Event
  lastEventId : Option Nat
  lastDeliveredId : Nat
  recv : Recv
  loop : Loop
  listening : Bool
  notifications : List Nat
  sent : List Event

/-- A client has connected, and nothing else has happened. -/
structure Connected (s : Conn) : Prop where
  known : ∀ e ∈ s.events ++ s.inserted, e.id < s.nextId ∧ e.id < 2 ^ 63
  apart : ((s.events ++ s.inserted).map Event.id).Nodup
  older : s.older = s.events
  cursor : s.lastDeliveredId = s.lastEventId.getD 0
  recv : s.recv = .waiting
  loop : s.loop = .idle
  silent : s.listening = false ∧ s.notifications = [] ∧ s.sent = []

inductive Step where
  | insert (kind : EventKind)
  /-- Another repository takes an id. -/
  | foreign
  | commit (id : Nat)
  | abort (id : Nat)
  | listen
  | subscribe
  | replayFails
  /-- The next event of the replay, or its end. -/
  | replay
  | install
  | notify
  | notifyFails
  /-- The next event for a notification, or the end. -/
  | deliver
deriving DecidableEq, Repr

section

variable (keep : Event → Bool)

/-- `query_since_id_filtered`. -/
def query (since : Nat) (s : Conn) : List Event :=
  orderById (s.events.filter (fun e => asI64 since < e.id && keep e))

def step : Step → Conn → Option Conn
  | .insert kind, s =>
    if s.nextId < 2 ^ 63 then
      some { s with nextId := s.nextId + 1, inserted := s.inserted ++ [⟨s.nextId, kind⟩] }
    else none
  | .foreign, s => some { s with nextId := s.nextId + 1 }
  | .commit id, s =>
    (s.inserted.find? (fun e => e.id = id)).map fun e =>
      { s with inserted := s.inserted.filter (fun e => e.id ≠ id), events := s.events ++ [e],
               notifications := if s.listening then s.notifications ++ [id] else s.notifications }
  | .abort id, s => some { s with inserted := s.inserted.filter (fun e => e.id ≠ id) }
  | .listen, s => some { s with listening := true }
  | .subscribe, s =>
    match s.recv, s.lastEventId with
    | .waiting, some last => some { s with recv := .replaying (query keep last s) last }
    | .waiting, none => some { s with recv := .replayed }
    | _, _ => none
  | .replayFails, s => if s.recv = .waiting ∧ s.lastEventId.isSome then some { s with recv := .replayed } else none
  | .replay, s =>
    match s.recv with
    | .replaying (e :: rest) maxId => some { s with sent := s.sent ++ [e], recv := .replaying rest (max maxId e.id) }
    | .replaying [] maxId => some { s with lastDeliveredId := max s.lastDeliveredId maxId, recv := .replayed }
    | _ => none
  | .install, s => if s.recv = .replayed then some { s with recv := .subscribed } else none
  | .notify, s =>
    match s.loop, s.notifications with
    | .idle, n :: rest =>
      -- the client has to subscribe first; until then a notification is dropped
      if s.recv = .subscribed then
        some { s with notifications := rest, loop := .delivering n (query keep s.lastDeliveredId s) }
      else some { s with notifications := rest }
    | _, _ => none
  | .notifyFails, s =>
    match s.loop, s.notifications with
    | .idle, _ :: rest => if s.recv = .subscribed then some { s with notifications := rest } else none
    | _, _ => none
  | .deliver, s =>
    match s.loop with
    | .delivering n (e :: rest) => some { s with sent := s.sent ++ [e], loop := .delivering n rest }
    | .delivering n [] => some { s with lastDeliveredId := max s.lastDeliveredId n, loop := .idle }
    | .idle => none

end

/-! ## What the client is to get -/

/-- The event is not for this client: it is not after `last_event_id`, or was there before a client without one. -/
def Conn.Old (s : Conn) (e : Event) : Prop :=
  match s.lastEventId with
  | some last => e.id ≤ last
  | none => e ∈ s.older

/-- All notifications are processed. -/
structure Conn.Quiet (s : Conn) : Prop where
  listening : s.listening = true
  recv : s.recv = .subscribed
  loop : s.loop = .idle
  notifications : s.notifications = []

/-- Each event of the client's is sent once, and no other. -/
structure Delivers (keep : Event → Bool) (s : Conn) : Prop where
  once : ∀ e ∈ s.events, keep e = true → ¬ s.Old e → s.sent.count e ≤ 1
  fresh : ∀ e ∈ s.sent, ¬ s.Old e
  complete : s.Quiet → ∀ e ∈ s.events, keep e = true → ¬ s.Old e → e ∈ s.sent

/-! ## The condition -/

def Recv.reach : Recv → Nat
  | .replaying events maxId => events.foldl (fun m e => max m e.id) maxId
  | _ => 0

def Loop.reach : Loop → Nat
  | .delivering n _ => n
  | .idle => 0

/-- Where the cursor is, or gets to by what the tasks have in hand. -/
def Conn.reach (s : Conn) : Nat := max s.lastDeliveredId (max s.recv.reach s.loop.reach)

/-- The replay is still to come. -/
def Conn.ReplayAhead (s : Conn) : Prop := s.recv = .waiting ∧ s.lastEventId.isSome

/-- The step does not reach one of the gaps of the protocol: no event of the client's commits behind the cursor, or after
the replay and before the listener is there; when a notification is served, no event after it has been committed; none that
is dropped, and no query that fails, is for an event that the client has still to get. -/
def Meets (keep : Event → Bool) : Step → Conn → Prop
  | .commit id, s => ∀ e ∈ s.inserted, e.id = id → keep e = true → ¬ s.Old e →
    s.reach < id ∧ (s.listening = true ∨ s.ReplayAhead)
  | .replayFails, s => ∀ e ∈ s.events, keep e = true → ¬ s.Old e → e.id ∈ s.notifications
  | .notify, s => ∀ e ∈ s.events, keep e = true →
    if s.recv = .subscribed then s.lastDeliveredId < e.id → ∀ n ∈ s.notifications.head?, e.id ≤ n
    else s.notifications.head? = some e.id → ¬ s.Old e → e.id ≤ s.reach ∨ s.ReplayAhead
  | .notifyFails, s => ∀ e ∈ s.events, keep e = true → s.notifications.head? = some e.id → ¬ s.Old e → e.id ≤ s.reach
  | _, _ => True

instance decidableOld (s : Conn) (e : Event) : Decidable (s.Old e) :=
  decidable_of_iff (if s.lastEventId.isSome then e.id ≤ s.lastEventId.getD 0 else e ∈ s.older) (by
    unfold Conn.Old
    cases s.lastEventId <;> simp)

instance decidableReplayAhead (s : Conn) : Decidable s.ReplayAhead :=
  inferInstanceAs (Decidable (s.recv = .waiting ∧ s.lastEventId.isSome))

instance decidableMeets (keep : Event → Bool) : (a : Step) → (s : Conn) → Decidable (Meets keep a s)
  | .commit id, s => inferInstanceAs (Decidable (∀ e ∈ s.inserted, e.id = id → keep e = true → ¬ s.Old e →
      s.reach < id ∧ (s.listening = true ∨ s.ReplayAhead)))
  | .replayFails, s => inferInstanceAs (Decidable (∀ e ∈ s.events, keep e = true → ¬ s.Old e → e.id ∈ s.notifications))
  | .notify, s => inferInstanceAs (Decidable (∀ e ∈ s.events, keep e = true →
      if s.recv = .subscribed then s.lastDeliveredId < e.id → ∀ n ∈ s.notifications.head?, e.id ≤ n
      else s.notifications.head? = some e.id → ¬ s.Old e → e.id ≤ s.reach ∨ s.ReplayAhead))
  | .notifyFails, s => inferInstanceAs (Decidable (∀ e ∈ s.events, keep e = true →
      s.notifications.head? = some e.id → ¬ s.Old e → e.id ≤ s.reach))
  | .insert _, _ => isTrue trivial
  | .foreign, _ => isTrue trivial
  | .abort _, _ => isTrue trivial
  | .listen, _ => isTrue trivial
  | .subscribe, _ => isTrue trivial
  | .replay, _ => isTrue trivial
  | .install, _ => isTrue trivial
  | .deliver, _ => isTrue trivial

/-! ## The invariant -/

variable {keep : Event → Bool} {s s' : Conn}

def Recv.hand : Recv → List Event
  | .replaying events _ => events
  | _ => []

def Loop.hand : Loop → List Event
  | .delivering _ events => events
  | .idle => []

/-- What has been sent, and what the tasks are about to send. -/
def Conn.shown (s : Conn) : List Event := s.sent ++ (s.recv.hand ++ s.loop.hand)

/-- The rows. -/
structure Rows (s : Conn) : Prop where
  apart : ((s.events ++ s.inserted).map Event.id).Nodup
  known : ∀ e ∈ s.events ++ s.inserted, e.id < s.nextId ∧ e.id < 2 ^ 63
  older : ∀ e ∈ s.older, e ∈ s.events
  notified : ∀ n ∈ s.notifications, ∃ e ∈ s.events, e.id = n

/-- Nothing is shown twice or in vain, and what is not shown lies after the cursor and is announced. -/
structure Sound (keep : Event → Bool) (s : Conn) : Prop where
  rows : Rows s
  shown : ∀ e ∈ s.shown, e ∈ s.events ∧ keep e = true ∧ ¬ s.Old e ∧ e.id ≤ s.reach
  once : s.shown.Nodup
  unseen : ∀ e ∈ s.events, keep e = true → ¬ s.Old e → e ∉ s.shown →
    s.reach < e.id ∧ (e.id ∈ s.notifications ∨ s.ReplayAhead)
  hidden : ∀ e ∈ s.events, keep e = true → s.Old e → e.id ≤ s.lastDeliveredId
  begun : ∀ last, s.lastEventId = some last → last ≤ s.lastDeliveredId
  small : s.reach < 2 ^ 63
  gate : s.recv ≠ .subscribed → s.loop = .idle
  start : s.recv = .waiting → s.sent = [] ∧ s.lastDeliveredId = s.lastEventId.getD 0

theorem Sound.delivers (h : Sound keep s) : Delivers keep s where
  once e _ _ _ := by
    have hnodup : s.sent.Nodup := (List.nodup_append.1 h.once).1
    exact List.nodup_iff_count_le_one.1 hnodup e
  fresh e he := (h.shown e (List.mem_append_left _ he)).2.2.1
  complete hquiet e he hkeep hold := by
    by_contra hsent
    have hhand : s.shown = s.sent := by
      unfold Conn.shown
      rw [hquiet.recv, hquiet.loop]
      exact List.append_nil _
    obtain ⟨-, hann | hahead⟩ := h.unseen e he hkeep hold (by rw [hhand]; exact hsent)
    · rw [hquiet.notifications] at hann
      exact absurd hann List.not_mem_nil
    · have hwaiting := hahead.1
      rw [hquiet.recv] at hwaiting
      cases hwaiting

theorem asI64_of_lt {n : Nat} (h : n < 2 ^ 63) : asI64 n = n := if_pos h

theorem mem_query {since : Nat} {e : Event} (h : since < 2 ^ 63) :
    e ∈ query keep since s ↔ e ∈ s.events ∧ since < e.id ∧ keep e = true := by
  unfold query orderById
  rw [List.mem_insertionSort, List.mem_filter, asI64_of_lt h]
  simp

theorem nodup_query (h : Rows s) (since : Nat) : (query keep since s).Nodup := by
  have hevents : s.events.Nodup := by
    have := h.apart
    rw [List.map_append] at this
    exact (List.nodup_append.1 this).1.of_map
  exact (List.perm_insertionSort _ _).nodup_iff.2 (hevents.filter _)

theorem le_foldl_max (l : List Event) (m : Nat) :
    m ≤ l.foldl (fun m e => max m e.id) m ∧ ∀ e ∈ l, e.id ≤ l.foldl (fun m e => max m e.id) m := by
  induction l generalizing m with
  | nil => exact ⟨le_rfl, fun e he => absurd he List.not_mem_nil⟩
  | cons a l ih =>
    rw [List.foldl_cons]
    refine ⟨(le_max_left m a.id).trans (ih _).1, fun e he => ?_⟩
    rcases List.mem_cons.1 he with rfl | he
    · exact (le_max_right m _).trans (ih _).1
    · exact (ih _).2 e he

theorem foldl_max_lt {l : List Event} {m b : Nat} (hm : m < b) (hl : ∀ e ∈ l, e.id < b) :
    l.foldl (fun m e => max m e.id) m < b := by
  induction l generalizing m with
  | nil => exact hm
  | cons a l ih =>
    exact ih (max_lt hm (hl a List.mem_cons_self)) fun e he => hl e (List.mem_cons_of_mem a he)

theorem sound_of_connected (h : Connected s) (hlast : ∀ last, s.lastEventId = some last → last < 2 ^ 63)
    (hnew : s.lastEventId = none → ∀ e ∈ s.events, keep e = false) : Sound keep s := by
  have hshown : s.shown = [] := by
    unfold Conn.shown
    rw [h.recv, h.loop, h.silent.2.2]
    rfl
  have hreach : s.reach = s.lastEventId.getD 0 := by
    unfold Conn.reach
    rw [h.recv, h.loop, h.cursor]
    simp [Recv.reach, Loop.reach]
  constructor
  · refine ⟨h.apart, h.known, fun e he => h.older ▸ he, fun n hn => ?_⟩
    rw [h.silent.2.1] at hn
    exact absurd hn List.not_mem_nil
  · rw [hshown]
    exact fun e he => absurd he List.not_mem_nil
  · rw [hshown]
    exact List.nodup_nil
  · intro e he hkeep hold _
    unfold Conn.Old at hold
    rw [hreach]
    cases hl : s.lastEventId with
    | some last =>
      rw [hl] at hold
      exact ⟨Nat.lt_of_not_le hold, .inr ⟨h.recv, by rw [hl]; rfl⟩⟩
    | none =>
      rw [hl, h.older] at hold
      exact absurd he hold
  · intro e he hkeep hold
    unfold Conn.Old at hold
    rw [h.cursor]
    cases hl : s.lastEventId with
    | some last =>
      rw [hl] at hold
      exact hold
    | none =>
      rw [hnew hl e he] at hkeep
      cases hkeep
  · intro last hl
    rw [h.cursor, hl]
    exact le_rfl
  · rw [hreach]
    cases hl : s.lastEventId with
    | some last => exact hlast last hl
    | none => decide
  · exact fun _ => h.loop
  · exact fun _ => ⟨h.silent.2.2, h.cursor⟩

/-! ## Steps -/

/-- What a step leaves as it is, when it only concerns the rows. -/
structure Beside (s s' : Conn) : Prop where
  older : s'.older = s.older
  lastEventId : s'.lastEventId = s.lastEventId
  lastDeliveredId : s'.lastDeliveredId = s.lastDeliveredId
  recv : s'.recv = s.recv
  loop : s'.loop = s.loop
  sent : s'.sent = s.sent

theorem Beside.old (h : Beside s s') (e : Event) : s'.Old e ↔ s.Old e := by
  unfold Conn.Old
  rw [h.lastEventId, h.older]

theorem Beside.shown (h : Beside s s') : s'.shown = s.shown := by
  unfold Conn.shown
  rw [h.sent, h.recv, h.loop]

theorem Beside.reach (h : Beside s s') : s'.reach = s.reach := by
  unfold Conn.reach
  rw [h.lastDeliveredId, h.recv, h.loop]

theorem Beside.replayAhead (h : Beside s s') : s'.ReplayAhead ↔ s.ReplayAhead := by
  unfold Conn.ReplayAhead
  rw [h.recv, h.lastEventId]

/-- The rows change, and nothing that was announced is withdrawn. -/
theorem Sound.beside (h : Sound keep s) (hb : Beside s s') (hrows : Rows s') (hevents : ∀ e ∈ s.events, e ∈ s'.events)
    (hnew : ∀ e ∈ s'.events, keep e = true → e ∉ s.events → s.Old e ∧ e.id ≤ s.lastDeliveredId ∨
      ¬ s.Old e ∧ s.reach < e.id ∧ (e.id ∈ s'.notifications ∨ s.ReplayAhead))
    (hann : ∀ e ∈ s.events, keep e = true → ¬ s.Old e → e ∉ s.shown → e.id ∈ s.notifications →
      e.id ∈ s'.notifications ∨ s.ReplayAhead) : Sound keep s' := by
  constructor
  · exact hrows
  · intro e he
    rw [hb.shown] at he
    obtain ⟨hmem, hkeep, hold, hle⟩ := h.shown e he
    rw [hb.old, hb.reach]
    exact ⟨hevents e hmem, hkeep, hold, hle⟩
  · rw [hb.shown]
    exact h.once
  · intro e he hkeep hold hshown
    rw [hb.old] at hold
    rw [hb.shown] at hshown
    rw [hb.reach, hb.replayAhead]
    by_cases hmem : e ∈ s.events
    · obtain ⟨hlt, hsoon⟩ := h.unseen e hmem hkeep hold hshown
      exact ⟨hlt, hsoon.elim (hann e hmem hkeep hold hshown) .inr⟩
    · exact ((hnew e he hkeep hmem).resolve_left fun ho => hold ho.1).2
  · intro e he hkeep hold
    rw [hb.old] at hold
    rw [hb.lastDeliveredId]
    by_cases hmem : e ∈ s.events
    · exact h.hidden e hmem hkeep hold
    · exact ((hnew e he hkeep hmem).resolve_right fun ho => ho.1 hold).2
  · rw [hb.lastEventId, hb.lastDeliveredId]
    exact h.begun
  · rw [hb.reach]
    exact h.small
  · rw [hb.recv, hb.loop]
    exact h.gate
  · rw [hb.recv, hb.sent, hb.lastDeliveredId, hb.lastEventId]
    exact h.start

/-- The rows stay. -/
theorem Sound.same (h : Sound keep s) (hb : Beside s s') (hrows : Rows s') (hevents : s'.events = s.events)
    (hann : s'.notifications = s.notifications) : Sound keep s' := by
  refine h.beside hb hrows (fun e he => hevents ▸ he) (fun e he _ hnot => absurd (hevents ▸ he) hnot) ?_
  intro e _ _ _ _ hmem
  exact .inl (hann ▸ hmem)

theorem Rows.insert (h : Rows s) (hid : s.nextId < 2 ^ 63) (kind : EventKind) :
    Rows { s with nextId := s.nextId + 1, inserted := s.inserted ++ [⟨s.nextId, kind⟩] } := by
  refine ⟨?_, fun e he => ?_, h.older, h.notified⟩
  · rw [← List.append_assoc, List.map_append, List.nodup_append]
    refine ⟨h.apart, by simp, fun i hi j hj => ?_⟩
    obtain ⟨e, he, rfl⟩ := List.mem_map.1 hi
    obtain rfl : j = s.nextId := by simpa using hj
    exact (h.known e he).1.ne
  · rw [← List.append_assoc, List.mem_append, List.mem_singleton] at he
    rcases he with he | rfl
    · exact ⟨Nat.lt_succ_of_lt (h.known e he).1, (h.known e he).2⟩
    · exact ⟨Nat.lt_succ_self _, hid⟩

theorem Rows.abort (h : Rows s) (id : Nat) : Rows { s with inserted := s.inserted.filter (fun e => e.id ≠ id) } := by
  have hsub : (s.events ++ s.inserted.filter (fun e => e.id ≠ id)).Sublist (s.events ++ s.inserted) :=
    List.Sublist.append (List.Sublist.refl _) List.filter_sublist
  exact ⟨h.apart.sublist (hsub.map _), fun e he => h.known e (hsub.subset he), h.older, h.notified⟩

theorem Rows.commit (h : Rows s) {e : Event} (he : e ∈ s.inserted) (notes : List Nat)
    (hnotes : ∀ n ∈ notes, n ∈ s.notifications ∨ n = e.id) :
    Rows { s with inserted := s.inserted.filter (fun x => x.id ≠ e.id), events := s.events ++ [e], notifications := notes } := by
  have hapart := h.apart
  rw [List.map_append, List.nodup_append] at hapart
  obtain ⟨hevents, hinserted, hdisjoint⟩ := hapart
  have hfilter : ((s.inserted.filter (fun x => x.id ≠ e.id)).map Event.id).Nodup :=
    hinserted.sublist (List.filter_sublist.map _)
  have hrest : ∀ i ∈ (s.inserted.filter (fun x => x.id ≠ e.id)).map Event.id, i ∈ s.inserted.map Event.id ∧ i ≠ e.id := by
    intro i hi
    obtain ⟨x, hx, rfl⟩ := List.mem_map.1 hi
    obtain ⟨hmem, hne⟩ := List.mem_filter.1 hx
    exact ⟨List.mem_map_of_mem hmem, of_decide_eq_true hne⟩
  refine ⟨?_, fun x hx => ?_, fun x hx => List.mem_append_left _ (h.older x hx), fun n hn => ?_⟩
  · rw [List.map_append, List.map_append, List.map_singleton, List.nodup_append]
    refine ⟨?_, hfilter, fun i hi j hj => ?_⟩
    · refine List.nodup_append.2 ⟨hevents, by simp, fun i hi j hj => ?_⟩
      rw [List.mem_singleton.1 hj]
      exact hdisjoint i hi _ (List.mem_map_of_mem he)
    · rcases List.mem_append.1 hi with hi | hi
      · exact hdisjoint i hi j (hrest j hj).1
      · rw [List.mem_singleton.1 hi]
        exact ((hrest j hj).2).symm
  · refine h.known x ?_
    rcases List.mem_append.1 hx with hx | hx
    · rcases List.mem_append.1 hx with hx | hx
      · exact List.mem_append_left _ hx
      · rw [List.mem_singleton.1 hx]
        exact List.mem_append_right _ he
    · exact List.mem_append_right _ (List.mem_filter.1 hx).1
  · rcases hnotes n hn with hn | rfl
    · obtain ⟨x, hx, hid⟩ := h.notified n hn
      exact ⟨x, List.mem_append_left _ hx, hid⟩
    · exact ⟨e, List.mem_append_right _ (List.mem_singleton.2 rfl), rfl⟩

/-- A notification is taken from the queue. -/
theorem Rows.taken (h : Rows s) {n : Nat} {rest : List Nat} (hnotes : s.notifications = n :: rest) (hnext : s'.nextId = s.nextId)
    (hinserted : s'.inserted = s.inserted) (hevents : s'.events = s.events) (holder : s'.older = s.older)
    (hrest : s'.notifications = rest) : Rows s' := by
  constructor
  · rw [hevents, hinserted]
    exact h.apart
  · rw [hevents, hinserted, hnext]
    exact h.known
  · rw [holder, hevents]
    exact h.older
  · intro m hm
    rw [hrest] at hm
    rw [hevents]
    exact h.notified m (by rw [hnotes]; exact List.mem_cons_of_mem n hm)

/-- A commit that meets its condition. -/
theorem Sound.commit (h : Sound keep s) {id : Nat} (hmeets : Meets keep (.commit id) s)
    (hs : step keep (.commit id) s = some s') : Sound keep s' := by
  obtain ⟨e, hfind, rfl⟩ := Option.map_eq_some_iff.1 hs
  have he : e ∈ s.inserted := List.mem_of_find?_eq_some hfind
  obtain rfl : e.id = id := by simpa using List.find?_some hfind
  have hrows := h.rows.commit he (if s.listening then s.notifications ++ [e.id] else s.notifications) (by
    intro n hn
    split at hn
    · rw [List.mem_append, List.mem_singleton] at hn
      exact hn
    · exact .inl hn)
  refine h.beside ⟨rfl, rfl, rfl, rfl, rfl, rfl⟩ hrows (fun x hx => List.mem_append_left _ hx) (fun x hx hkeep hnot => ?_) ?_
  · obtain rfl : x = e := List.mem_singleton.1 ((List.mem_append.1 hx).resolve_left hnot)
    by_cases hold : s.Old x
    · refine .inl ⟨hold, ?_⟩
      -- an event that is committed after the client has connected is old by its id
      have hid := hold
      unfold Conn.Old at hid
      cases hl : s.lastEventId with
      | some last =>
        rw [hl] at hid
        exact hid.trans (h.begun last hl)
      | none =>
        rw [hl] at hid
        exact absurd (h.rows.older x hid) hnot
    · obtain ⟨hlt, hsoon⟩ := hmeets x he rfl hkeep hold
      refine .inr ⟨hold, hlt, hsoon.imp_left fun hl => ?_⟩
      show x.id ∈ if s.listening then _ else _
      rw [if_pos hl]
      exact List.mem_append_right _ (List.mem_singleton.2 rfl)
  · intro x _ _ _ _ hann
    left
    show x.id ∈ if s.listening then _ else _
    split
    · exact List.mem_append_left _ hann
    · exact hann

/-- The tasks go on: what they show, with a cursor that gets as far. -/
theorem Sound.onward (h : Sound keep s) (hrows : Rows s') (hevents : s'.events = s.events) (holder : s'.older = s.older)
    (hlast : s'.lastEventId = s.lastEventId) (hcursor : s.lastDeliveredId ≤ s'.lastDeliveredId)
    (hshown : ∀ e ∈ s'.shown, e ∈ s.events ∧ keep e = true ∧ ¬ s.Old e ∧ e.id ≤ s'.reach) (honce : s'.shown.Nodup)
    (hunseen : ∀ e ∈ s.events, keep e = true → ¬ s.Old e → e ∉ s'.shown →
      s'.reach < e.id ∧ (e.id ∈ s'.notifications ∨ s'.ReplayAhead))
    (hsmall : s'.reach < 2 ^ 63) (hgate : s'.recv ≠ .subscribed → s'.loop = .idle) (hstart : s'.recv ≠ .waiting) :
    Sound keep s' := by
  have hold : ∀ e, s'.Old e ↔ s.Old e := by
    intro e
    unfold Conn.Old
    rw [hlast, holder]
  constructor
  · exact hrows
  · intro e he
    rw [hevents, hold]
    exact hshown e he
  · exact honce
  · intro e he hkeep hnew hnot
    rw [hold] at hnew
    exact hunseen e (hevents ▸ he) hkeep hnew hnot
  · intro e he hkeep ho
    rw [hold] at ho
    exact (h.hidden e (hevents ▸ he) hkeep ho).trans hcursor
  · intro last hl
    rw [hlast] at hl
    exact (h.begun last hl).trans hcursor
  · exact hsmall
  · exact hgate
  · exact fun hw => absurd hw hstart

/-- A task sends the next event that it has in hand, or ends. -/
theorem Sound.handed (h : Sound keep s) (hrows : Rows s') (hevents : s'.events = s.events) (holder : s'.older = s.older)
    (hlast : s'.lastEventId = s.lastEventId) (hnotes : s'.notifications = s.notifications)
    (hcursor : s.lastDeliveredId ≤ s'.lastDeliveredId) (hshown : s'.shown = s.shown) (hreach : s'.reach = s.reach)
    (hgate : s'.recv ≠ .subscribed → s'.loop = .idle) (hwas : s.recv ≠ .waiting) (hstart : s'.recv ≠ .waiting) :
    Sound keep s' := by
  refine h.onward hrows hevents holder hlast hcursor ?_ (hshown ▸ h.once) ?_ (hreach ▸ h.small) hgate hstart
  · rw [hshown, hreach]
    exact h.shown
  · intro e he hkeep hold hnot
    rw [hshown] at hnot
    rw [hreach, hnotes]
    obtain ⟨hlt, hsoon⟩ := h.unseen e he hkeep hold hnot
    exact ⟨hlt, hsoon.imp_right fun ha => absurd ha.1 hwas⟩

theorem reach_of_idle {r : Recv} (hr : s.recv = r) (hloop : s.loop = .idle) :
    s.reach = max s.lastDeliveredId r.reach := by
  unfold Conn.reach
  rw [hr, hloop]
  simp [Loop.reach]

theorem shown_of_idle {r : Recv} (hr : s.recv = r) (hloop : s.loop = .idle) : s.shown = s.sent ++ r.hand := by
  unfold Conn.shown
  rw [hr, hloop]
  simp [Loop.hand]

/-- The replay reads what came after `last_event_id`. -/
theorem Sound.subscribe (h : Sound keep s) (hs : step keep .subscribe s = some s') : Sound keep s' := by
  have hrecv : s.recv = .waiting := by
    unfold step at hs
    dsimp only at hs
    cases hr : s.recv with
    | waiting => rfl
    | _ => rw [hr] at hs; cases hs
  have hloop : s.loop = .idle := h.gate (by rw [hrecv]; exact fun he => nomatch he)
  obtain ⟨hsent, hcursor⟩ := h.start hrecv
  have hshown : s.shown = [] := by rw [shown_of_idle hrecv hloop, hsent]; rfl
  have hreach : s.reach = s.lastDeliveredId := by rw [reach_of_idle hrecv hloop]; exact max_eq_left (Nat.zero_le _)
  unfold step at hs
  dsimp only at hs
  split at hs
  · rename_i last _ hl
    obtain rfl := Option.some.inj hs
    rw [hl] at hcursor
    have hsmall : last < 2 ^ 63 := by
      have := h.small
      rwa [hreach, hcursor] at this
    have hold : ∀ e, s.Old e ↔ e.id ≤ last := by
      intro e
      unfold Conn.Old
      rw [hl]
    have hsame : Conn.shown { s with recv := .replaying (query keep last s) last } = query keep last s := by
      refine Eq.trans (shown_of_idle rfl hloop) ?_
      rw [hsent]
      rfl
    have hmax := le_foldl_max (query keep last s) last
    have hfar : Conn.reach { s with recv := .replaying (query keep last s) last } =
        (query keep last s).foldl (fun m e => max m e.id) last := by
      refine Eq.trans (reach_of_idle rfl hloop) ?_
      show max s.lastDeliveredId _ = _
      rw [hcursor]
      exact max_eq_right hmax.1
    refine h.onward ⟨h.rows.apart, h.rows.known, h.rows.older, h.rows.notified⟩ rfl rfl rfl le_rfl ?_ ?_ ?_ ?_
      (fun _ => hloop) (fun he => nomatch he)
    · rw [hsame, hfar]
      intro e he
      obtain ⟨hmem, hlt, hkeep⟩ := (mem_query hsmall).1 he
      exact ⟨hmem, hkeep, fun ho => absurd ((hold e).1 ho) (Nat.not_le.2 hlt), hmax.2 e he⟩
    · rw [hsame]
      exact nodup_query h.rows last
    · intro e he hkeep hnew hnot
      rw [hsame] at hnot
      rw [hold, Nat.not_le] at hnew
      exact absurd ((mem_query hsmall).2 ⟨he, hnew, hkeep⟩) hnot
    · rw [hfar]
      exact foldl_max_lt hsmall fun e he => (h.rows.known e (List.mem_append_left _ ((mem_query hsmall).1 he).1)).2
  · rename_i _ hl
    obtain rfl := Option.some.inj hs
    have hsame : Conn.shown { s with recv := .replayed } = [] := by
      refine Eq.trans (shown_of_idle rfl hloop) ?_
      rw [hsent]
      rfl
    have hfar : Conn.reach { s with recv := .replayed } = s.reach := by
      rw [hreach]
      exact Eq.trans (reach_of_idle rfl hloop) (max_eq_left (Nat.zero_le _))
    refine h.onward ⟨h.rows.apart, h.rows.known, h.rows.older, h.rows.notified⟩ rfl rfl rfl le_rfl ?_ ?_ ?_ ?_
      (fun _ => hloop) (fun he => nomatch he)
    · rw [hsame]
      exact fun e he => absurd he List.not_mem_nil
    · rw [hsame]
      exact List.nodup_nil
    · intro e he hkeep hold _
      rw [hfar]
      obtain ⟨hlt, hsoon⟩ := h.unseen e he hkeep hold (by rw [hshown]; exact List.not_mem_nil)
      refine ⟨hlt, hsoon.imp_right fun ha => ?_⟩
      have hsome := ha.2
      rw [hl] at hsome
      cases hsome
    · rw [hfar]
      exact h.small
  · cases hs

theorem Sound.replayFails (h : Sound keep s) (hmeets : Meets keep .replayFails s)
    (hs : step keep .replayFails s = some s') : Sound keep s' := by
  unfold step at hs
  dsimp only at hs
  split at hs
  · rename_i hat
    have hloop := h.gate (by rw [hat.1]; exact fun he => nomatch he)
    obtain rfl := Option.some.inj hs
    have hsame : Conn.shown { s with recv := .replayed } = s.shown :=
      Eq.trans (shown_of_idle rfl hloop) (shown_of_idle hat.1 hloop).symm
    have hfar : Conn.reach { s with recv := .replayed } = s.reach :=
      Eq.trans (reach_of_idle rfl hloop) (reach_of_idle hat.1 hloop).symm
    refine h.onward ⟨h.rows.apart, h.rows.known, h.rows.older, h.rows.notified⟩ rfl rfl rfl le_rfl ?_ ?_ ?_ ?_
      (fun _ => hloop) (fun he => nomatch he)
    · rw [hsame, hfar]
      exact h.shown
    · rw [hsame]
      exact h.once
    · intro e he hkeep hold hnot
      rw [hsame] at hnot
      rw [hfar]
      exact ⟨(h.unseen e he hkeep hold hnot).1, .inl (hmeets e he hkeep hold)⟩
    · rw [hfar]
      exact h.small
  · cases hs

theorem Sound.replay (h : Sound keep s) (hs : step keep .replay s = some s') : Sound keep s' := by
  unfold step at hs
  dsimp only at hs
  split at hs
  · rename_i e rest maxId hrecv
    obtain rfl := Option.some.inj hs
    have hloop := h.gate (by rw [hrecv]; exact fun he => nomatch he)
    refine h.handed ⟨h.rows.apart, h.rows.known, h.rows.older, h.rows.notified⟩ rfl rfl rfl rfl le_rfl ?_ ?_
      (fun _ => hloop) (by rw [hrecv]; exact fun he => nomatch he) (fun he => nomatch he)
    · refine Eq.trans (shown_of_idle rfl hloop) (Eq.trans ?_ (shown_of_idle hrecv hloop).symm)
      show s.sent ++ [e] ++ rest = s.sent ++ (e :: rest)
      rw [List.append_assoc]
      rfl
    · exact Eq.trans (reach_of_idle rfl hloop) (reach_of_idle hrecv hloop).symm
  · rename_i maxId hrecv
    obtain rfl := Option.some.inj hs
    have hloop := h.gate (by rw [hrecv]; exact fun he => nomatch he)
    refine h.handed ⟨h.rows.apart, h.rows.known, h.rows.older, h.rows.notified⟩ rfl rfl rfl rfl (le_max_left _ _) ?_ ?_
      (fun _ => hloop) (by rw [hrecv]; exact fun he => nomatch he) (fun he => nomatch he)
    · exact Eq.trans (shown_of_idle rfl hloop) (shown_of_idle hrecv hloop).symm
    · refine Eq.trans (reach_of_idle rfl hloop) (Eq.trans ?_ (reach_of_idle hrecv hloop).symm)
      exact max_eq_left (Nat.zero_le _)
  · cases hs

theorem Sound.install (h : Sound keep s) (hs : step keep .install s = some s') : Sound keep s' := by
  unfold step at hs
  dsimp only at hs
  split at hs
  · rename_i hrecv
    obtain rfl := Option.some.inj hs
    have hloop := h.gate (by rw [hrecv]; exact fun he => nomatch he)
    refine h.handed ⟨h.rows.apart, h.rows.known, h.rows.older, h.rows.notified⟩ rfl rfl rfl rfl le_rfl ?_ ?_
      (fun _ => hloop) (by rw [hrecv]; exact fun he => nomatch he) (fun he => nomatch he)
    · exact Eq.trans (shown_of_idle rfl hloop) (shown_of_idle hrecv hloop).symm
    · exact Eq.trans (reach_of_idle rfl hloop) (reach_of_idle hrecv hloop).symm
  · cases hs

/-- A notification is dropped, or everything after the cursor is read. -/
theorem Sound.notify (h : Sound keep s) (hmeets : Meets keep .notify s) (hs : step keep .notify s = some s') :
    Sound keep s' := by
  unfold step at hs
  dsimp only at hs
  split at hs
  · rename_i n rest hloop hnotes
    have hhead : s.notifications.head? = some n := by rw [hnotes]; rfl
    split at hs
    · rename_i hrecv
      obtain rfl := Option.some.inj hs
      have hreach : s.reach = s.lastDeliveredId := by
        rw [reach_of_idle hrecv hloop]
        exact max_eq_left (Nat.zero_le _)
      have hshown : s.shown = s.sent := by
        rw [shown_of_idle hrecv hloop]
        exact List.append_nil _
      have hsmall : s.lastDeliveredId < 2 ^ 63 := hreach ▸ h.small
      have hsame : Conn.shown { s with notifications := rest, loop := .delivering n (query keep s.lastDeliveredId s) } =
          s.sent ++ query keep s.lastDeliveredId s := by
        unfold Conn.shown
        rw [hrecv]
        rfl
      have hfar : Conn.reach { s with notifications := rest, loop := .delivering n (query keep s.lastDeliveredId s) } =
          max s.lastDeliveredId n := by
        unfold Conn.reach
        rw [hrecv]
        show max _ (max 0 n) = _
        rw [Nat.zero_max]
      refine h.onward (h.rows.taken hnotes rfl rfl rfl rfl rfl) rfl rfl rfl le_rfl ?_ ?_ ?_ ?_ (fun hne => absurd hrecv hne)
        (by rw [hrecv]; exact fun he => nomatch he)
      · rw [hsame, hfar]
        intro e he
        rcases List.mem_append.1 he with he | he
        · obtain ⟨hmem, hkeep, hold, hle⟩ := h.shown e (by rw [hshown]; exact he)
          rw [hreach] at hle
          exact ⟨hmem, hkeep, hold, hle.trans (le_max_left _ _)⟩
        · obtain ⟨hmem, hlt, hkeep⟩ := (mem_query hsmall).1 he
          refine ⟨hmem, hkeep, fun ho => absurd (h.hidden e hmem hkeep ho) (Nat.not_le.2 hlt), ?_⟩
          have hno := hmeets e hmem hkeep
          rw [if_pos hrecv] at hno
          exact (hno hlt n hhead).trans (le_max_right _ _)
      · rw [hsame]
        refine List.nodup_append.2 ⟨hshown ▸ h.once, nodup_query h.rows _, fun e he e' he' heq => ?_⟩
        have hle := (h.shown e (by rw [hshown]; exact he)).2.2.2
        have hlt := ((mem_query hsmall).1 he').2.1
        rw [hreach, heq] at hle
        exact absurd hle (Nat.not_le.2 hlt)
      · intro e he hkeep hold hnot
        rw [hsame, List.mem_append, not_or] at hnot
        have hlt := (h.unseen e he hkeep hold (by rw [hshown]; exact hnot.1)).1
        rw [hreach] at hlt
        exact absurd ((mem_query hsmall).2 ⟨he, hlt, hkeep⟩) hnot.2
      · rw [hfar]
        obtain ⟨e, he, hid⟩ := h.rows.notified n (by rw [hnotes]; exact List.mem_cons_self)
        exact max_lt hsmall (hid ▸ (h.rows.known e (List.mem_append_left _ he)).2)
    · rename_i hrecv
      obtain rfl := Option.some.inj hs
      refine h.beside ⟨rfl, rfl, rfl, rfl, rfl, rfl⟩ (h.rows.taken hnotes rfl rfl rfl rfl rfl) (fun e he => he)
        (fun e he _ hnot => absurd he hnot) fun e he hkeep hold hnot hann => ?_
      rw [hnotes, List.mem_cons] at hann
      rcases hann with hid | hann
      · have hdrop := hmeets e he hkeep
        rw [if_neg hrecv, hid] at hdrop
        have hlt := (h.unseen e he hkeep hold hnot).1
        rw [hid] at hlt
        exact .inr ((hdrop hhead hold).resolve_left (Nat.not_le.2 hlt))
      · exact .inl hann
  · cases hs

theorem Sound.notifyFails (h : Sound keep s) (hmeets : Meets keep .notifyFails s)
    (hs : step keep .notifyFails s = some s') : Sound keep s' := by
  unfold step at hs
  dsimp only at hs
  split at hs
  · rename_i n rest hloop hnotes
    have hhead : s.notifications.head? = some n := by rw [hnotes]; rfl
    split at hs
    · obtain rfl := Option.some.inj hs
      refine h.beside ⟨rfl, rfl, rfl, rfl, rfl, rfl⟩ (h.rows.taken hnotes rfl rfl rfl rfl rfl) (fun e he => he)
        (fun e he _ hnot => absurd he hnot) fun e he hkeep hold hnot hann => ?_
      rw [hnotes, List.mem_cons] at hann
      rcases hann with hid | hann
      · have hle := hmeets e he hkeep (by rw [hhead, hid]) hold
        exact absurd hle (Nat.not_le.2 (h.unseen e he hkeep hold hnot).1)
      · exact .inl hann
    · cases hs
  · cases hs

theorem Sound.deliver (h : Sound keep s) (hs : step keep .deliver s = some s') : Sound keep s' := by
  unfold step at hs
  dsimp only at hs
  have hrecv : s.loop ≠ .idle → s.recv = .subscribed := fun hne => by
    by_contra hr
    exact hne (h.gate hr)
  split at hs
  · rename_i n e rest hloop
    obtain rfl := Option.some.inj hs
    have hr := hrecv (by rw [hloop]; exact fun he => nomatch he)
    refine h.handed ⟨h.rows.apart, h.rows.known, h.rows.older, h.rows.notified⟩ rfl rfl rfl rfl le_rfl ?_ ?_
      (fun hne => absurd hr hne) (by rw [hr]; exact fun he => nomatch he) (by rw [hr]; exact fun he => nomatch he)
    · unfold Conn.shown
      rw [hr, hloop]
      simp [Recv.hand, Loop.hand]
    · unfold Conn.reach
      rw [hloop]
      rfl
  · rename_i n hloop
    obtain rfl := Option.some.inj hs
    have hr := hrecv (by rw [hloop]; exact fun he => nomatch he)
    refine h.handed ⟨h.rows.apart, h.rows.known, h.rows.older, h.rows.notified⟩ rfl rfl rfl rfl (le_max_left _ _) ?_ ?_
      (fun hne => absurd hr hne) (by rw [hr]; exact fun he => nomatch he) (by rw [hr]; exact fun he => nomatch he)
    · unfold Conn.shown
      rw [hloop]
      rfl
    · unfold Conn.reach
      rw [hloop, hr]
      simp [Recv.reach, Loop.reach]
  · cases hs

/-- **Every step that meets its condition keeps the invariant.** -/
theorem Sound.step (h : Sound keep s) {a : Step} (hmeets : Meets keep a s) (hs : step keep a s = some s') :
    Sound keep s' := by
  cases a with
  | insert kind =>
    unfold Ws.step at hs
    dsimp only at hs
    split at hs
    · rename_i hid
      obtain rfl := Option.some.inj hs
      exact h.same ⟨rfl, rfl, rfl, rfl, rfl, rfl⟩ (h.rows.insert hid kind) rfl rfl
    · cases hs
  | foreign =>
    obtain rfl := Option.some.inj hs
    refine h.same ⟨rfl, rfl, rfl, rfl, rfl, rfl⟩ ⟨h.rows.apart, fun e he => ?_, h.rows.older, h.rows.notified⟩ rfl rfl
    exact ⟨Nat.lt_succ_of_lt (h.rows.known e he).1, (h.rows.known e he).2⟩
  | commit id => exact h.commit hmeets hs
  | abort id =>
    obtain rfl := Option.some.inj hs
    exact h.same ⟨rfl, rfl, rfl, rfl, rfl, rfl⟩ (h.rows.abort id) rfl rfl
  | listen =>
    obtain rfl := Option.some.inj hs
    exact h.same ⟨rfl, rfl, rfl, rfl, rfl, rfl⟩ ⟨h.rows.apart, h.rows.known, h.rows.older, h.rows.notified⟩ rfl rfl
  | subscribe => exact h.subscribe hs
  | replayFails => exact h.replayFails hmeets hs
  | replay => exact h.replay hs
  | install => exact h.install hs
  | notify => exact h.notify hmeets hs
  | notifyFails => exact h.notifyFails hmeets hs
  | deliver => exact h.deliver hs

/-! ## Runs -/

/-- **Where no step reaches a gap, the stream is exactly once.**  The client gives a `last_event_id` that an event can have, or
comes to a repository that has no event for it; then it gets each of its events at most once, no older one, and all of them
when the notifications are processed. -/
theorem stream_delivers (texts : Texts) (sub : SubscriptionFilter) {s₀ : Conn} (h : Connected s₀)
    (hlast : ∀ last, s₀.lastEventId = some last → last < 2 ^ 63)
    (hnew : s₀.lastEventId = none → ∀ e ∈ s₀.events, sub.picks texts e = false)
    {l : List (Turn Step Conn)} (hran : Ran (step (sub.picks texts)) s₀ l s)
    (hmeets : ∀ t ∈ l, Meets (sub.picks texts) t.action t.before) :
    Delivers (sub.picks texts) s := by
  have hsound := hran.keeps (fun a r r' hr hmeets hs => Sound.step hr hmeets hs) (sound_of_connected h hlast hnew) hmeets
  exact hsound.delivers

def idText : Texts := ⟨fun _ => none, fun _ => []⟩

def everything : SubscriptionFilter := ⟨[], [], [], []⟩

/-- A client with this `last_event_id`, in a repository with these events. -/
def arrives (lastEventId : Option Nat) (events : List Event) : Conn where
  nextId := events.length + 1
  inserted := []
  events := events
  older := events
  lastEventId := lastEventId
  lastDeliveredId := lastEventId.getD 0
  recv := .waiting
  loop := .idle
  listening := false
  notifications := []
  sent := []

theorem connected_arrives {lastEventId : Option Nat} {events : List Event} (hids : (events.map Event.id).Nodup)
    (hknown : ∀ e ∈ events, e.id < events.length + 1 ∧ e.id < 2 ^ 63) : Connected (arrives lastEventId events) where
  known := by
    intro e he
    rw [show (arrives lastEventId events).inserted = [] from rfl, List.append_nil] at he
    exact hknown e he
  apart := by
    rw [show (arrives lastEventId events).inserted = [] from rfl, List.append_nil]
    exact hids
  older := rfl
  cursor := rfl
  recv := rfl
  loop := rfl
  silent := ⟨rfl, rfl, rfl⟩

/-- An event of before is replayed, and one that is committed afterwards is sent for its notification. -/
def replayThenLive : List Step :=
  [.listen, .subscribe, .insert (.workspaceDiscarded 8 []), .replay, .replay, .install, .commit 3, .notify, .deliver, .deliver]

def history : List Event := [⟨1, .workspaceDiscarded 6 []⟩, ⟨2, .workspaceDiscarded 7 []⟩]

theorem stream_delivers_replayThenLive :
    ∃ (l : List (Turn Step Conn)) (s : Conn), Ran (step (everything.picks idText)) (arrives (some 1) history) l s ∧
      (∀ t ∈ l, Meets (everything.picks idText) t.action t.before) ∧ s.Quiet ∧
      s.sent.map Event.id = [2, 3] ∧ Delivers (everything.picks idText) s := by
  have hconnected : Connected (arrives (some 1) history) := connected_arrives (by decide) (by decide)
  have hrun : ∃ r ∈ trace (step (everything.picks idText)) replayThenLive (arrives (some 1) history),
      (∀ t ∈ r.1, Meets (everything.picks idText) t.action t.before) ∧
      r.2.listening = true ∧ r.2.recv = .subscribed ∧ r.2.loop = .idle ∧ r.2.notifications = [] ∧
      r.2.sent.map Event.id = [2, 3] := by
    decide +kernel
  obtain ⟨r, htrace, hmeets, h₁, h₂, h₃, h₄, hsent⟩ := hrun
  have hran := ran_of_trace htrace
  refine ⟨r.1, r.2, hran, hmeets, ⟨h₁, h₂, h₃, h₄⟩, hsent, ?_⟩
  exact stream_delivers idText everything hconnected (by rintro last hl; cases hl; decide) (fun hl => nomatch hl) hran hmeets

/-- Two events are committed before the first one's notification is served. -/
def burst : List Step :=
  [.listen, .subscribe, .install, .insert (.workspaceDiscarded 6 []), .insert (.workspaceDiscarded 7 []), .commit 1, .commit 2,
   .notify, .deliver, .deliver, .deliver, .notify, .deliver, .deliver]

/-- **The second event of a burst is sent twice**: the query for the first notification gives both, and the cursor is moved
to the first. -/
theorem burst_sent_twice :
    Connected (arrives none []) ∧
    ∃ (l : List (Turn Step Conn)) (s : Conn), Ran (step (everything.picks idText)) (arrives none []) l s ∧
      s.sent.map Event.id = [1, 2, 2] ∧ ¬ Delivers (everything.picks idText) s := by
  refine ⟨connected_arrives (by decide) (by decide), ?_⟩
  have hrun : ∃ r ∈ trace (step (everything.picks idText)) burst (arrives none []),
      r.2.sent.map Event.id = [1, 2, 2] ∧
      ∃ e ∈ r.2.events, everything.picks idText e = true ∧ ¬ r.2.Old e ∧
        ¬ r.2.sent.count e ≤ 1 := by
    decide +kernel
  obtain ⟨r, htrace, hsent, e, he, hkeep, hold, htwice⟩ := hrun
  have hran := ran_of_trace htrace
  exact ⟨r.1, r.2, hran, hsent, fun h => htwice (h.once e he hkeep hold)⟩

end Ws
end Vai
