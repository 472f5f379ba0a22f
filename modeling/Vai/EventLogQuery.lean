import Vai.EventLogCrash
/-!
# EventLogQuery — what the queries return

After any sequence of appends the rows and the events stand side by side, so each query returns the events whose column
matches, in append order, before and after `rebuild_index`.  The column `workspace_id` is the one that misses a case:
`EventKind::workspace_id` has no arm for `IssueLinkedToWorkspace`, whose `workspace_id` field the index therefore never
holds (`queries_exact_iff`).
-/
namespace Vai

/-- The field `workspace_id` of the kinds that have one. -/
def EventKind.workspaceField : EventKind → Option Uuid
  | .workspaceCreated w _ _ => some w
  | .workspaceSubmitted w _ => some w
  | .workspaceDiscarded w _ => some w
  | .entityAdded w _ => some w
  | .entityModified w _ _ => some w
  | .entityRemoved w _ => some w
  | .fileAdded w _ _ => some w
  | .fileModified w _ _ _ => some w
  | .fileRemoved w _ => some w
  | .mergeCompleted w _ _ => some w
  | .mergeConflictDetected w _ => some w
  | .issueLinkedToWorkspace _ w => some w
  | _ => none

def EventKind.IsIssueLinked (k : EventKind) : Prop := ∃ i w, k = .issueLinkedToWorkspace i w

theorem EventKind.workspaceId_eq {k : EventKind} (h : ¬ k.IsIssueLinked) : k.workspaceId = k.workspaceField := by
  cases k with
  | issueLinkedToWorkspace i w => exact absurd ⟨i, w, rfl⟩ h
  | _ => rfl

namespace EventLog

section
variable (serde : Serde)

/-- Appends one after the other, each at its time: the log and the events returned, or the first error. -/
def appendAll : List (Nat × EventKind) → Log → Except EventLogError (Log × List Event)
  | [], log => .ok (log, [])
  | k :: ks, log =>
    match log.append serde k.1 k.2 with
    | (_, .error e) => .error e
    | (log, .ok e) => (appendAll ks log).map (fun r => (r.1, e :: r.2))

/-- Each query returns the events that match, each once, in their order. -/
structure Exact (log : Log) (events : List Event) : Prop where
  all : log.all serde = .ok events
  byWorkspace : ∀ w, log.queryByWorkspace serde w = .ok (events.filter (fun e => e.kind.workspaceField = some w))
  byType : ∀ t, log.queryByType serde t = .ok (events.filter (fun e => e.kind.eventType = t))
  byEntity : ∀ i, log.queryByEntity serde i = .ok (events.filter (fun e => e.kind.entityId = some i))

/-- The row was written for the event, and reads it back. -/
def Reads (log : Log) (r : Row) (e : Event) : Prop :=
  r = e.row r.segmentFile r.byteOffset ∧ log.readEventAt serde r.segmentFile r.byteOffset = .ok e

end

variable {serde : Serde}

/-- Rows and events with the same ids, each row with some event of its id, stand side by side. -/
theorem forall₂_of_ids {R : Row → Event → Prop} : ∀ {rows : List Row} {events : List Event},
    rows.map Row.id = events.map (·.id) → (events.map (·.id)).Nodup →
      (∀ r ∈ rows, ∃ e ∈ events, r.id = e.id ∧ R r e) → List.Forall₂ R rows events
  | [], [], _, _, _ => .nil
  | [], e :: events, h, _, _ => by cases h
  | r :: rows, [], h, _, _ => by cases h
  | r :: rows, e :: events, h, hn, hr => by
    rw [List.map_cons, List.map_cons, List.cons.injEq] at h
    rw [List.map_cons, List.nodup_cons] at hn
    refine .cons ?_ (forall₂_of_ids h.2 hn.2 (fun q hq => ?_))
    · obtain ⟨f, hf, hid, hR⟩ := hr r List.mem_cons_self
      rcases List.mem_cons.1 hf with rfl | hf
      · exact hR
      · exact absurd (List.mem_map.2 ⟨f, hf, by rw [← hid, h.1]⟩) hn.1
    · obtain ⟨f, hf, hid, hR⟩ := hr q (List.mem_cons_of_mem r hq)
      rcases List.mem_cons.1 hf with rfl | hf
      · have : q.id ∈ events.map (·.id) := by
          rw [← h.2]
          exact List.mem_map_of_mem hq
        rw [hid] at this
        exact absurd this hn.1
      · exact ⟨f, hf, hid, hR⟩

theorem loadEvents_filter {log : Log} {select : Row → Bool} {keep : Event → Bool}
    (hsel : ∀ r e, Reads serde log r e → select r = keep e) {rows : List Row} {events : List Event}
    (h : List.Forall₂ (Reads serde log) rows events) :
    log.loadEvents serde ((rows.filter select).map (fun r => (r.segmentFile, r.byteOffset))) = .ok (events.filter keep) := by
  induction h with
  | nil => rfl
  | @cons r e rows events hr _ ih =>
    have hs := hsel r e hr
    by_cases hk : keep e = true
    · rw [List.filter_cons_of_pos hk, List.filter_cons_of_pos (hs.trans hk), List.map_cons, Log.loadEvents, hr.2]
      simp only [ih]
      rfl
    · rw [List.filter_cons_of_neg hk, List.filter_cons_of_neg (by rw [hs]; exact hk)]
      exact ih

/-- The rows of a fully indexed log and its events. -/
theorem Inv.reads {s : State} {parts : List (List Event)} (h : Inv serde s parts) (hi : s.log.Indexed) :
    List.Forall₂ (Reads serde s.log) s.log.rows parts.flatten := by
  apply forall₂_of_ids
  · rw [h.rows_eq hi, map_id_rowsOf]
  · exact (List.pairwise_map.2 (pairwise_of_ids h.ids)).imp (fun hlt => Nat.ne_of_lt hlt)
  · intro r hr
    obtain ⟨e, he, hre, hread⟩ := h.layout.readEventAt (h.rows.subset hr)
    refine ⟨e, he, ?_, hre, hread⟩
    rw [hre]
    rfl

/-- What each query returns, with the columns as the index holds them. -/
theorem Inv.query {s : State} {parts : List (List Event)} (h : Inv serde s parts) (hi : s.log.Indexed) :
    s.log.all serde = .ok parts.flatten ∧
    (∀ w, s.log.queryByWorkspace serde w = .ok (parts.flatten.filter (fun e => e.kind.workspaceId = some w))) ∧
    (∀ t, s.log.queryByType serde t = .ok (parts.flatten.filter (fun e => e.kind.eventType = t))) ∧
    ∀ i, s.log.queryByEntity serde i = .ok (parts.flatten.filter (fun e => e.kind.entityId = some i)) := by
  have hr := h.reads hi
  refine ⟨?_, fun w => ?_, fun t => ?_, fun i => ?_⟩
  · have := @loadEvents_filter serde _ (fun _ => true) (fun _ => true) (fun _ _ _ => rfl) _ _ hr
    rwa [List.filter_true parts.flatten] at this
  · exact loadEvents_filter (fun r e hre => by rw [hre.1]; rfl) hr
  · exact loadEvents_filter (fun r e hre => by rw [hre.1]; rfl) hr
  · exact loadEvents_filter (fun r e hre => by rw [hre.1]; rfl) hr

/-- **The queries on a fully indexed log are exact exactly when no event links an issue to a workspace.** -/
theorem Inv.exact_iff {s : State} {parts : List (List Event)} (h : Inv serde s parts) (hi : s.log.Indexed) :
    Exact serde s.log parts.flatten ↔ ∀ e ∈ parts.flatten, ¬ e.kind.IsIssueLinked := by
  obtain ⟨hall, hw, ht, hent⟩ := h.query hi
  constructor
  · rintro hx e he ⟨i, w, hk⟩
    have hq := hx.byWorkspace w
    rw [hw w, Except.ok.injEq] at hq
    have hm : e ∈ parts.flatten.filter (fun e => e.kind.workspaceField = some w) := by
      rw [List.mem_filter]
      exact ⟨he, by rw [hk]; simp [EventKind.workspaceField]⟩
    rw [← hq, List.mem_filter, hk] at hm
    simp [EventKind.workspaceId] at hm
  · intro hn
    refine ⟨hall, fun w => ?_, ht, hent⟩
    rw [hw w]
    congr 1
    apply List.filter_congr
    intro e he
    rw [EventKind.workspaceId_eq (hn e he)]

/-- Appends from a sound log succeed, and add their events in order. -/
theorem Inv.appendAll : ∀ (ks : List (Nat × EventKind)) {s : State} {parts : List (List Event)}, Inv serde s parts →
    s.log.Indexed → ∃ s' parts' events, appendAll serde ks s.log = .ok (s'.log, events) ∧ Inv serde s' parts' ∧
      s'.log.Indexed ∧ parts'.flatten = parts.flatten ++ events ∧ events.map (fun e => (e.timestamp, e.kind)) = ks
  | [], s, parts, h, hi => ⟨s, parts, [], rfl, h, hi, by simp, rfl⟩
  | k :: ks, s, parts, h, hi => by
    obtain ⟨parts₁, hlog, h₁, hflat₁⟩ := h.append hi k.1 k.2
    have hlog₁ : (EventLog.step serde s (.append k.1 k.2)).log = ⟨segmentsOf serde 1 parts₁, rowsOf serde 1 parts₁⟩ :=
      congrArg Prod.fst hlog
    have hi₁ : (EventLog.step serde s (.append k.1 k.2)).log.Indexed := by
      rw [h₁.indexed_iff, hlog₁]
      exact length_rowsOf 1 parts₁
    obtain ⟨s₂, parts₂, events, happ, h₂, hi₂, hflat₂, hks⟩ := Inv.appendAll ks h₁ hi₁
    refine ⟨s₂, parts₂, s.log.next k.1 k.2 :: events, ?_, h₂, hi₂, ?_, ?_⟩
    · rw [EventLog.appendAll, hlog]
      simp only
      rw [hlog₁] at happ
      rw [happ]
      rfl
    · rw [hflat₂, hflat₁, List.append_assoc]
      rfl
    · rw [List.map_cons, hks]
      rfl

/-- **Appends always succeed, and after them every query is exact, before and after `rebuild_index`, exactly when none of
the appended events links an issue to a workspace.** -/
theorem queries_exact_iff (serde : Serde) (ks : List (Nat × EventKind)) :
    ∃ log events, appendAll serde ks Log.fresh = .ok (log, events) ∧
      events.map (fun e => (e.timestamp, e.kind)) = ks ∧ (log.rebuildIndex serde).2 = .ok () ∧
      (Exact serde log events ∧ Exact serde (log.rebuildIndex serde).1 events ↔ ∀ k ∈ ks, ¬ k.2.IsIssueLinked) := by
  obtain ⟨s, parts, events, happ, h, hi, hflat, hks⟩ := Inv.appendAll ks (inv_fresh serde) rfl
  have hrebuild := h.layout.rebuildIndex (pairwise_of_ids h.ids)
  obtain rfl : parts.flatten = events := by simpa using hflat
  have hsame : (s.log.rebuildIndex serde).1 = s.log := by
    rw [hrebuild, ← h.rows_eq hi]
  refine ⟨s.log, parts.flatten, happ, hks, by rw [hrebuild], ?_⟩
  rw [hsame, and_self, h.exact_iff hi, ← hks]
  simp only [List.mem_map, forall_exists_index, and_imp, forall_apply_eq_imp_iff₂]

/-- An issue linked to workspace 2. -/
def linked : EventKind := .issueLinkedToWorkspace 1 2

noncomputable def linkedSerde : Serde :=
  Serde.writing ⟨⟨1, linked⟩, 0⟩
    ("id\":1,\"timestamp\":\"1970-01-01T00:00:00Z\",\"event_type\":\"IssueLinkedToWorkspace\",".toList ++
      "\"payload\":\x7b\"issue_id\":\"00000000-0000-0000-0000-000000000001\",".toList ++
      "\"workspace_id\":\"00000000-0000-0000-0000-000000000002\"\x7d".toList) (by decide +kernel) (by decide +kernel)

/-- The link is appended, and the query for its workspace returns nothing. -/
theorem linked_event_not_found :
    ¬ ∃ log events, appendAll linkedSerde [(0, linked)] Log.fresh = .ok (log, events) ∧ Exact linkedSerde log events := by
  rintro ⟨log, events, happ, hx⟩
  obtain ⟨s, parts, events', happ', h, hi, hflat, hks⟩ := Inv.appendAll [(0, linked)] (inv_fresh linkedSerde) rfl
  have happ'' : appendAll linkedSerde [(0, linked)] Log.fresh = .ok (s.log, events') := happ'
  rw [happ'', Except.ok.injEq, Prod.mk.injEq] at happ
  obtain ⟨rfl, rfl⟩ := happ
  obtain rfl : parts.flatten = events' := by simpa using hflat
  obtain ⟨e, he, hk⟩ : ∃ e ∈ parts.flatten, e.kind = linked := by
    have hm : ((0, linked) : Nat × EventKind) ∈ parts.flatten.map (fun e => (e.timestamp, e.kind)) := by
      rw [hks]
      exact List.mem_singleton.2 rfl
    obtain ⟨e, he, heq⟩ := List.mem_map.1 hm
    exact ⟨e, he, congrArg Prod.snd heq⟩
  exact (h.exact_iff hi).1 hx e he ⟨1, 2, hk⟩

end EventLog
end Vai
