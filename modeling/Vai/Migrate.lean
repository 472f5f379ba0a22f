import Vai.SourceUpload
import Vai.PullSpec
import Vai.Rollback
/-!
# Migrate — a local repository moves to the server

`migrate_handler` of `server/mod.rs`, after the permission check: the events, issues, versions and escalations of a local
repository are inserted in one transaction, and what is already there is skipped.

The events get new ids from the sequence that all repositories share, and a skipped insertion uses one up too.  The
versions keep the event ids of the local log.  `migration_links_iff` says when they still mean the same events.
-/
namespace Vai
namespace Handlers

open Proc Backend

/-- The tables that a migration writes: `local_event_id` is unique in a repository, the ids of issues and escalations are
unique over all of them. -/
structure MigrationDb where
  backend : Backend
  localIds : List Nat
  foreignIssues : List Uuid
  escalations : List Uuid

/-- What `gather_local_data` finds: the events in the order of their ids, the versions each under its own name. -/
structure MigrationPayload where
  events : List Event
  issues : List (Uuid × IssueStatus)
  versions : List VersionMeta
  escalations : List Uuid
  headVersion : Option Text
  sorted : events.Pairwise (fun e f => e.id < f.id)
  named : (versions.map VersionMeta.versionId).Nodup

structure MigrationSummary where
  eventsMigrated : Nat
  issuesMigrated : Nat
  versionsMigrated : Nat
  escalationsMigrated : Nat
  headVersion : Option Text
deriving DecidableEq, Repr

/-! ## The handler -/

/-- `ON CONFLICT (repo_id, local_event_id) DO NOTHING`. -/
def insertEvent (count : Nat) (e : Event) : Proc MigrationDb ApiError Nat := fun s =>
  let next := s.backend.nextEvent
  if e.id ∈ s.localIds then (.ok count, { s with backend := { s.backend with nextEvent := next + 1 } })
  else (.ok (count + 1), { s with
    backend := { s.backend with events := s.backend.events ++ [⟨next, e.kind⟩], nextEvent := next + 1 }
    localIds := s.localIds ++ [e.id] })

/-- `ON CONFLICT (id) DO NOTHING`. -/
def insertIssue (count : Nat) (issue : Uuid × IssueStatus) : Proc MigrationDb ApiError Nat := fun s =>
  if (s.backend.issues.get issue.1).isSome ∨ issue.1 ∈ s.foreignIssues then (.ok count, s)
  else (.ok (count + 1), { s with backend := { s.backend with issues := s.backend.issues.insert issue.1 issue.2 } })

/-- `ON CONFLICT (repo_id, version_id) DO NOTHING`; a new row has to point at an event of some repository. -/
def insertVersion (count : Nat) (v : VersionMeta) : Proc MigrationDb ApiError Nat := fun s =>
  if s.backend.versions.any (fun u => u.versionId = v.versionId) then (.ok count, s)
  else if v.mergeEventId.any (fun i => i ∉ s.backend.events.map Event.id ∧ i ∉ s.backend.foreign) then (.error .internal, s)
  else (.ok (count + 1), { s with backend := { s.backend with versions := s.backend.versions ++ [v] } })

/-- `ON CONFLICT (id) DO NOTHING`. -/
def insertEscalation (count : Nat) (id : Uuid) : Proc MigrationDb ApiError Nat := fun s =>
  if id ∈ s.escalations then (.ok count, s)
  else (.ok (count + 1), { s with escalations := s.escalations ++ [id] })

/-- `REGEXP_REPLACE(version_id, '[^0-9]', '', 'g')::BIGINT`. -/
def versionDigits (v : Text) : Option Nat := Text.parseNat (v.filter Char.isDigit)

/-- HEAD only moves to a higher number; a HEAD without a digit makes the comparison fail. -/
def setHead : Option Text → Proc MigrationDb ApiError Unit
  | none => pure ()
  | some v => fun s =>
    let moved := { s with backend := { s.backend with head := some v } }
    match s.backend.head with
    | none => (.ok (), moved)
    | some old =>
      match versionDigits old, versionDigits v with
      | some m, some n => (.ok (), if m < n then moved else s)
      | _, _ => (.error .internal, s)

/-- An error undoes everything but the steps of the sequence. -/
def transaction {α : Type} (m : Proc MigrationDb ApiError α) : Proc MigrationDb ApiError α := fun s =>
  match m s with
  | (.ok a, s') => (.ok a, s')
  | (.error e, s') => (.error e, { s with backend := { s.backend with nextEvent := s'.backend.nextEvent } })

def notPostgres : ApiError := .badRequest
  "migration endpoint requires a Postgres-backed server; this server is running in local SQLite mode".toList

/-- The statements of the transaction. -/
def migrate (payload : MigrationPayload) : Proc MigrationDb ApiError MigrationSummary := do
  let events ← payload.events.foldlM insertEvent 0
  let issues ← payload.issues.foldlM insertIssue 0
  let versions ← payload.versions.foldlM insertVersion 0
  let escalations ← payload.escalations.foldlM insertEscalation 0
  setHead payload.headVersion
  pure ⟨events, issues, versions, escalations, payload.headVersion⟩

/-- `migrate_handler`. -/
def migrateHandler (mode : StorageMode) (payload : MigrationPayload) : Proc MigrationDb ApiError MigrationSummary :=
  match mode with
  | .local => fail notPostgres
  | .server => transaction (migrate payload)

/-! ## Events -/

variable {s s' : MigrationDb} {payload : MigrationPayload}

/-- The copies of a log, from the next id on; an event that is there already leaves a gap. -/
def copies (L : List Nat) : Nat → List Event → List Event
  | _, [] => []
  | n, e :: es => if e.id ∈ L then copies L (n + 1) es else ⟨n, e.kind⟩ :: copies L (n + 1) es

theorem copies_cons (L : List Nat) (n : Nat) (e : Event) (es : List Event) :
    copies L n (e :: es) = if e.id ∈ L then copies L (n + 1) es else ⟨n, e.kind⟩ :: copies L (n + 1) es := rfl

/-- The events of a log that are not there yet. -/
def unseen (L : List Nat) (events : List Event) : List Event := events.filter (fun e => e.id ∉ L)

/-- The tables after the events. -/
def copied (events : List Event) (s : MigrationDb) : MigrationDb := { s with
  backend := { s.backend with
    events := s.backend.events ++ copies s.localIds s.backend.nextEvent events
    nextEvent := s.backend.nextEvent + events.length }
  localIds := s.localIds ++ (unseen s.localIds events).map Event.id }

theorem copies_congr {L L' : List Nat} : ∀ {es : List Event} {n : Nat}, (∀ e ∈ es, e.id ∈ L ↔ e.id ∈ L') →
    copies L n es = copies L' n es
  | [], _, _ => rfl
  | e :: es, n, h => by
    unfold copies
    rw [copies_congr (fun f hf => h f (List.mem_cons_of_mem _ hf))]
    simp only [h e List.mem_cons_self]

theorem unseen_congr {L L' : List Nat} {es : List Event} (h : ∀ e ∈ es, e.id ∈ L ↔ e.id ∈ L') : unseen L es = unseen L' es := by
  apply List.filter_congr
  intro e he
  rw [decide_eq_decide, h e he]

theorem insertEvents_apply : ∀ (events : List Event) (count : Nat) (s : MigrationDb),
    events.Pairwise (fun e f => e.id < f.id) → ∃ n, events.foldlM insertEvent count s = (.ok n, copied events s)
  | [], count, s, _ => ⟨count, by simp [copied, copies, unseen]⟩
  | e :: es, count, s, h => by
    obtain ⟨hlt, hes⟩ := List.pairwise_cons.1 h
    rw [List.foldlM_cons]
    by_cases he : e.id ∈ s.localIds
    · have hstep : insertEvent count e s =
          (.ok count, { s with backend := { s.backend with nextEvent := s.backend.nextEvent + 1 } }) := if_pos he
      rw [bind_of_ok hstep]
      obtain ⟨n, hn⟩ := insertEvents_apply es count
        { s with backend := { s.backend with nextEvent := s.backend.nextEvent + 1 } } hes
      refine ⟨n, hn.trans ?_⟩
      have hlen : s.backend.nextEvent + 1 + es.length = s.backend.nextEvent + (e :: es).length := by
        rw [List.length_cons]
        omega
      simp only [copied, copies, unseen, he, if_true, hlen, not_true, decide_false, List.filter_cons, Bool.false_eq_true,
        if_false]
    · have hstep : insertEvent count e s = (.ok (count + 1), { s with
          backend := { s.backend with events := s.backend.events ++ [⟨s.backend.nextEvent, e.kind⟩]
                                      nextEvent := s.backend.nextEvent + 1 }
          localIds := s.localIds ++ [e.id] }) := if_neg he
      rw [bind_of_ok hstep]
      obtain ⟨n, hn⟩ := insertEvents_apply es (count + 1) { s with
          backend := { s.backend with events := s.backend.events ++ [⟨s.backend.nextEvent, e.kind⟩]
                                      nextEvent := s.backend.nextEvent + 1 }
          localIds := s.localIds ++ [e.id] } hes
      refine ⟨n, hn.trans ?_⟩
      -- the ids grow, so no later event is the one just inserted
      have hmem : ∀ f ∈ es, f.id ∈ s.localIds ++ [e.id] ↔ f.id ∈ s.localIds := by
        intro f hf
        have := hlt f hf
        simp only [List.mem_append, List.mem_singleton, or_iff_left_iff_imp]
        omega
      have hlen : s.backend.nextEvent + 1 + es.length = s.backend.nextEvent + (e :: es).length := by
        rw [List.length_cons]
        omega
      simp only [copied, copies, he, if_false, hlen, copies_congr hmem, unseen_congr hmem, List.append_assoc]
      simp [unseen, he]

/-- A log whose events are all there only moves the sequence. -/
theorem copied_of_seen {events : List Event} (h : ∀ e ∈ events, e.id ∈ s.localIds) :
    copied events s = { s with backend := { s.backend with nextEvent := s.backend.nextEvent + events.length } } := by
  have hcopies : ∀ (es : List Event) (n : Nat), (∀ e ∈ es, e.id ∈ s.localIds) → copies s.localIds n es = [] := by
    intro es
    induction es with
    | nil => exact fun _ _ => rfl
    | cons e es ih =>
      intro n hes
      unfold copies
      rw [if_pos (hes e List.mem_cons_self)]
      exact ih (n + 1) fun f hf => hes f (List.mem_cons_of_mem _ hf)
  have hunseen : unseen s.localIds events = [] := List.filter_eq_nil_iff.2 fun e he => by simpa using h e he
  simp only [copied, hcopies events _ h, hunseen, List.map_nil, List.append_nil]

/-! ## The other tables -/

/-- The versions whose ids are not taken. -/
def newVersions (taken versions : List VersionMeta) : List VersionMeta :=
  versions.filter (fun v => ∀ u ∈ taken, u.versionId ≠ v.versionId)

theorem mem_newVersions {taken versions : List VersionMeta} {v : VersionMeta} :
    v ∈ newVersions taken versions ↔ v ∈ versions ∧ ∀ u ∈ taken, u.versionId ≠ v.versionId := by
  unfold newVersions
  rw [List.mem_filter, decide_eq_true_iff]

theorem any_versionId {taken : List VersionMeta} {v : VersionMeta} :
    taken.any (fun u => u.versionId = v.versionId) = true ↔ ¬ ∀ u ∈ taken, u.versionId ≠ v.versionId := by
  simp

theorem insertVersion_taken {v : VersionMeta} (h : s.backend.versions.any (fun u => u.versionId = v.versionId) = true)
    (n : Nat) : insertVersion n v s = (.ok n, s) := if_pos h

/-- The versions go into their table, those that are new, or one of them points nowhere. -/
theorem insertVersions_ends : ∀ (versions : List VersionMeta) (count : Nat) (s : MigrationDb),
    (versions.map VersionMeta.versionId).Nodup → Ends (versions.foldlM insertVersion count) s
      (fun _ s' => s' = { s with backend := { s.backend with
        versions := s.backend.versions ++ newVersions s.backend.versions versions } }) (fun _ _ => True)
  | [], _, s, _ => ends_pure (by simp [newVersions])
  | v :: vs, count, s, h => by
    rw [List.map_cons, List.nodup_cons] at h
    rw [List.foldlM_cons]
    by_cases htaken : s.backend.versions.any (fun u => u.versionId = v.versionId) = true
    · refine ends_bind_of_ok (insertVersion_taken htaken count)
        ((insertVersions_ends vs count s h.2).mono (fun _ s' hs' => ?_) fun _ _ _ => trivial)
      rw [hs']
      simp only [newVersions, List.filter_cons, any_versionId.1 htaken, decide_false, Bool.false_eq_true, if_false]
    by_cases hdangling : v.mergeEventId.any (fun i => i ∉ s.backend.events.map Event.id ∧ i ∉ s.backend.foreign) = true
    · have hstep : insertVersion count v s = (.error .internal, s) := by
        unfold insertVersion
        rw [if_neg htaken, if_pos hdangling]
      apply ends_bind
      unfold Ends
      rw [hstep]
      trivial
    · have hstep : insertVersion count v s = (.ok (count + 1), { s with backend := { s.backend with
          versions := s.backend.versions ++ [v] } }) := by
        unfold insertVersion
        rw [if_neg htaken, if_neg hdangling]
      refine ends_bind_of_ok hstep ((insertVersions_ends vs (count + 1) _ h.2).mono (fun _ s' hs' => ?_) fun _ _ _ => trivial)
      have hnew : ∀ u ∈ s.backend.versions, u.versionId ≠ v.versionId := by
        by_contra hno
        exact htaken (any_versionId.2 hno)
      -- no later version has the name of this one
      have hrest : newVersions (s.backend.versions ++ [v]) vs = newVersions s.backend.versions vs := by
        apply List.filter_congr
        intro w hw
        have hvw : v.versionId ≠ w.versionId := fun he => h.1 (List.mem_map.2 ⟨w, hw, he.symm⟩)
        rw [decide_eq_decide]
        constructor
        · exact fun hall u hu => hall u (List.mem_append_left _ hu)
        · intro hall u hu
          rcases List.mem_append.1 hu with hu | hu
          · exact hall u hu
          · rw [List.mem_singleton.1 hu]
            exact hvw
      rw [hs']
      dsimp only
      rw [hrest]
      simp only [newVersions, List.filter_cons, decide_eq_true hnew, if_true, List.append_assoc, List.singleton_append]

theorem insertIssue_seen {q : Uuid × IssueStatus} (h : (s.backend.issues.get q.1).isSome ∨ q.1 ∈ s.foreignIssues)
    (n : Nat) : insertIssue n q s = (.ok n, s) := if_pos h

theorem insertIssue_new {q : Uuid × IssueStatus} (h : ¬ ((s.backend.issues.get q.1).isSome ∨ q.1 ∈ s.foreignIssues))
    (n : Nat) : insertIssue n q s =
      (.ok (n + 1), { s with backend := { s.backend with issues := s.backend.issues.insert q.1 q.2 } }) := if_neg h

theorem insertIssues_ends (issues : List (Uuid × IssueStatus)) (count : Nat) (s : MigrationDb) :
    Ends (issues.foldlM insertIssue count) s
      (fun _ s' => (∃ table, s' = { s with backend := { s.backend with issues := table } }) ∧
        ∀ q ∈ issues, (s'.backend.issues.get q.1).isSome ∨ q.1 ∈ s'.foreignIssues) (fun _ _ => False) := by
  have h := ends_foldlM (E := fun _ _ => False) (f := insertIssue) (fun pre _ s' =>
    (∃ table, s' = { s with backend := { s.backend with issues := table } }) ∧
      ∀ q ∈ pre, (s'.backend.issues.get q.1).isSome ∨ q.1 ∈ s'.foreignIssues) issues [] count s ⟨⟨_, rfl⟩, by simp⟩
  apply h
  rintro pre q post n s' - ⟨⟨table, rfl⟩, hpre⟩
  unfold Ends
  by_cases hseen : (table.get q.1).isSome ∨ q.1 ∈ s.foreignIssues
  · rw [insertIssue_seen hseen]
    refine ⟨⟨table, rfl⟩, fun r hr => ?_⟩
    rcases List.mem_append.1 hr with hr | hr
    · exact hpre r hr
    · rw [List.mem_singleton.1 hr]
      exact hseen
  · rw [insertIssue_new hseen]
    refine ⟨⟨_, rfl⟩, fun r hr => ?_⟩
    show (FMap.get (table.insert q.1 q.2) r.1).isSome = true ∨ _
    rw [FMap.get_insert]
    rcases List.mem_append.1 hr with hr | hr
    · split
      · exact .inl rfl
      · exact hpre r hr
    · rw [List.mem_singleton.1 hr, if_pos rfl]
      exact .inl rfl

theorem insertEscalation_seen {i : Uuid} (h : i ∈ s.escalations) (n : Nat) : insertEscalation n i s = (.ok n, s) := if_pos h

theorem insertEscalation_new {i : Uuid} (h : i ∉ s.escalations) (n : Nat) :
    insertEscalation n i s = (.ok (n + 1), { s with escalations := s.escalations ++ [i] }) := if_neg h

theorem insertEscalations_ends (ids : List Uuid) (count : Nat) (s : MigrationDb) :
    Ends (ids.foldlM insertEscalation count) s
      (fun _ s' => (∃ table, s' = { s with escalations := table }) ∧ ∀ i ∈ ids, i ∈ s'.escalations) (fun _ _ => False) := by
  have h := ends_foldlM (E := fun _ _ => False) (f := insertEscalation) (fun pre _ s' =>
    (∃ table, s' = { s with escalations := table }) ∧ ∀ i ∈ pre, i ∈ s'.escalations) ids [] count s ⟨⟨_, rfl⟩, by simp⟩
  apply h
  rintro pre i post n s' - ⟨⟨table, rfl⟩, hpre⟩
  unfold Ends
  by_cases hseen : i ∈ table
  · rw [insertEscalation_seen hseen]
    refine ⟨⟨table, rfl⟩, fun j hj => ?_⟩
    rcases List.mem_append.1 hj with hj | hj
    · exact hpre j hj
    · rw [List.mem_singleton.1 hj]
      exact hseen
  · rw [insertEscalation_new hseen]
    refine ⟨⟨_, rfl⟩, fun j hj => ?_⟩
    rcases List.mem_append.1 hj with hj | hj
    · exact List.mem_append_left _ (hpre j hj)
    · exact List.mem_append_right _ hj

theorem setHead_ends (head : Option Text) (s : MigrationDb) : Ends (setHead head) s
    (fun _ s' => (∃ v, s' = { s with backend := { s.backend with head := v } }) ∧
      ∀ v, head = some v → ∃ old, s'.backend.head = some old ∧ (old = v ∨ ∃ m n, versionDigits old = some m ∧
        versionDigits v = some n ∧ n ≤ m)) (fun _ _ => True) := by
  cases head with
  | none => exact ends_pure ⟨⟨_, rfl⟩, fun v h => by cases h⟩
  | some v =>
    have hmoved : ∀ w, some v = some w → ∃ old, some v = some old ∧ (old = w ∨ ∃ m n, versionDigits old = some m ∧
        versionDigits w = some n ∧ n ≤ m) := fun w hw => ⟨w, hw, .inl rfl⟩
    unfold Ends
    cases hold : s.backend.head with
    | none =>
      simp only [setHead, hold]
      exact ⟨⟨_, rfl⟩, hmoved⟩
    | some old =>
      cases hm : versionDigits old with
      | none => simp only [setHead, hold, hm]
      | some m =>
        cases hn : versionDigits v with
        | none => simp only [setHead, hold, hm, hn]
        | some n =>
          by_cases hlt : m < n
          · simp only [setHead, hold, hm, hn, if_pos hlt]
            exact ⟨⟨_, rfl⟩, hmoved⟩
          · simp only [setHead, hold, hm, hn, if_neg hlt]
            refine ⟨⟨some old, ?_⟩, fun w hw => ⟨old, rfl, .inr ⟨m, n, hm, ?_, Nat.not_lt.1 hlt⟩⟩⟩
            · rw [← hold]
            · rw [← Option.some.inj hw]
              exact hn

/-! ## The whole transaction -/

/-- What a migration leaves. -/
structure Migrated (payload : MigrationPayload) (s s' : MigrationDb) : Prop where
  events : s'.backend.events = s.backend.events ++ copies s.localIds s.backend.nextEvent payload.events
  localIds : s'.localIds = s.localIds ++ (unseen s.localIds payload.events).map Event.id
  versions : s'.backend.versions = s.backend.versions ++ newVersions s.backend.versions payload.versions
  workspaces : s'.backend.workspaces = s.backend.workspaces
  issues : ∀ q ∈ payload.issues, (s'.backend.issues.get q.1).isSome ∨ q.1 ∈ s'.foreignIssues
  escalations : ∀ i ∈ payload.escalations, i ∈ s'.escalations
  head : ∀ v, payload.headVersion = some v → ∃ old, s'.backend.head = some old ∧
    (old = v ∨ ∃ m n, versionDigits old = some m ∧ versionDigits v = some n ∧ n ≤ m)

theorem migrate_ends (payload : MigrationPayload) (s : MigrationDb) :
    Ends (migrate payload) s (fun _ s' => Migrated payload s s') (fun _ _ => True) := by
  unfold migrate
  obtain ⟨n, hevents⟩ := insertEvents_apply payload.events 0 s payload.sorted
  apply ends_bind_of_ok hevents
  refine (insertIssues_ends payload.issues 0 _).bind (fun _ _ h => h.elim) ?_
  rintro n₁ s₁ ⟨⟨issues, rfl⟩, hissues⟩
  refine (insertVersions_ends payload.versions 0 _ payload.named).bind (fun _ _ _ => trivial) ?_
  rintro n₂ s₂ rfl
  refine (insertEscalations_ends payload.escalations 0 _).bind (fun _ _ h => h.elim) ?_
  rintro n₃ s₃ ⟨⟨escalations, rfl⟩, hescalations⟩
  refine (setHead_ends payload.headVersion _).bind (fun _ _ _ => trivial) ?_
  rintro _ s₄ ⟨⟨head, rfl⟩, hhead⟩
  exact ends_pure ⟨rfl, rfl, rfl, rfl, hissues, hescalations, hhead⟩

theorem migrateHandler_ends (payload : MigrationPayload) (s : MigrationDb) :
    Ends (migrateHandler .server payload) s (fun _ s' => Migrated payload s s') (fun _ _ => True) := by
  have h := migrate_ends payload s
  show Ends (transaction (migrate payload)) s _ _
  unfold Ends transaction at *
  rcases hm : migrate payload s with ⟨e | r, s'⟩
  · trivial
  · rw [hm] at h
    exact h

/-! ## Once more -/

theorem foldlM_seen {α : Type} {f : Nat → α → Proc MigrationDb ApiError Nat} : ∀ {l : List α},
    (∀ a ∈ l, ∀ n, f n a s = (.ok n, s)) → ∀ n, l.foldlM f n s = (.ok n, s)
  | [], _, _ => rfl
  | a :: l, h, n => by
    rw [List.foldlM_cons, bind_of_ok (h a List.mem_cons_self n)]
    exact foldlM_seen (fun b hb => h b (List.mem_cons_of_mem _ hb)) n

theorem setHead_again (head : Option Text) (h : ∀ v, head = some v → ∃ old, s.backend.head = some old ∧
      (old = v ∨ ∃ m n, versionDigits old = some m ∧ versionDigits v = some n ∧ n ≤ m)) :
    Ends (setHead head) s (fun _ s' => s' = s) (fun _ _ => True) := by
  cases head with
  | none => exact ends_pure rfl
  | some v =>
    obtain ⟨old, hold, hfar⟩ := h v rfl
    unfold Ends
    cases hm : versionDigits old with
    | none => simp only [setHead, hold, hm]
    | some m =>
      cases hn : versionDigits v with
      | none => simp only [setHead, hold, hm, hn]
      | some n =>
        have hle : ¬ m < n := by
          rcases hfar with rfl | ⟨m', n', hm', hn', hle⟩
          · rw [hm] at hn
            cases hn
            omega
          · rw [hm] at hm'
            rw [hn] at hn'
            cases hm'
            cases hn'
            omega
        simp only [setHead, hold, hm, hn, if_neg hle]

/-- The rows are the same; the sequence of the events may have moved. -/
def SameTables (s s' : MigrationDb) : Prop := ∃ n, s' = { s with backend := { s.backend with nextEvent := n } }

theorem migrate_again (h : Migrated payload s s') :
    Ends (migrateHandler .server payload) s' (fun _ s'' => SameTables s' s'') (fun _ s'' => SameTables s' s'') := by
  have hlocal : ∀ e ∈ payload.events, e.id ∈ s'.localIds := by
    intro e he
    rw [h.localIds]
    by_cases hmem : e.id ∈ s.localIds
    · exact List.mem_append_left _ hmem
    · exact List.mem_append_right _ (List.mem_map.2 ⟨e, List.mem_filter.2 ⟨he, by simpa using hmem⟩, rfl⟩)
  have hversions : ∀ v ∈ payload.versions, s'.backend.versions.any (fun u => u.versionId = v.versionId) = true := by
    intro v hv
    rw [any_versionId, h.versions]
    intro hall
    by_cases hnew : ∀ u ∈ s.backend.versions, u.versionId ≠ v.versionId
    · exact hall v (List.mem_append_right _ (mem_newVersions.2 ⟨hv, hnew⟩)) rfl
    · exact hnew fun u hu => hall u (List.mem_append_left _ hu)
  have hrun : Ends (migrate payload) s' (fun _ s'' => SameTables s' s'') (fun _ _ => True) := by
    unfold migrate
    obtain ⟨n, hevents⟩ := insertEvents_apply payload.events 0 s' payload.sorted
    rw [copied_of_seen hlocal] at hevents
    apply ends_bind_of_ok hevents
    generalize hs₁ : ({ s' with backend := { s'.backend with
      nextEvent := s'.backend.nextEvent + payload.events.length } } : MigrationDb) = s₁
    have hissues : ∀ q ∈ payload.issues, (s₁.backend.issues.get q.1).isSome ∨ q.1 ∈ s₁.foreignIssues := by
      rw [← hs₁]
      exact h.issues
    have htaken : ∀ v ∈ payload.versions, s₁.backend.versions.any (fun u => u.versionId = v.versionId) = true := by
      rw [← hs₁]
      exact hversions
    have hescalations : ∀ i ∈ payload.escalations, i ∈ s₁.escalations := by
      rw [← hs₁]
      exact h.escalations
    apply ends_bind_of_ok (foldlM_seen (fun q hq m => insertIssue_seen (hissues q hq) m) 0)
    apply ends_bind_of_ok (foldlM_seen (fun v hv m => insertVersion_taken (htaken v hv) m) 0)
    apply ends_bind_of_ok (foldlM_seen (fun i hi m => insertEscalation_seen (hescalations i hi) m) 0)
    refine (setHead_again payload.headVersion (by rw [← hs₁]; exact h.head)).bind (fun _ _ _ => trivial) ?_
    rintro _ s₂ rfl
    exact ends_pure ⟨_, hs₁.symm⟩
  show Ends (transaction (migrate payload)) s' _ _
  unfold Ends transaction at *
  rcases hm : migrate payload s' with ⟨e | r, s''⟩
  · exact ⟨_, rfl⟩
  · rw [hm] at hrun
    exact hrun

/-! ## What the versions point at -/

def isChange (kind : EventKind) : Bool := (Version.entityChange kind).isSome || (Version.fileChange kind).isSome

/-- The changes that a log has of a workspace. -/
def changesIn (events : List Event) (w : Uuid) : List EventKind :=
  (events.map Event.kind).filter (fun kind => kind.workspaceId = some w && isChange kind)

/-- The changes of a version: those of the workspace that its merge event names, in the order of their ids. -/
def changesOf (events : List Event) (mid : Nat) : List EventKind :=
  match workspaceOf (events.filter (fun e => isMerge e.kind)) mid with
  | some w => changesIn (orderById events) w
  | none => []

theorem changesOf_sorted {events : List Event} (h : events.Pairwise (fun e f => e.id < f.id)) {e : Event}
    (he : e ∈ events) (hm : isMerge e.kind = true) {w : Uuid} (hw : e.kind.workspaceId = some w) :
    changesOf events e.id = changesIn events w := by
  unfold changesOf
  rw [workspaceOf_sorted h he hm, hw]
  show changesIn (orderById events) w = _
  rw [orderById, List.Pairwise.insertionSort_eq (h.imp fun h => Nat.le_of_lt h)]

theorem changesIn_append (l l' : List Event) (w : Uuid) : changesIn (l ++ l') w = changesIn l w ++ changesIn l' w := by
  unfold changesIn
  rw [List.map_append, List.filter_append]

theorem mem_copies {L : List Nat} : ∀ {es : List Event} {n j : Nat} {kind : EventKind}, ⟨j, kind⟩ ∈ copies L n es ↔
    ∃ i e, es[i]? = some e ∧ e.id ∉ L ∧ e.kind = kind ∧ n + i = j
  | [], _, _, _ => by simp [copies]
  | e :: es, n, j, kind => by
    have ih := @mem_copies L es (n + 1) j kind
    have hhead : (∃ i f, (e :: es)[i]? = some f ∧ f.id ∉ L ∧ f.kind = kind ∧ n + i = j) ↔
        (e.id ∉ L ∧ e.kind = kind ∧ n = j) ∨ ∃ i f, es[i]? = some f ∧ f.id ∉ L ∧ f.kind = kind ∧ n + 1 + i = j := by
      constructor
      · rintro ⟨_ | i, f, hf, hL, hkind, hij⟩
        · cases hf
          exact .inl ⟨hL, hkind, hij⟩
        · exact .inr ⟨i, f, by simpa using hf, hL, hkind, by omega⟩
      · rintro (⟨hL, hkind, hij⟩ | ⟨i, f, hf, hL, hkind, hij⟩)
        · exact ⟨0, e, rfl, hL, hkind, hij⟩
        · exact ⟨i + 1, f, by simpa using hf, hL, hkind, by omega⟩
    rw [hhead, ← ih, copies_cons]
    by_cases hL : e.id ∈ L
    · simp [hL]
    · rw [if_neg hL, List.mem_cons, Event.mk.injEq]
      simp only [hL, not_false_eq_true, true_and]
      constructor
      · rintro (⟨rfl, rfl⟩ | h)
        · exact .inl ⟨rfl, rfl⟩
        · exact .inr h
      · rintro (⟨rfl, rfl⟩ | h)
        · exact .inl ⟨rfl, rfl⟩
        · exact .inr h

/-- The copies of a log have the kinds of what was not there. -/
theorem kinds_copies {L : List Nat} : ∀ {es : List Event} {n : Nat}, (copies L n es).map Event.kind = (unseen L es).map Event.kind
  | [], _ => rfl
  | e :: es, n => by
    unfold copies unseen
    by_cases hL : e.id ∈ L
    · simp [hL, kinds_copies, unseen]
    · simp [hL, kinds_copies, unseen]

theorem sorted_copies {L : List Nat} : ∀ {es : List Event} {n : Nat}, (copies L n es).Pairwise (fun e f => e.id < f.id)
  | [], _ => .nil
  | e :: es, n => by
    rw [copies_cons]
    by_cases hL : e.id ∈ L
    · rw [if_pos hL]
      exact sorted_copies
    · rw [if_neg hL, List.pairwise_cons]
      refine ⟨fun f hf => ?_, sorted_copies⟩
      obtain ⟨i, g, -, -, -, hij⟩ := mem_copies.1 (show ⟨f.id, f.kind⟩ ∈ copies L (n + 1) es from hf)
      show n < f.id
      omega

theorem Migrated.sorted (h : Migrated payload s s') (hnum : Numbered s.backend) :
    s'.backend.events.Pairwise (fun e f => e.id < f.id) := by
  rw [h.events]
  refine List.pairwise_append.2 ⟨hnum.sorted, sorted_copies, fun e he f hf => ?_⟩
  obtain ⟨i, g, -, -, -, hij⟩ := mem_copies.1 (show ⟨f.id, f.kind⟩ ∈ copies _ _ _ from hf)
  have := (hnum.bound e he).2
  omega

/-- Every version that came with the migration names the merge event that it named in the local log, and has the changes
that it had there. -/
def Linked (payload : MigrationPayload) (s s' : MigrationDb) : Prop :=
  ∀ v ∈ s'.backend.versions, (∀ u ∈ s.backend.versions, u.versionId ≠ v.versionId) →
    ∀ e ∈ payload.events, v.mergeEventId = some e.id → isMerge e.kind = true →
      ⟨e.id, e.kind⟩ ∈ s'.backend.events ∧ changesOf s'.backend.events e.id = changesOf payload.events e.id

/-- For every version that is new to the server and every local merge event that it names: the sequence hands the id of
the event in the local log to a copy of it, or the repository has it under this id already; and what the server has of
the changes of its workspace, with those that are yet to come, is what the local log has. -/
def Aligned (payload : MigrationPayload) (s : MigrationDb) : Prop :=
  ∀ v ∈ payload.versions, (∀ u ∈ s.backend.versions, u.versionId ≠ v.versionId) →
    ∀ e ∈ payload.events, v.mergeEventId = some e.id → isMerge e.kind = true →
      (⟨e.id, e.kind⟩ ∈ s.backend.events ∨ ∃ i f, payload.events[i]? = some f ∧ f.id ∉ s.localIds ∧ f.kind = e.kind ∧
        s.backend.nextEvent + i = e.id) ∧
      ∀ w, e.kind.workspaceId = some w → changesIn s.backend.events w ++ changesIn (unseen s.localIds payload.events) w =
        changesIn payload.events w

/-- **Migrated versions mean the same events exactly when the server hands out the ids of the local log again**; and a
second run with the same payload changes no row, whether it succeeds or not. -/
theorem migration_links_iff (hnum : Numbered s.backend) {summary : MigrationSummary}
    (h : migrateHandler .server payload s = (.ok summary, s')) :
    (Linked payload s s' ↔ Aligned payload s) ∧
      ∀ out s'', migrateHandler .server payload s' = (out, s'') → SameTables s' s'' := by
  have hm := (migrateHandler_ends payload s).ok h
  have hsorted := hm.sorted hnum
  constructor
  · have hversion : ∀ v, (v ∈ s'.backend.versions ∧ ∀ u ∈ s.backend.versions, u.versionId ≠ v.versionId) ↔
        v ∈ payload.versions ∧ ∀ u ∈ s.backend.versions, u.versionId ≠ v.versionId := by
      intro v
      rw [hm.versions, List.mem_append, mem_newVersions]
      constructor
      · rintro ⟨hv | hv, hnew⟩
        · exact absurd rfl (hnew v hv)
        · exact hv
      · exact fun hv => ⟨.inr hv, hv.2⟩
    have hevent : ∀ e ∈ payload.events, isMerge e.kind = true →
        ((⟨e.id, e.kind⟩ ∈ s'.backend.events ∧ changesOf s'.backend.events e.id = changesOf payload.events e.id) ↔
          (⟨e.id, e.kind⟩ ∈ s.backend.events ∨ ∃ i f, payload.events[i]? = some f ∧ f.id ∉ s.localIds ∧ f.kind = e.kind ∧
            s.backend.nextEvent + i = e.id) ∧
          ∀ w, e.kind.workspaceId = some w → changesIn s.backend.events w ++
            changesIn (unseen s.localIds payload.events) w = changesIn payload.events w) := by
      intro e he hmerge
      obtain ⟨w, hw⟩ : ∃ w, e.kind.workspaceId = some w := by
        cases hk : e.kind <;> rw [hk] at hmerge <;> first | exact ⟨_, rfl⟩ | cases hmerge
      have hmem : ⟨e.id, e.kind⟩ ∈ s'.backend.events ↔ ⟨e.id, e.kind⟩ ∈ s.backend.events ∨ ∃ i f,
          payload.events[i]? = some f ∧ f.id ∉ s.localIds ∧ f.kind = e.kind ∧ s.backend.nextEvent + i = e.id := by
        rw [hm.events, List.mem_append, mem_copies]
      have hserver : ⟨e.id, e.kind⟩ ∈ s'.backend.events → changesOf s'.backend.events e.id =
          changesIn s.backend.events w ++ changesIn (unseen s.localIds payload.events) w := by
        intro hin
        rw [changesOf_sorted hsorted hin hmerge hw, hm.events, changesIn_append]
        unfold changesIn
        rw [kinds_copies]
      have hlocal := changesOf_sorted payload.sorted he hmerge hw
      rw [← hmem]
      constructor
      · rintro ⟨hin, hchanges⟩
        refine ⟨hin, fun w' hw' => ?_⟩
        rw [hw] at hw'
        cases hw'
        rw [← hserver hin, hchanges, hlocal]
      · rintro ⟨hin, hchanges⟩
        refine ⟨hin, ?_⟩
        rw [hserver hin, hlocal, hchanges w hw]
    constructor
    · intro hl v hv hnew e he hid hmerge
      obtain ⟨hv', hnew'⟩ := (hversion v).2 ⟨hv, hnew⟩
      exact (hevent e he hmerge).1 (hl v hv' hnew' e he hid hmerge)
    · intro ha v hv hnew e he hid hmerge
      obtain ⟨hv', hnew'⟩ := (hversion v).1 ⟨hv, hnew⟩
      exact (hevent e he hmerge).2 (ha v hv' hnew' e he hid hmerge)
  · intro out s'' hrun
    have hagain := migrate_again hm
    cases out with
    | ok _ => exact hagain.ok hrun
    | error _ => exact hagain.error hrun

/-! ## A log of three events -/

/-- Workspace 1 adds the file `a` and becomes `v2`. -/
def oneMerge : MigrationPayload where
  events := [⟨1, .workspaceCreated 1 "add a".toList (versionName 1)⟩, ⟨2, .fileAdded 1 "a".toList []⟩,
    ⟨3, .mergeCompleted 1 (versionName 2) 0⟩]
  issues := []
  versions := [⟨versionName 1, none, "initial repository".toList, "system".toList, none⟩,
    ⟨versionName 2, some (versionName 1), "add a".toList, "agent".toList, some 3⟩]
  escalations := []
  headVersion := some (versionName 2)
  sorted := by decide
  named := by decide

/-- The first repository of a server. -/
def firstRepo : MigrationDb := ⟨fresh, [], [], []⟩

/-- A new repository beside another one, whose log has one event. -/
def secondRepo : MigrationDb := ⟨{ fresh with foreign := [1], nextEvent := 2 }, [], [], []⟩

theorem aligned_firstRepo : Aligned oneMerge firstRepo := by
  have hfirst : ∀ v ∈ oneMerge.versions, ∀ e ∈ oneMerge.events, v.mergeEventId = some e.id →
      e = ⟨3, .mergeCompleted 1 (versionName 2) 0⟩ := by
    decide
  intro v hv _ e he hid _
  rw [hfirst v hv e he hid]
  refine ⟨.inr ⟨2, ⟨3, .mergeCompleted 1 (versionName 2) 0⟩, rfl, List.not_mem_nil, rfl, rfl⟩, fun w _ => ?_⟩
  rfl

/-- The ids of the first repository are handed out again. -/
theorem migration_links_iff_first : ∃ summary s', migrateHandler .server oneMerge firstRepo = (.ok summary, s') ∧
    Linked oneMerge firstRepo s' := by
  have hok : (migrateHandler .server oneMerge firstRepo).1.isOk = true := by decide +kernel
  rcases hrun : migrateHandler .server oneMerge firstRepo with ⟨e | summary, s'⟩
  · rw [hrun] at hok
    cases hok
  · exact ⟨summary, s', rfl, (migration_links_iff numbered_fresh hrun).1.2 aligned_firstRepo⟩

/-- Beside another repository the ids move on by one: `v2` names the event that adds `a`, and no merge event. -/
theorem migration_breaks_links : (migrateHandler .server oneMerge secondRepo).1.isOk = true ∧
    ¬ Linked oneMerge secondRepo (migrateHandler .server oneMerge secondRepo).2 := by
  refine ⟨by decide +kernel, ?_⟩
  unfold Linked
  decide +kernel

end Handlers
end Vai
