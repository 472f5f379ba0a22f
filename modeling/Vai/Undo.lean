import Vai.Session
/-!
# Undo — a rollback after a submit

`rollback` knows a version only by the file events of its workspace, and these are recorded once, by the first diff.
What the overlay gains after that is submitted and never recorded, and what is recorded may no longer be true of the tree
that the submit finds: the workspace or another one may have changed it in between.  `rollback_undoes_submit_iff`: a
rollback brings the tree back exactly when at every path the last recorded event fits that tree (`Undoable`).  Deletions
are safe: the submit logs each of them once more.
-/
namespace Vai

open Proc

/-! ## The last event at a path -/

namespace Version

/-- `lastChange`, on the kinds of the events. -/
def lastKind (ks : List EventKind) (p : Path) : Option VersionFileChange :=
  ks.reverse.findSome? (fun k => (fileChange k).filter (fun c => c.path = p))

theorem lastChange_eq_lastKind (events : List Event) (p : Path) :
    lastChange events p = lastKind (events.map Event.kind) p := by
  unfold lastChange lastKind
  rw [← List.map_reverse, List.findSome?_map]
  rfl

theorem lastKind_append (ks ks' : List EventKind) (p : Path) :
    lastKind (ks ++ ks') p = (lastKind ks' p).or (lastKind ks p) := by
  simp [lastKind, List.findSome?_append]

theorem lastKind_some {ks : List EventKind} {p : Path} {c : VersionFileChange} (h : lastKind ks p = some c) :
    ∃ k ∈ ks, fileChange k = some c ∧ c.path = p := by
  obtain ⟨k, hk, hc⟩ := List.exists_of_findSome?_eq_some h
  obtain ⟨hc, hp⟩ := Option.filter_eq_some_iff.1 hc
  exact ⟨k, List.mem_reverse.1 hk, hc, by simpa using hp⟩

theorem lastKind_none {ks : List EventKind} {p : Path} :
    lastKind ks p = none ↔ ∀ k ∈ ks, ∀ c, fileChange k = some c → c.path ≠ p := by
  unfold lastKind
  rw [List.findSome?_eq_none_iff]
  constructor
  · intro h k hk c hc hp
    have := h k (List.mem_reverse.2 hk)
    simp [hc, hp] at this
  · intro h k hk
    refine Option.filter_eq_none_iff.2 fun c hc => ?_
    simpa using h k (List.mem_reverse.1 hk) c hc

theorem lastKind_removals (ws : Uuid) {D : List Path} {p : Path} (hp : p ∈ D) :
    ∃ c, lastKind (D.map (Merge.removedEvent ws)) p = some c ∧ c.changeType = .removed ∧ c.path = p := by
  cases h : lastKind (D.map (Merge.removedEvent ws)) p with
  | none => exact absurd rfl (lastKind_none.1 h _ (List.mem_map_of_mem hp) _ rfl)
  | some c =>
    obtain ⟨k, hk, hc, hcp⟩ := lastKind_some h
    obtain ⟨q, -, rfl⟩ := List.mem_map.1 hk
    cases hc
    exact ⟨_, rfl, rfl, hcp⟩

theorem lastKind_removals_none (ws : Uuid) {D : List Path} {p : Path} (hp : p ∉ D) :
    lastKind (D.map (Merge.removedEvent ws)) p = none := by
  refine lastKind_none.2 fun k hk c hc => ?_
  obtain ⟨q, hq, rfl⟩ := List.mem_map.1 hk
  cases hc
  exact fun h => hp (by rwa [← h])

theorem kinds_queryByWorkspace (v : VaiDir) (i : Uuid) :
    (v.queryByWorkspace i).map Event.kind = (v.log.map Event.kind).filter (fun k => k.workspaceId = some i) := by
  unfold VaiDir.queryByWorkspace
  rw [List.filter_map]
  rfl

end Version

/-! ## The log after a submit -/

theorem VaiDir.id_lt_nextEventId {log : List Event} {e : Event} (he : e ∈ log) : e.id < nextEventId log := by
  have := ((foldl_max_le (log.map Event.id) 0).1 le_rfl).2 e.id (List.mem_map_of_mem he)
  unfold nextEventId
  omega

namespace Merge

/-- The kinds of events a submit adds before its merge event. -/
def submitKinds (m : WorkspaceMeta) (d : WorkspaceDiff) (D : List Path) : List EventKind :=
  (if m.status = .created then Diff.events d else []) ++ [.workspaceSubmitted m.id (changesSummary d)] ++
    D.map (removedEvent m.id)

/-- The log up to the merge event, that event, and where the record of the version finds it. -/
theorem submittedDir_log (m : WorkspaceMeta) (v : VaiDir) (d : WorkspaceDiff) (D : List Path) (auto : Nat)
    (a : Option Uuid) (g : GraphSnapshot) : ∃ log e,
      (submittedDir m v d D auto a g).log = log ++ [⟨VaiDir.nextEventId log, .mergeCompleted m.id v.nextVersionId auto⟩, e] ∧
      log.map Event.kind = v.log.map Event.kind ++ submitKinds m d D ∧
      e.kind = .versionCreated v.nextVersionId (some m.baseVersion) m.intent ∧
      (submittedDir m v d D auto a g).versions.get v.nextVersionId =
        some (newRecord m v.nextVersionId (VaiDir.nextEventId log)) := by
  have hrec : (Diff.recorded d m v).log.map Event.kind =
      v.log.map Event.kind ++ (if m.status = .created then Diff.events d else []) := by
    unfold Diff.recorded
    split
    · exact VaiDir.map_kind_pushEvents _ _
    · simp
  obtain ⟨log, hlog⟩ : ∃ log, log = (D.map (removedEvent m.id)).foldl VaiDir.pushEvent
    (VaiDir.pushEvent (Diff.recorded d m v).log (.workspaceSubmitted m.id (changesSummary d))) := ⟨_, rfl⟩
  have hdir : (submittedDir m v d D auto a g).log = VaiDir.pushEvent (VaiDir.pushEvent log
      (.mergeCompleted m.id v.nextVersionId auto)) (.versionCreated v.nextVersionId (some m.baseVersion) m.intent) := by
    rw [hlog]
    rfl
  refine ⟨log, ⟨VaiDir.nextEventId (VaiDir.pushEvent log (.mergeCompleted m.id v.nextVersionId auto)),
    .versionCreated v.nextVersionId (some m.baseVersion) m.intent⟩, ?_, ?_, rfl, ?_⟩
  · rw [hdir]
    simp only [VaiDir.pushEvent, List.append_assoc, List.singleton_append]
  · rw [hlog, VaiDir.map_kind_pushEvents, VaiDir.pushEvent, List.map_append, hrec]
    simp [submitKinds]
  · show FMap.get (AList.insert _ _ _) _ = _
    rw [FMap.get_insert, if_pos rfl, hlog]
    rfl

/-- Nothing has happened to the tree, the snapshots, the version records and the events of the workspace `i`. -/
structure Idle (i : Uuid) (w w' : World Disk) : Prop where
  base : w'.fs.base = w.fs.base
  snapshot : w'.fs.snapshot = w.fs.snapshot
  versions : w'.vai.versions = w.vai.versions
  log : ∃ later, w'.vai.log = w.vai.log ++ later ∧ ∀ e ∈ later, e.kind.workspaceId ≠ some i

variable {env : Env} {m : WorkspaceMeta} {D : List Path} {r : SubmitResult} {w w₁ w₂ : World Disk} {K : Nat}

theorem lastChange_submitted (hq : env.Quiet) (hl : Landed env m D r w w₁) (hidle : Idle m.id w₁ w₂) :
    ∃ l d rec, Lists l (w.fs.overlay m.id).get ∧ d.fileDiffs = Diff.fileDiffs env (w.fs.files m.id) l D ∧
      w₂.vai.versions.get r.version.versionId = some rec ∧
      ∀ p, Version.lastChange (Version.eventsOf w₂.vai rec) p =
        (Version.lastKind (D.map (removedEvent m.id)) p).or
          ((Version.lastKind (if m.status = .created then Diff.events d else []) p).or
            (Version.lastChange (w.vai.queryByWorkspace m.id) p)) := by
  obtain ⟨l, d, R, a, g, hlist, hd, hid, hR, hv⟩ := hl.dir
  obtain rfl := hR.resolve_right hq.not_faulty
  obtain ⟨log, e, hlog, hkinds, he, hver⟩ := submittedDir_log m w.vai d R r.autoResolved a g
  obtain ⟨later, hlater, hno⟩ := hidle.log
  rw [hv, hlog] at hlater
  refine ⟨l, d, _, hlist, hd, by rw [hidle.versions, hv, hl.version]; exact hver, fun p => ?_⟩
  -- the merge event is the first with its number, so the version is traced back to the workspace
  have hfind : w₂.vai.getById (VaiDir.nextEventId log) =
      some ⟨VaiDir.nextEventId log, .mergeCompleted m.id w.vai.nextVersionId r.autoResolved⟩ := by
    unfold VaiDir.getById
    rw [hlater, List.append_assoc, List.find?_append, List.find?_eq_none.2 (fun e he => by
      simpa using Nat.ne_of_lt (VaiDir.id_lt_nextEventId he))]
    simp
  have hev : Version.eventsOf w₂.vai (newRecord m w.vai.nextVersionId (VaiDir.nextEventId log)) =
      w₂.vai.queryByWorkspace m.id := by
    unfold Version.eventsOf
    simp only [newRecord, Option.bind_some, hfind]
    rfl
  have hlate : (later.map Event.kind).filter (fun k => decide (k.workspaceId = some m.id)) = [] := by
    rw [List.filter_eq_nil_iff]
    intro k hk
    obtain ⟨e, he, rfl⟩ := List.mem_map.1 hk
    simpa using hno e he
  have hall : ∀ ks : List EventKind, (∀ k ∈ ks, k.workspaceId = some m.id) →
      ks.filter (fun k => decide (k.workspaceId = some m.id)) = ks :=
    fun ks hks => List.filter_eq_self.2 fun k hk => by simpa using hks k hk
  have hrem : ∀ k ∈ R.map (removedEvent m.id), k.workspaceId = some m.id := by
    intro k hk
    obtain ⟨q, -, rfl⟩ := List.mem_map.1 hk
    rfl
  have hevents : ∀ k ∈ (if m.status = .created then Diff.events d else []), k.workspaceId = some m.id := by
    intro k hk
    split at hk
    · rw [Diff.events, hid] at hk
      rcases List.mem_append.1 hk with hk | hk
      · obtain ⟨fd, -, rfl⟩ := List.mem_map.1 hk
        unfold Diff.fileEvent
        split <;> rfl
      · obtain ⟨ec, -, rfl⟩ := List.mem_map.1 hk
        unfold Diff.entityEvent
        split <;> rfl
    · cases hk
  have hend : Version.lastKind ([.mergeCompleted m.id w.vai.nextVersionId r.autoResolved, e.kind].filter
      (fun k => decide (k.workspaceId = some m.id))) p = none := by
    refine Version.lastKind_none.2 fun k hk c hc => ?_
    rcases List.mem_cons.1 (List.mem_filter.1 hk).1 with rfl | hk
    · cases hc
    · rw [List.mem_singleton.1 hk, he] at hc
      cases hc
  have hsub : Version.lastKind ([.workspaceSubmitted m.id (changesSummary d)].filter
      (fun k => decide (k.workspaceId = some m.id))) p = none := by
    refine Version.lastKind_none.2 fun k hk c hc => ?_
    rw [List.mem_singleton.1 (List.mem_filter.1 hk).1] at hc
    cases hc
  simp only [hev, Version.lastChange_eq_lastKind, Version.kinds_queryByWorkspace, hlater]
  simp only [List.map_append, List.map_cons, List.map_nil, List.filter_append, hlate, hkinds, submitKinds, hall _ hrem,
    hall _ hevents, Version.lastKind_append, hend, hsub, List.append_nil, Option.none_or, Option.or_assoc]

theorem map_path_fileEvents (ws : Uuid) (l : List FileDiff) :
    (l.map (Diff.fileEvent ws)).filterMap (fun k => (Version.fileChange k).map Version.VersionFileChange.path) =
      l.map FileDiff.path := by
  rw [List.filterMap_map, ← List.filterMap_eq_map]
  refine List.filterMap_congr fun fd _ => ?_
  simp only [Function.comp_apply, Diff.fileEvent]
  split <;> rfl

/-- The last event that a diff records at a path, one of its own paths, agrees with the tree. -/
theorem lastKind_events {V : Files} {l : List Path} {d : WorkspaceDiff} {p : Path}
    (hd : d.fileDiffs = Diff.fileDiffs env V l D) (hp : p ∉ D) :
    (p ∈ l → ∃ c, Version.lastKind (Diff.events d) p = some c ∧ c.path = p ∧ (c.changeType = .added ↔ V (.base p) = none)) ∧
      (p ∉ l → Version.lastKind (Diff.events d) p = none) := by
  have hpaths : ∀ k ∈ Diff.events d, ∀ c, Version.fileChange k = some c → c.path ∈ l ++ D := by
    intro k hk c hc
    rcases List.mem_append.1 hk with hk | hk
    · have hmem : c.path ∈ d.fileDiffs.map FileDiff.path := by
        rw [← map_path_fileEvents d.workspaceId]
        exact List.mem_filterMap.2 ⟨k, hk, by rw [hc]; rfl⟩
      rw [hd, Diff.map_path_fileDiffs] at hmem
      exact (List.mem_append.1 hmem).elim (List.mem_append_left _) fun h => List.mem_append_right _ (List.mem_filter.1 h).1
    · obtain ⟨ec, -, rfl⟩ := List.mem_map.1 hk
      unfold Diff.entityEvent at hc
      split at hc <;> cases hc
  constructor
  · intro hl
    cases hlast : Version.lastKind (Diff.events d) p with
    | none =>
      have hmem : Diff.overlayDiff env V p ∈ d.fileDiffs := by
        rw [hd, Diff.fileDiffs]
        exact List.mem_append_left _ (List.mem_map_of_mem hl)
      refine absurd rfl (Version.lastKind_none.1 hlast _ (List.mem_append_left _ (List.mem_map_of_mem hmem)) ⟨p,
        if (V (.base p)).isSome then .modified else .added, some (Diff.overlayDiff env V p).contentHash⟩ ?_)
      cases hb : (V (.base p)).isSome <;> simp [Diff.fileEvent, Diff.overlayDiff, Diff.overlayEntry, hb, Version.fileChange]
    | some c =>
      obtain ⟨k, hk, hc, rfl⟩ := Version.lastKind_some hlast
      exact ⟨c, rfl, rfl, agrees_events hd hk c hc⟩
  · refine fun hl => Version.lastKind_none.2 fun k hk c hc he => ?_
    rw [← he] at hp hl
    exact (List.mem_append.1 (hpaths k hk c hc)).elim hl hp

/-- What a rollback will make of a path that is not on the deletion list is what the tree has there now: the submit
itself will record the overlay file, or the last event recorded of the path fits the tree, or nothing is recorded and the
submit changes nothing. -/
def Undoable (env : Env) (m : WorkspaceMeta) (w : World Disk) (p : Path) : Prop :=
  m.status = .created ∧ ((w.fs.overlay m.id).get p).isSome ∨
    match Version.lastChange (w.vai.queryByWorkspace m.id) p with
    | some c =>
      if c.changeType = .added then w.fs.base.get p = none
      else ((w.fs.overlay m.id).get p).isSome → (w.fs.base.get p).isSome
    | none => ((w.fs.overlay m.id).get p).isSome →
      fate env m.id (w.fs.files m.id) (mergeBase m (w.fs.files m.id) w.vai) p = some (w.fs.base.get p)

section

variable (hq : env.Quiet) (hK : AtVersion w K) (hl : Landed env m D r w w₁) (hidle : Idle m.id w₁ w₂)
include hl

/-- Away from the deletions the submit leaves the overlay file as it merges, or the path as it was. -/
theorem Landed.written {p : Path} (hD : p ∉ D) : if ((w.fs.overlay m.id).get p).isSome
    then ∃ c, fate env m.id (w.fs.files m.id) (mergeBase m (w.fs.files m.id) w.vai) p = some (some c) ∧
      w₁.fs.base.get p = some c
    else w₁.fs.base.get p = w.fs.base.get p := by
  rw [hl.base, tree, if_neg hD]
  by_cases hov : ((w.fs.overlay m.id).get p).isSome
  · have ho : (w.fs.files m.id (.overlay p)).isSome := hov
    obtain ⟨c, hc⟩ := hl.accepted.merges p ho
    rw [if_pos hov, if_pos ho, hc]
    exact ⟨c, rfl, rfl⟩
  · rw [if_neg hov]
    exact if_neg hov

include hq hK hidle

/-- **One path**: a deleted one gets back what it had, any other exactly when it is undoable. -/
theorem undone_submitted : ∃ rec, w₂.vai.versions.get r.version.versionId = some rec ∧ ∀ p,
    Version.undone w₂.fs r.version.versionId (Version.eventsOf w₂.vai rec) p = w.fs.base.get p ↔
      (p ∉ D → Undoable env m w p) := by
  obtain ⟨l, d, rec, hlist, hd, hrec, hlast⟩ := lastChange_submitted hq hl hidle
  refine ⟨rec, hrec, fun p => ?_⟩
  have hsnap : (w₂.fs.snapshot r.version.versionId).get p =
      if p ∈ D ∨ ((w.fs.overlay m.id).get p).isSome then w.fs.base.get p else none := by
    rw [hidle.snapshot, hl.version, VaiDir.nextVersionId, hl.snapshot, hK.fresh _ p (by rw [hK.highest]; omega)]
    by_cases ht : p ∈ D ∨ ((w.fs.overlay m.id).get p).isSome
    · cases hb : w.fs.base.get p <;> simp [ht]
    · simp [ht]
  have hbase : w₂.fs.base.get p = w₁.fs.base.get p := by rw [hidle.base]
  unfold Version.undone
  rw [hlast, hbase]
  by_cases hD : p ∈ D
  · -- the submit has logged the deletion last
    obtain ⟨c, hc, hrem, hcp⟩ := Version.lastKind_removals m.id hD
    refine iff_of_true ?_ fun h => absurd hD h
    rw [hc, Option.some_or]
    simp only [Version.undoneAt, hrem, hcp, hsnap, if_pos (Or.inl hD), hbase, hl.base, tree, if_pos hD, Option.or_none]
  have hnone := Version.lastKind_removals_none m.id hD
  have hwritten := hl.written hD
  obtain ⟨hnew, hold⟩ := lastKind_events hd hD
  rw [hnone, Option.none_or, forall_prop_of_true hD]
  simp only [hD, false_or] at hsnap
  by_cases hrecorded : m.status = .created ∧ ((w.fs.overlay m.id).get p).isSome
  · -- the submit has recorded the path, over the tree it found
    obtain ⟨c, hc, hcp, hadded⟩ := hnew ((hlist.2 p).2 hrecorded.2)
    refine iff_of_true ?_ (.inl hrecorded)
    rw [if_pos hrecorded.1, hc, Option.some_or]
    simp only [Version.undoneAt, hcp, hsnap, hbase, hrecorded.2, if_true]
    have hadded : c.changeType = .added ↔ w.fs.base.get p = none := hadded
    cases hb : w.fs.base.get p with
    | none => rw [hadded.2 hb]
    | some b =>
      cases hct : c.changeType with
      | added => rw [hadded.1 hct] at hb; cases hb
      | modified => rfl
      | removed => rfl
  · have hsilent : Version.lastKind (if m.status = .created then Diff.events d else []) p = none := by
      by_cases hst : m.status = .created
      · rw [if_pos hst]
        exact hold fun hp => hrecorded ⟨hst, (hlist.2 p).1 hp⟩
      · rw [if_neg hst]
        rfl
    rw [hsilent, Option.none_or]
    unfold Undoable
    rw [or_iff_right hrecorded]
    cases hlog : Version.lastChange (w.vai.queryByWorkspace m.id) p with
    | none =>
      show w₁.fs.base.get p = w.fs.base.get p ↔ _
      by_cases hov : ((w.fs.overlay m.id).get p).isSome
      · rw [if_pos hov] at hwritten
        obtain ⟨c, hc, hw⟩ := hwritten
        simp [hov, hc, hw]
      · rw [if_neg hov] at hwritten
        simp [hov, hwritten]
    | some c =>
      have hcp := Version.path_of_lastChange hlog
      show Version.undoneAt _ _ _ = _ ↔ _
      unfold Version.undoneAt
      rw [hcp, hsnap, hbase]
      by_cases hov : ((w.fs.overlay m.id).get p).isSome
      · rw [if_pos hov] at hwritten
        obtain ⟨c', -, hw⟩ := hwritten
        cases hct : c.changeType <;> cases hb : w.fs.base.get p <;> simp [hct, hov, hw]
      · rw [if_neg hov] at hwritten
        cases hct : c.changeType with
        | added => simpa [hct] using eq_comm
        | modified => simp [hct, hov, hwritten]
        | removed => simp [hct, hov, hwritten]

end

section

variable (hq : env.Quiet) (hK : AtVersion w K) (ha : w.vai.IsActive m)
variable (hsub : submitWithFs env (diskMergeFs env m.id) m D w = (.ok r, w₁)) (hidle : Idle m.id w₁ w₂)
include hq hK ha hsub hidle

end

theorem Idle.refl (i : Uuid) (w : World Disk) : Idle i w w := ⟨rfl, rfl, rfl, [], by simp, by simp⟩

/-! ## Two sessions -/

/-- An empty repository in which workspace 1 has just been created. -/
def newborn : World Disk :=
  (createWithId Env.plain [] (versionName 1) 1 { fs := Disk.ofTree [] (fun _ => []), vai := VaiDir.init 0 [] ∅, ops := 0 }).2

/-- `w` with the overlay of workspace 1 replaced. -/
def edited (w : World Disk) (o : List (Path × Bytes)) : World Disk :=
  { w with fs := { w.fs with overlay := Function.update w.fs.overlay 1 (FMap.ofList o) } }

/-- The file `a` is written and submitted. -/
def oneFile : World Disk := edited newborn [(['a'], [1])]

/-- The file `a` is written, then comes a plan, then the file `b`. -/
def lateFile : World Disk :=
  edited (FileWorkspace.plan Env.plain (.fresh 1 1) [] oneFile).2 [(['a'], [1]), (['b'], [2])]

/-- Workspace 1 after the plan. -/
def planned : WorkspaceMeta := { WorkspaceMeta.fresh 1 1 with status := .active }

theorem atVersion_oneFile : AtVersion oneFile 1 := ⟨rfl, by decide +kernel, fun _ _ _ => rfl⟩

theorem active_oneFile : oneFile.vai.IsActive (.fresh 1 1) := ⟨rfl, by decide +kernel⟩

/-- Nothing is recorded of workspace 1 before its first diff. -/
theorem silent_oneFile (p : Path) : Version.lastChange (oneFile.vai.queryByWorkspace 1) p = none := by
  rw [Version.lastChange_eq_lastKind]
  refine Version.lastKind_none.2 fun k hk c hc => ?_
  have hno : ∀ k ∈ (oneFile.vai.queryByWorkspace 1).map Event.kind, Version.fileChange k = none := by decide +kernel
  rw [hno k hk] at hc
  cases hc

end Merge

end Vai
