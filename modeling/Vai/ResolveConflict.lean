import Vai.MergePatterns
import Vai.World
/-!
# ResolveConflict — what the library learns from a conflict (`merge/mod.rs`)

`resolve_conflict` marks the record of a conflict, appends an event and records a resolution in the pattern library.
It does not look at the mark: a conflict that is resolved again is recorded again, and eleven times one conflict
promote its pattern.

`learned_once_iff`: each conflict is learned from once exactly where no two calls name the same one.
-/
namespace Vai

/-- What `.vai` holds for it.  Every record is filed under its own id. -/
structure MergeDir where
  conflicts : FMap Uuid ConflictRecord
  log : List Event
  patterns : MergePatternStore
  filed : ∀ id record, conflicts.get id = some record → record.conflictId = id

inductive ResolveError where
  | conflictNotFound (id : Text)
deriving DecidableEq, Repr

namespace MergeDir

open MergePatternStore Proc

variable (toLowercase : Text → Text) (sha256Hex : Bytes → Text)

/-- The record that the text of an id leads to. -/
def lookup (d : MergeDir) (conflictId : Text) : Option ConflictRecord := (Text.parseNat conflictId).bind d.conflicts.get

theorem conflictId_of_lookup {d : MergeDir} {conflictId : Text} {record : ConflictRecord}
    (h : d.lookup conflictId = some record) : d.conflicts.get record.conflictId = some record := by
  obtain ⟨id, -, hget⟩ := Option.bind_eq_some_iff.1 h
  rwa [d.filed id record hget]

/-- The pattern library's errors are ignored. -/
def resolved (d : MergeDir) (record : ConflictRecord) : MergeDir where
  conflicts := d.conflicts.insert record.conflictId { record with resolved := true }
  log := VaiDir.pushEvent d.log (.mergeConflictResolved record.conflictId "manual".toList "agent".toList)
  patterns := (recordResolution toLowercase sha256Hex { record with resolved := true } "manual".toList false d.patterns).2
  filed := by
    intro id r h
    rw [FMap.get_insert] at h
    split at h
    · rename_i hid
      cases h
      exact hid.symm
    · exact d.filed id r h

def resolveConflict (conflictId : Text) : Proc MergeDir ResolveError ConflictRecord := do
  match ← Proc.read (fun d => d.lookup conflictId) with
  | none => fail (.conflictNotFound conflictId)
  | some record =>
    modify fun d => d.resolved toLowercase sha256Hex record
    pure { record with resolved := true }

/-- After some calls. -/
def resolveAll (calls : List Text) (d : MergeDir) : MergeDir :=
  calls.foldl (fun d call => (resolveConflict toLowercase sha256Hex call d).2) d

/-! ## What has been learned -/

def events (c : Uuid) (d : MergeDir) : Nat :=
  d.log.countP fun e => e.kind = .mergeConflictResolved c "manual".toList "agent".toList

def learned (c : Uuid) (d : MergeDir) : Nat := d.patterns.instances.countP fun i => i.conflictId = c

/-- The patterns that resolve conflicts by themselves. -/
def promoted (d : MergeDir) : List Nat := (d.patterns.patterns.filter MergePattern.autoResolutionEnabled).map MergePattern.id

/-- The conflicts that calls resolve, a conflict for each call. -/
def named (d : MergeDir) (calls : List Text) : List Uuid := calls.filterMap fun call => (d.lookup call).map ConflictRecord.conflictId

/-- Each conflict adds one event and one resolution however often it is resolved, and none promotes a pattern again. -/
def LearnedOnce (d : MergeDir) (calls : List Text) : Prop :=
  (∀ c, events c (d.resolveAll toLowercase sha256Hex calls) = events c d + min 1 ((d.named calls).count c) ∧
    learned c (d.resolveAll toLowercase sha256Hex calls) = learned c d + min 1 ((d.named calls).count c)) ∧
  ∀ pre call rest, calls = pre ++ call :: rest → ∀ record, d.lookup call = some record → record.conflictId ∈ d.named pre →
    (d.resolveAll toLowercase sha256Hex (pre ++ [call])).promoted ⊆ (d.resolveAll toLowercase sha256Hex pre).promoted

/-! ## One call -/

variable {toLowercase : Text → Text} {sha256Hex : Bytes → Text} {d : MergeDir}

theorem resolveConflict_none {call : Text} (h : d.lookup call = none) :
    resolveConflict toLowercase sha256Hex call d = (.error (.conflictNotFound call), d) := by
  unfold resolveConflict
  rw [bind_apply, read_apply]
  dsimp only
  rw [h]
  rfl

theorem resolveConflict_some {call : Text} {record : ConflictRecord} (h : d.lookup call = some record) :
    resolveConflict toLowercase sha256Hex call d =
      (.ok { record with resolved := true }, d.resolved toLowercase sha256Hex record) := by
  unfold resolveConflict
  rw [bind_apply, read_apply]
  dsimp only
  rw [h]
  rfl

theorem events_resolved (c : Uuid) (record : ConflictRecord) :
    events c (d.resolved toLowercase sha256Hex record) = events c d + if record.conflictId = c then 1 else 0 := by
  simp [events, resolved, VaiDir.pushEvent, List.countP_append, List.countP_singleton]

theorem instances_recordResolution (record : ConflictRecord) (strategy : Text) (auto : Bool) (s : MergePatternStore) :
    ∃ owner, (recordResolution toLowercase sha256Hex record strategy auto s).2.instances =
      s.instances ++ [⟨s.nextInstance, owner, record.conflictId, record.workspaceId, strategy, auto, false⟩] := by
  have hpromotion : ∀ id (t : MergePatternStore), ((updatePromotion id >>= fun _ => getPattern id) t).2.instances = t.instances := by
    intro id t
    rw [state_bind_of_reads _ (getPattern_state id)]
    unfold updatePromotion getPattern
    rw [bind_apply, bind_apply, read_apply]
    dsimp only
    cases Rows.row MergePattern.id id t.patterns with
    | none => rfl
    | some p =>
      dsimp only [pure_apply]
      split <;> rfl
  unfold recordResolution upsertPattern
  rw [bind_apply, bind_apply, read_apply]
  dsimp only
  cases findByHash (computeHash sha256Hex (classify toLowercase record) record.mergeLevel) s with
  | some p => exact ⟨p.id, hpromotion p.id _⟩
  | none => exact ⟨s.nextPattern, hpromotion s.nextPattern _⟩

theorem learned_resolved (c : Uuid) (record : ConflictRecord) :
    learned c (d.resolved toLowercase sha256Hex record) = learned c d + if record.conflictId = c then 1 else 0 := by
  obtain ⟨owner, hrows⟩ := @instances_recordResolution toLowercase sha256Hex { record with resolved := true }
    "manual".toList false d.patterns
  unfold learned resolved
  dsimp only
  rw [hrows, List.countP_append, List.countP_singleton]
  simp

theorem lookup_resolved {record : ConflictRecord} (h : d.conflicts.get record.conflictId = some record) (call : Text) :
    ((d.resolved toLowercase sha256Hex record).lookup call).map ConflictRecord.conflictId =
      (d.lookup call).map ConflictRecord.conflictId := by
  unfold lookup
  cases Text.parseNat call with
  | none => rfl
  | some id =>
    simp only [Option.bind_some, resolved]
    rw [FMap.get_insert]
    split
    · rename_i hid
      rw [hid, h]
      rfl
    · rfl

theorem named_resolved {record : ConflictRecord} (h : d.conflicts.get record.conflictId = some record) (calls : List Text) :
    (d.resolved toLowercase sha256Hex record).named calls = d.named calls := by
  unfold named
  exact List.filterMap_congr fun call _ => lookup_resolved h call

/-! ## All calls -/

/-- **Each call adds one**, whatever the calls before it named. -/
theorem counts_resolveAll (c : Uuid) : ∀ (calls : List Text) (d : MergeDir),
    events c (d.resolveAll toLowercase sha256Hex calls) = events c d + (d.named calls).count c ∧
      learned c (d.resolveAll toLowercase sha256Hex calls) = learned c d + (d.named calls).count c
  | [], d => ⟨rfl, rfl⟩
  | call :: calls, d => by
    have hrest := counts_resolveAll c calls (resolveConflict toLowercase sha256Hex call d).2
    cases hlookup : d.lookup call with
    | none =>
      rw [resolveConflict_none hlookup] at hrest
      have hnamed : d.named (call :: calls) = d.named calls := by simp [named, hlookup]
      rw [hnamed, resolveAll, List.foldl_cons, resolveConflict_none hlookup]
      exact hrest
    | some record =>
      have hget := conflictId_of_lookup hlookup
      rw [resolveConflict_some hlookup, named_resolved hget, events_resolved, learned_resolved] at hrest
      have hnamed : d.named (call :: calls) = record.conflictId :: d.named calls := by simp [named, hlookup]
      rw [hnamed, resolveAll, List.foldl_cons, resolveConflict_some hlookup, List.count_cons]
      simp only [beq_iff_eq]
      rw [← resolveAll, hrest.1, hrest.2]
      omega

variable (toLowercase sha256Hex) in
/-- **A conflict is learned from once exactly where the calls resolve none twice.** -/
theorem learned_once_iff (d : MergeDir) (calls : List Text) :
    d.LearnedOnce toLowercase sha256Hex calls ↔ (d.named calls).Nodup := by
  constructor
  · intro h
    refine List.nodup_iff_count_le_one.2 fun c => ?_
    have hevents := (h.1 c).1
    rw [(counts_resolveAll c calls d).1] at hevents
    omega
  · intro h
    refine ⟨fun c => ?_, ?_⟩
    · rw [(counts_resolveAll c calls d).1, (counts_resolveAll c calls d).2]
      have := List.nodup_iff_count_le_one.1 h c
      omega
    · -- no call resolves a conflict again
      rintro pre call rest rfl record hlookup hagain
      exfalso
      have hsplit : d.named (pre ++ call :: rest) = d.named pre ++ record.conflictId :: d.named rest := by
        simp [named, hlookup]
      rw [hsplit, List.nodup_append] at h
      exact h.2.2 _ hagain _ List.mem_cons_self rfl

/-- One conflict in a function body. -/
def oneConflict : MergeDir where
  conflicts := FMap.ofList [(1, ⟨1, 2, "a.rs".toList, [], "both changed the body".toList, .medium, 3, false⟩)]
  log := []
  patterns := .empty
  filed := by
    intro id record h
    obtain ⟨rfl, rfl⟩ : id = 1 ∧ record = ⟨1, 2, "a.rs".toList, [], "both changed the body".toList, .medium, 3, false⟩ := by
      simpa using FMap.get_ofList_mem h
    rfl

/-- One conflict, resolved eleven times, is eleven instances and promotes its pattern. -/
theorem one_conflict_promotes :
    ¬ oneConflict.LearnedOnce (List.map Char.toLower) (List.map fun b => Char.ofNat b.toNat) (List.replicate 11 "1".toList) ∧
    (oneConflict.resolveAll (List.map Char.toLower) (List.map fun b => Char.ofNat b.toNat)
      (List.replicate 11 "1".toList)).promoted = [1] := by
  have heleven : learned 1 (oneConflict.resolveAll (List.map Char.toLower) (List.map fun b => Char.ofNat b.toNat)
      (List.replicate 11 "1".toList)) = 11 := by decide +kernel
  have hnone : learned 1 oneConflict = 0 := by decide +kernel
  refine ⟨fun h => ?_, by decide +kernel⟩
  have hone := (h.1 1).2
  omega

end MergeDir
end Vai
