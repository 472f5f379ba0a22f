import Vai.Data
import Vai.Ndjson
/-!
# EventLog — the event log on disk (`event_log/mod.rs`)

Segment files of newline-delimited JSON and the SQLite table that indexes them.  `append` numbers an event after the
largest id of the table, writes its line to the current segment and inserts its row; a process that stops in between
leaves some of the line's bytes and no row (`stopped`).  `rebuild_index` empties the table and reads every segment
again.

The directory is the list of its `*.events` files in the order they were created.  `serde_json` is a parameter
(`Serde`).  The table's `timestamp` column serves only `query_by_time_range` and is left out with it.
-/
namespace Vai

/-- The discriminant used in the index. -/
def EventKind.eventType : EventKind → Text
  | .repoInitialized .. => "RepoInitialized".toList
  | .versionCreated .. => "VersionCreated".toList
  | .workspaceCreated .. => "WorkspaceCreated".toList
  | .workspaceSubmitted .. => "WorkspaceSubmitted".toList
  | .workspaceDiscarded .. => "WorkspaceDiscarded".toList
  | .entityAdded .. => "EntityAdded".toList
  | .entityModified .. => "EntityModified".toList
  | .entityRemoved .. => "EntityRemoved".toList
  | .fileAdded .. => "FileAdded".toList
  | .fileModified .. => "FileModified".toList
  | .fileRemoved .. => "FileRemoved".toList
  | .mergeCompleted .. => "MergeCompleted".toList
  | .mergeConflictDetected .. => "MergeConflictDetected".toList
  | .mergeConflictResolved .. => "MergeConflictResolved".toList
  | .rollbackCreated .. => "RollbackCreated".toList
  | .issueCreated .. => "IssueCreated".toList
  | .issueUpdated .. => "IssueUpdated".toList
  | .issueAssigned .. => "IssueAssigned".toList
  | .issueLinkedToWorkspace .. => "IssueLinkedToWorkspace".toList
  | .issueResolved .. => "IssueResolved".toList
  | .issueClosed .. => "IssueClosed".toList
  | .escalationCreated .. => "EscalationCreated".toList
  | .escalationResolved .. => "EscalationResolved".toList
  | .commentCreated .. => "CommentCreated".toList
  | .repoAgentSecretSet .. => "RepoAgentSecretSet".toList
  | .repoAgentSecretDeleted .. => "RepoAgentSecretDeleted".toList

def EventKind.entityId : EventKind → Option Text
  | .entityAdded _ entity => some entity.id
  | .entityModified _ i _ => some i
  | .entityRemoved _ i => some i
  | _ => none

namespace EventLog

/-- The envelope with its `timestamp`. -/
structure Event extends Vai.Event where
  timestamp : Nat
  deriving DecidableEq, Repr

/-- `serde_json` on events.  What it writes it reads back; its compact form escapes control characters; an event is a
JSON object, so it stands in braces. -/
structure Serde where
  toString : Event → Text
  fromStr : Text → Option Event
  fromStr_toString : ∀ e, fromStr (toString e) = some e
  newline_not_mem : ∀ e, '\n' ∉ toString e
  carriage_not_mem : ∀ e, '\r' ∉ toString e
  braces : ∀ e, ∃ t, toString e = '{' :: t ++ ['}']

inductive EventLogError where
  | io | sqlite | serde
  deriving DecidableEq, Repr

/-- A row of the table `events`. -/
structure Row where
  id : Nat
  eventType : Text
  workspaceId : Option Uuid
  entityId : Option Text
  segmentFile : Text
  byteOffset : Nat
  deriving DecidableEq, Repr

/-- The directory's segment files, and the table's rows in the order of the primary key. -/
structure Log where
  segments : List (Text × Bytes)
  rows : List Row
  deriving DecidableEq, Repr

/-- A log opened in an empty directory. -/
def Log.fresh : Log := ⟨[], []⟩

/-! ## Segment files -/

/-- `MAX_SEGMENT_BYTES`. -/
def maxSegmentBytes : Nat := 64 * 1024 * 1024

/-- The content of a file. -/
def file (name : Text) : List (Text × Bytes) → Option Bytes
  | [] => none
  | s :: ss => if s.1 = name then some s.2 else file name ss

/-- `OpenOptions::new().create(true).append(true)` and the bytes written to it. -/
def extend (name : Text) (b : Bytes) : List (Text × Bytes) → List (Text × Bytes)
  | [] => [(name, b)]
  | s :: ss => if s.1 = name then (s.1, s.2 ++ b) :: ss else s :: extend name b ss

/-- A number with zeros in front of it, up to a width. -/
def pad (w n : Nat) : Text := List.replicate (w - (Text.ofNat n).length) '0' ++ Text.ofNat n

/-- `format!("{:06}.events", n)`. -/
def segmentName (n : Nat) : Text := pad 6 n ++ ".events".toList

/-- `str::trim_end_matches` on a text; the first argument bounds the matches. -/
def trimEndText (p : Text) : Nat → Text → Text
  | 0, s => s
  | n + 1, s => if p.isSuffixOf s then trimEndText p n (s.take (s.length - p.length)) else s

/-- `last.trim_end_matches(".events").parse::<u32>().unwrap_or(0)`. -/
def segmentNumber (name : Text) : Nat :=
  match Text.parseNat (trimEndText ".events".toList name.length name) with
  | some n => if n < 2 ^ 32 then n else 0
  | none => 0

/-- `list_segments`, sorted; the order in which the directory is read does not matter. -/
def Log.sortedSegments (log : Log) : List Text := (log.segments.map Prod.fst).insertionSort (· ≤ ·)

def Log.currentSegmentName (log : Log) : Text :=
  match log.sortedSegments.getLast? with
  | some last =>
    let size := ((file last log.segments).getD []).length
    if size < maxSegmentBytes then last else segmentName (segmentNumber last + 1)
  | none => segmentName 1

/-! ## Appending -/

/-- The row of an event. -/
def Event.row (e : Event) (segmentFile : Text) (byteOffset : Nat) : Row :=
  ⟨e.id, e.kind.eventType, e.kind.workspaceId, e.kind.entityId, segmentFile, byteOffset⟩

/-- `INSERT INTO events`: the primary key admits an id once. -/
def insertRow (r : Row) : List Row → Option (List Row)
  | [] => some [r]
  | q :: qs =>
    if r.id < q.id then some (r :: q :: qs)
    else if r.id = q.id then none
    else (insertRow r qs).map (q :: ·)

/-- `index_event`. -/
def indexEvent (e : Event) (segmentFile : Text) (byteOffset : Nat) (rows : List Row) : Option (List Row) :=
  insertRow (e.row segmentFile byteOffset) rows

/-- `next_id`: `SELECT MAX(id) FROM events`, plus one. -/
def Log.nextId (log : Log) : Nat := ((log.rows.map Row.id).max?).getD 0 + 1

/-- The event that `append` makes. -/
def Log.next (log : Log) (now : Nat) (kind : EventKind) : Event := ⟨⟨log.nextId, kind⟩, now⟩

section
variable (serde : Serde)

/-- An event's line, without its newline. -/
def Serde.body (e : Event) : Bytes := Text.intoBytes (serde.toString e)

/-- An event's line. -/
def Serde.line (e : Event) : Bytes := Text.intoBytes (serde.toString e ++ ['\n'])

/-- `write_to_segment`, of which `bytes` reach the file: the segment and the offset in it. -/
def Log.writeToSegment (bytes : Bytes) (log : Log) : Log × Text × Nat :=
  let segmentName := log.currentSegmentName
  let byteOffset := ((file segmentName log.segments).getD []).length
  ({ log with segments := extend segmentName bytes log.segments }, segmentName, byteOffset)

def Log.append (now : Nat) (kind : EventKind) (log : Log) : Log × Except EventLogError Event :=
  let event := log.next now kind
  let (log, segmentName, byteOffset) := log.writeToSegment (serde.line event)
  match indexEvent event segmentName byteOffset log.rows with
  | some rows => ({ log with rows := rows }, .ok event)
  | none => (log, .error .sqlite)

/-- An `append` whose process stops after `k` bytes of the line, before its row is inserted. -/
def Log.stopped (now : Nat) (kind : EventKind) (k : Nat) (log : Log) : Log :=
  (log.writeToSegment ((serde.line (log.next now kind)).take k)).1

/-! ## Reading -/

def Log.readEventAt (log : Log) (segmentFile : Text) (byteOffset : Nat) : Except EventLogError Event :=
  match file segmentFile log.segments with
  | none => .error .io
  | some b =>
    match Text.fromUtf8 (Ndjson.readLine (b.drop byteOffset)) with
    | none => .error .io
    | some line =>
      match serde.fromStr line.trimEnd with
      | none => .error .serde
      | some e => .ok e

def Log.loadEvents (log : Log) : List (Text × Nat) → Except EventLogError (List Event)
  | [] => .ok []
  | r :: rs => do
    let event ← log.readEventAt serde r.1 r.2
    let events ← log.loadEvents rs
    pure (event :: events)

/-- `query_index` with `ORDER BY id`. -/
def Log.queryIndex (log : Log) (select : Row → Bool) : List (Text × Nat) :=
  (log.rows.filter select).map (fun r => (r.segmentFile, r.byteOffset))

def Log.all (log : Log) : Except EventLogError (List Event) := log.loadEvents serde (log.queryIndex (fun _ => true))

def Log.queryByType (log : Log) (eventType : Text) : Except EventLogError (List Event) :=
  log.loadEvents serde (log.queryIndex (fun r => r.eventType = eventType))

def Log.queryByWorkspace (log : Log) (workspaceId : Uuid) : Except EventLogError (List Event) :=
  log.loadEvents serde (log.queryIndex (fun r => r.workspaceId = some workspaceId))

def Log.queryByEntity (log : Log) (entityId : Text) : Except EventLogError (List Event) :=
  log.loadEvents serde (log.queryIndex (fun r => r.entityId = some entityId))

/-! ## Rebuilding the index -/

/-- The loop of `rebuild_index` over the lines of one segment.  Rows already inserted stay when it fails. -/
def indexLines (name : Text) : Nat → List Bytes → List Row → List Row × Except EventLogError Unit
  | _, [], rows => (rows, .ok ())
  | byteOffset, l :: ls, rows =>
    match Text.fromUtf8 l with
    | none => (rows, .error .io)
    | some line =>
      if line.trim.isEmpty then indexLines name (byteOffset + l.length + 1) ls rows
      else
        match serde.fromStr line with
        | none => (rows, .error .serde)
        | some e =>
          match indexEvent e name byteOffset rows with
          | none => (rows, .error .sqlite)
          | some rows' => indexLines name (byteOffset + l.length + 1) ls rows'

/-- The loop of `rebuild_index` over the segments. -/
def indexSegments (segments : List (Text × Bytes)) : List Text → List Row → List Row × Except EventLogError Unit
  | [], rows => (rows, .ok ())
  | name :: names, rows =>
    match file name segments with
    | none => (rows, .error .io)
    | some b =>
      match indexLines serde name 0 (Ndjson.lines b) rows with
      | (rows, .ok ()) => indexSegments segments names rows
      | (rows, .error e) => (rows, .error e)

def Log.rebuildIndex (log : Log) : Log × Except EventLogError Unit :=
  let r := indexSegments serde log.segments log.sortedSegments []
  ({ log with rows := r.1 }, r.2)

end

/-! ## The current segment -/

theorem length_pad (w n : Nat) (h : (Text.ofNat n).length ≤ w) : (pad w n).length = w := by
  unfold pad
  rw [List.length_append, List.length_replicate]
  omega

theorem pad_succ {w n : Nat} (hw : 0 < w) :
    pad (w + 1) n = pad w (n / 10) ++ [Nat.digitChar (n % 10)] := by
  by_cases h : n < 10
  · have h0 : n / 10 = 0 := by omega
    have hm : n % 10 = n := by omega
    have hr : List.replicate (w - 1) '0' ++ ['0'] = List.replicate w '0' := by
      rw [← List.replicate_succ', Nat.sub_add_cancel hw]
    unfold pad Text.ofNat
    rw [h0, hm, Nat.toDigits_of_lt_base h, Nat.toDigits_zero, List.length_singleton, List.length_singleton, hr,
      Nat.add_sub_cancel]
  · have hd : Nat.toDigits 10 n = Nat.toDigits 10 (n / 10) ++ [Nat.digitChar (n % 10)] :=
      Nat.toDigits_of_base_le (by omega) (by omega)
    unfold pad Text.ofNat
    rw [hd, List.length_append, List.length_singleton, Nat.add_sub_add_right, List.append_assoc]

theorem digitChar_lt : ∀ a < 10, ∀ b < 10, a < b → Nat.digitChar a < Nat.digitChar b := by decide

theorem length_ofNat_le : ∀ {w n : Nat}, 0 < w → n < 10 ^ w → (Text.ofNat n).length ≤ w
  | 1, n, _, h => by
    unfold Text.ofNat
    rw [Nat.toDigits_of_lt_base (by simpa using h)]
    rfl
  | w + 2, n, _, h => by
    by_cases hn : n < 10
    · unfold Text.ofNat
      rw [Nat.toDigits_of_lt_base hn]
      simp
    · have hd : n / 10 < 10 ^ (w + 1) := by
        rw [Nat.div_lt_iff_lt_mul (by omega), ← Nat.pow_succ]
        exact h
      have ih := length_ofNat_le (Nat.succ_pos w) hd
      unfold Text.ofNat at ih ⊢
      rw [Nat.toDigits_of_base_le (by omega) (by omega), List.length_append, List.length_singleton]
      omega

theorem append_lt_append {a b s t : Text} (h : a < b) (hl : a.length = b.length) : a ++ s < b ++ t := by
  induction a generalizing b with
  | nil =>
    cases b with
    | nil => exact absurd h (lt_irrefl _)
    | cons y b => simp at hl
  | cons x a ih =>
    cases b with
    | nil => simp at hl
    | cons y b =>
      rw [List.cons_lt_cons_iff] at h
      rw [List.cons_append, List.cons_append, List.cons_lt_cons_iff]
      rcases h with h | ⟨h, h'⟩
      · exact .inl h
      · exact .inr ⟨h, ih h' (by simpa using hl)⟩

/-- Padded numbers are ordered as texts as they are as numbers. -/
theorem pad_lt_pad : ∀ {w m n : Nat}, 0 < w → n < 10 ^ w → m < n → pad w m < pad w n
  | 1, m, n, _, hn, hmn => by
    have h1 : ∀ k < 10, pad 1 k = [Nat.digitChar k] := by decide
    rw [h1 m (by omega), h1 n (by omega), List.cons_lt_cons_iff]
    exact .inl (digitChar_lt m (by omega) n (by omega) hmn)
  | w + 2, m, n, _, hn, hmn => by
    have hd : n / 10 < 10 ^ (w + 1) := by
      rw [Nat.div_lt_iff_lt_mul (by omega), ← Nat.pow_succ]
      exact hn
    rw [pad_succ (Nat.succ_pos w), pad_succ (Nat.succ_pos w)]
    by_cases he : m / 10 = n / 10
    · rw [he]
      apply List.append_left_lt
      rw [List.cons_lt_cons_iff]
      exact .inl (digitChar_lt _ (by omega) _ (by omega) (by omega))
    · apply append_lt_append (pad_lt_pad (Nat.succ_pos w) hd (by omega))
      rw [length_pad _ _ (length_ofNat_le (Nat.succ_pos w) (by omega)), length_pad _ _ (length_ofNat_le (Nat.succ_pos w) hd)]

theorem segmentName_lt {m n : Nat} (hn : n < 1000000) (hmn : m < n) : segmentName m < segmentName n := by
  apply append_lt_append (pad_lt_pad (by omega) (by omega) hmn)
  rw [length_pad _ _ (length_ofNat_le (by omega) (by omega)), length_pad _ _ (length_ofNat_le (by omega) (by omega))]

/-- The last of the names `segmentName 1 … segmentName k`, sorted as texts: seven digits sort before six nines. -/
theorem segmentName_le {m k : Nat} (hm : m ≤ k) (hk : k ≤ 1000000) : segmentName m ≤ segmentName (min k 999999) := by
  by_cases h : m = 1000000
  · have hmin : min k 999999 = 999999 := by omega
    rw [h, hmin]
    decide
  · by_cases he : m = min k 999999
    · rw [← he]
    · exact le_of_lt (segmentName_lt (by omega) (by omega))

end EventLog
end Vai
