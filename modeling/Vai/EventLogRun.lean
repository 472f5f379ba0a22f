import Vai.EventLogLayout
/-!
# EventLogRun — appends, crashes and rebuilds

A run of the log: appends, appends whose process stops after some bytes of the line and before the row is inserted, and
calls of `rebuild_index`, in any order.  `append` numbers its event from the table, so a line that no row points at
makes the next id a duplicate; and a line cut in the middle is never removed.  `crashSafe_iff` says that these are the
only ways to lose the log: it stays sound along a run exactly when no append starts while a complete line is missing
from the table, and no crash leaves a proper beginning of a line.
-/
namespace Vai
namespace EventLog

open Ndjson (newline unlines offsets)

section
variable (serde : Serde)

/-! ## Runs -/

inductive Op where
  | append (now : Nat) (kind : EventKind)
  | stopped (now : Nat) (kind : EventKind) (k : Nat)
  | rebuild
  deriving DecidableEq, Repr

/-- The log, and the events that an append has tried to write. -/
structure State where
  log : Log
  attempted : List Event

def step (s : State) : Op → State
  | .append now kind => ⟨(s.log.append serde now kind).1, s.attempted ++ [s.log.next now kind]⟩
  | .stopped now kind k => ⟨s.log.stopped serde now kind k, s.attempted ++ [s.log.next now kind]⟩
  | .rebuild => ⟨(s.log.rebuildIndex serde).1, s.attempted⟩

/-- A run from an empty directory. -/
def exec (ops : List Op) : State := ops.foldl (step serde) ⟨Log.fresh, []⟩

/-! ## What a crash-safe log is -/

/-- The event of a line. -/
def Serde.parse (l : Bytes) : Option Event := (Text.fromUtf8 l).bind serde.fromStr

/-- The lines of all segments that are ended by a newline, each with its segment and its offset. -/
def Log.completeLines (log : Log) : List (Text × Nat × Bytes) :=
  log.segments.flatMap (fun s => (offsets 0 (Ndjson.complete s.2)).map (fun l => (s.1, l.1, l.2)))

/-- The ids of the complete lines increase strictly over the segments; every row reads back the event it was written
for; and `rebuild_index` succeeds with one row for each complete line. -/
structure CrashSafe (s : State) : Prop where
  increasing : (s.log.completeLines.filterMap (fun l => serde.parse l.2.2)).Pairwise (fun e f => e.id < f.id)
  readBack : ∀ r ∈ s.log.rows, ∃ e ∈ s.attempted, r = e.row r.segmentFile r.byteOffset ∧
    s.log.readEventAt serde r.segmentFile r.byteOffset = .ok e
  rebuild : ∃ rows, s.log.rebuildIndex serde = ({ s.log with rows := rows }, .ok ()) ∧
    List.Forall₂ (fun l r => ∃ e, serde.parse l.2.2 = some e ∧ r = e.row l.1 l.2.1) s.log.completeLines rows

/-- Every complete line has its row. -/
def Log.Indexed (log : Log) : Prop := log.rows.length = log.completeLines.length

/-- The step leaves no part of a line, and adds a line only to a log whose lines are all indexed. -/
def Op.Clean (log : Log) : Op → Prop
  | .append _ _ => log.Indexed
  | .stopped now kind k => k = 0 ∨ (serde.line (log.next now kind)).length ≤ k ∧ log.Indexed
  | .rebuild => True

end

variable {serde : Serde}

/-! ## The table -/

/-- The rows in the order of a primary key. -/
def Sorted (rows : List Row) : Prop := rows.Pairwise (fun r q => r.id < q.id)

theorem insertRow_spec {r : Row} : ∀ {rows : List Row}, Sorted rows → r.id ∉ rows.map Row.id →
    ∃ rows', insertRow r rows = some rows' ∧ rows'.Perm (r :: rows) ∧ Sorted rows'
  | [], _, _ => ⟨[r], rfl, .refl _, List.pairwise_singleton _ _⟩
  | q :: qs, hs, hr => by
    unfold Sorted at hs
    rw [List.pairwise_cons] at hs
    rw [List.map_cons, List.mem_cons, not_or] at hr
    unfold insertRow
    by_cases hlt : r.id < q.id
    · rw [if_pos hlt]
      refine ⟨_, rfl, .refl _, ?_⟩
      unfold Sorted
      rw [List.pairwise_cons, List.pairwise_cons]
      refine ⟨fun p hp => ?_, hs⟩
      rcases List.mem_cons.1 hp with rfl | hp
      · exact hlt
      · exact lt_trans hlt (hs.1 p hp)
    · rw [if_neg hlt, if_neg hr.1]
      obtain ⟨rows', h, hp, hs'⟩ := insertRow_spec hs.2 hr.2
      refine ⟨q :: rows', by rw [h]; rfl, (hp.cons q).trans (.swap _ _ _), ?_⟩
      unfold Sorted
      rw [List.pairwise_cons]
      refine ⟨fun p hm => ?_, hs'⟩
      rcases List.mem_cons.1 (hp.mem_iff.1 hm) with rfl | hm
      · omega
      · exact hs.1 p hm

theorem insertRow_last {r : Row} : ∀ {rows : List Row}, (∀ q ∈ rows, q.id < r.id) → insertRow r rows = some (rows ++ [r])
  | [], _ => rfl
  | q :: qs, h => by
    have hq := h q List.mem_cons_self
    unfold insertRow
    rw [if_neg (by omega), if_neg (by omega), insertRow_last (fun p hp => h p (List.mem_cons_of_mem q hp))]
    rfl

theorem insertRow_length {r : Row} : ∀ {rows rows' : List Row}, insertRow r rows = some rows' →
    rows'.length = rows.length + 1
  | [], rows', h => by
    cases h
    rfl
  | q :: qs, rows', h => by
    unfold insertRow at h
    split at h
    · cases h
      rfl
    · split at h
      · cases h
      · obtain ⟨qs', hq, rfl⟩ := Option.map_eq_some_iff.1 h
        rw [List.length_cons, insertRow_length hq, List.length_cons]

theorem Sorted.eq_of_perm {rows rows' : List Row} (h : Sorted rows) (h' : Sorted rows') (hp : rows.Perm rows') :
    rows = rows' := by
  apply hp.eq_of_pairwise _ h h'
  intro a b _ _ hab hba
  exact absurd hab (by omega)

/-! ## Rebuilding a sound log -/

theorem parse_body (e : Event) : serde.parse (serde.body e) = some e := by
  unfold Serde.parse Serde.body
  rw [Text.fromUtf8_intoBytes]
  exact serde.fromStr_toString e

theorem indexLines_bodies (name : Text) : ∀ (es : List Event) (o : Nat) (rows : List Row), Sorted rows →
    (es.map (·.id) ++ rows.map Row.id).Nodup → ∃ rows',
      indexLines serde name o (es.map serde.body) rows = (rows', .ok ()) ∧
        rows'.Perm (partRows serde name o es ++ rows) ∧ Sorted rows'
  | [], o, rows, hs, _ => ⟨rows, rfl, .refl _, hs⟩
  | e :: es, o, rows, hs, hn => by
    rw [List.map_cons, List.cons_append, List.nodup_cons, List.mem_append, not_or] at hn
    obtain ⟨rows₁, h₁, hp₁, hs₁⟩ := insertRow_spec (r := e.row name o) hs hn.1.2
    have hn₁ : (es.map (·.id) ++ rows₁.map Row.id).Nodup := by
      have hpm := (hp₁.map Row.id).append_left (es.map (·.id))
      rw [hpm.nodup_iff, List.map_cons, List.perm_middle.nodup_iff, List.nodup_cons, List.mem_append, not_or]
      exact hn
    obtain ⟨rows₂, h₂, hp₂, hs₂⟩ := indexLines_bodies name es (o + (serde.body e).length + 1) rows₁ hs₁ hn₁
    refine ⟨rows₂, ?_, ?_, hs₂⟩
    · rw [List.map_cons, indexLines, Serde.body, Text.fromUtf8_intoBytes]
      simp only [trim_toString, Bool.false_eq_true, if_false, serde.fromStr_toString, indexEvent, h₁]
      exact h₂
    · refine hp₂.trans (((hp₁.append_left _).trans ?_))
      rw [partRows]
      exact List.perm_middle

/-- The segments of `parts`, each with its events. -/
def named : Nat → List (List Event) → List (Text × List Event)
  | _, [] => []
  | n, es :: parts => (segmentName n, es) :: named (n + 1) parts

theorem map_fst_named : ∀ (parts : List (List Event)) (n : Nat),
    (named n parts).map Prod.fst = (segmentsOf serde n parts).map Prod.fst
  | [], _ => rfl
  | es :: parts, n => by rw [named, segmentsOf, List.map_cons, List.map_cons, map_fst_named parts]

theorem rowsOf_eq_named : ∀ (parts : List (List Event)) (n : Nat),
    rowsOf serde n parts = (named n parts).flatMap (fun p => partRows serde p.1 0 p.2)
  | [], _ => rfl
  | es :: parts, n => by rw [named, rowsOf, List.flatMap_cons, rowsOf_eq_named parts]

theorem mem_named : ∀ {parts : List (List Event)} {n : Nat} {p : Text × List Event}, p ∈ named n parts →
    ∃ a b, parts = a ++ p.2 :: b ∧ p.1 = segmentName (n + a.length)
  | es :: parts, n, p, h => by
    rw [named, List.mem_cons] at h
    rcases h with rfl | h
    · exact ⟨[], parts, rfl, rfl⟩
    · obtain ⟨a, b, rfl, hn⟩ := mem_named h
      exact ⟨es :: a, b, rfl, by rw [hn, List.length_cons, show n + 1 + a.length = n + (a.length + 1) by omega]⟩

theorem file_segmentsOf {parts a b : List (List Event)} {es : List Event} (hlen : parts.length ≤ 1000000)
    (h : parts = a ++ es :: b) :
    file (segmentName (1 + a.length)) (segmentsOf serde 1 parts) = some (unlines (es.map serde.body)) := by
  have hl : a.length + 1 ≤ 1000000 := by
    rw [h, List.length_append, List.length_cons] at hlen
    omega
  rw [h, segmentsOf_append, file_skip serde (by omega) _ a 1 (by omega), segmentsOf, file, if_pos rfl]

theorem indexSegments_named {segments : List (Text × Bytes)} : ∀ (ps : List (Text × List Event)) (rows : List Row),
    (∀ p ∈ ps, file p.1 segments = some (unlines (p.2.map serde.body))) → Sorted rows →
    ((ps.flatMap Prod.snd).map (·.id) ++ rows.map Row.id).Nodup → ∃ rows',
      indexSegments serde segments (ps.map Prod.fst) rows = (rows', .ok ()) ∧
        rows'.Perm (ps.flatMap (fun p => partRows serde p.1 0 p.2) ++ rows) ∧ Sorted rows'
  | [], rows, _, hs, _ => ⟨rows, rfl, .refl _, hs⟩
  | p :: ps, rows, hf, hs, hn => by
    rw [List.flatMap_cons, List.map_append, List.append_assoc] at hn
    have hn₀ : (p.2.map (·.id) ++ rows.map Row.id).Nodup :=
      hn.sublist ((List.sublist_append_right _ _).append_left _)
    obtain ⟨rows₁, h₁, hp₁, hs₁⟩ := @indexLines_bodies serde p.1 p.2 0 rows hs hn₀
    have hn₁ : ((ps.flatMap Prod.snd).map (·.id) ++ rows₁.map Row.id).Nodup := by
      have hids := (hp₁.map Row.id).append_left ((ps.flatMap Prod.snd).map (·.id))
      rw [hids.nodup_iff, List.map_append, map_id_partRows]
      refine (List.Perm.nodup_iff ?_).1 hn
      rw [← List.append_assoc, ← List.append_assoc]
      exact List.perm_append_comm.append_right _
    obtain ⟨rows₂, h₂, hp₂, hs₂⟩ :=
      indexSegments_named ps rows₁ (fun q hq => hf q (List.mem_cons_of_mem p hq)) hs₁ hn₁
    refine ⟨rows₂, ?_, ?_, hs₂⟩
    · rw [List.map_cons, indexSegments, hf p List.mem_cons_self]
      simp only [Ndjson.lines_unlines serde.plain_bodies, h₁]
      exact h₂
    · refine hp₂.trans ((hp₁.append_left _).trans ?_)
      rw [List.flatMap_cons, ← List.append_assoc]
      exact List.perm_append_comm.append_right _

theorem flatMap_snd_named : ∀ (parts : List (List Event)) (n : Nat), (named n parts).flatMap Prod.snd = parts.flatten
  | [], _ => rfl
  | es :: parts, n => by rw [named, List.flatMap_cons, flatMap_snd_named parts, List.flatten_cons]

theorem sorted_rowsOf {parts : List (List Event)} (hid : parts.flatten.Pairwise (fun e f => e.id < f.id)) (n : Nat) :
    Sorted (rowsOf serde n parts) := by
  unfold Sorted
  rw [← List.pairwise_map (f := Row.id) (R := (· < ·)), map_id_rowsOf, List.pairwise_map]
  exact hid

/-- **Rebuilding the index of a log that holds `parts`** gives the rows of its lines. -/
theorem Layout.rebuildIndex {log : Log} {parts : List (List Event)} (h : Layout serde log.segments parts)
    (hid : parts.flatten.Pairwise (fun e f => e.id < f.id)) :
    log.rebuildIndex serde = ({ log with rows := rowsOf serde 1 parts }, .ok ()) := by
  -- the segments with their events, in the order in which the loop reads them
  let ps := (named 1 parts).insertionSort (fun p q => p.1 ≤ q.1)
  have hps : ps.Perm (named 1 parts) := List.perm_insertionSort _ _
  have hnames : ps.map Prod.fst = log.sortedSegments := by
    unfold Log.sortedSegments
    rw [h.segments, ← map_fst_named]
    exact List.map_insertionSort _ _ _ _ (fun _ _ _ _ => Iff.rfl)
  have hfile : ∀ p ∈ ps, file p.1 log.segments = some (unlines (p.2.map serde.body)) := by
    intro p hp
    obtain ⟨a, b, hab, hn⟩ := mem_named (hps.mem_iff.1 hp)
    rw [hn, h.segments]
    exact file_segmentsOf h.few hab
  have hnodup : ((ps.flatMap Prod.snd).map (·.id) ++ ([] : List Row).map Row.id).Nodup := by
    rw [List.map_nil, List.append_nil, ((hps.flatMap_right _).map _).nodup_iff, flatMap_snd_named]
    exact (List.pairwise_map.2 hid).imp (fun hlt => Nat.ne_of_lt hlt)
  obtain ⟨rows', hr, hp, hs⟩ := indexSegments_named ps [] hfile List.Pairwise.nil hnodup
  have he : rows' = rowsOf serde 1 parts := by
    apply hs.eq_of_perm (sorted_rowsOf hid 1)
    rw [List.append_nil] at hp
    rw [rowsOf_eq_named]
    exact hp.trans (hps.flatMap_right _)
  unfold Log.rebuildIndex
  rw [← hnames, hr, he]

end EventLog
end Vai
