import Vai.EventLogRun
/-!
# EventLogCrash — when the log survives a crash

The invariant of a clean run: the segments hold events numbered 1, 2, 3, …, and the table the rows of a beginning of
them.  A clean step keeps it; a step that is not clean either repeats an id or leaves a line that `rebuild_index` cannot
index.
-/
namespace Vai
namespace EventLog

open Ndjson (newline unlines offsets)

/-- A line that `rebuild_index` does not skip. -/
def Nonblank (l : Bytes) : Prop := ∀ t, Text.fromUtf8 l = some t → t.trim.isEmpty = false

section
variable (serde : Serde)

/-- The complete lines of events written one after the other to a segment. -/
def partLines (name : Text) (o : Nat) (es : List Event) : List (Text × Nat × Bytes) :=
  (offsets o (es.map serde.body)).map (fun l => (name, l.1, l.2))

/-- The invariant: `parts` are the events on disk, and `rows` a beginning of their rows. -/
structure Inv (s : State) (parts : List (List Event)) : Prop where
  layout : Layout serde s.log.segments parts
  ids : parts.flatten.map (·.id) = List.range' 1 parts.flatten.length
  rows : s.log.rows <+: rowsOf serde 1 parts
  attempted : ∀ e ∈ parts.flatten, e ∈ s.attempted

end

variable {serde : Serde}

/-! ## What the lines hold -/

theorem partLines_rows (name : Text) : ∀ (es : List Event) (o : Nat),
    List.Forall₂ (fun l r => ∃ e, serde.parse l.2.2 = some e ∧ r = e.row l.1 l.2.1) (partLines serde name o es)
      (partRows serde name o es)
  | [], _ => .nil
  | e :: es, _ => .cons ⟨e, parse_body e, rfl⟩ (partLines_rows name es _)

theorem partLines_events (name : Text) : ∀ (es : List Event) (o : Nat),
    (partLines serde name o es).filterMap (fun l => serde.parse l.2.2) = es
  | [], _ => rfl
  | e :: es, o => by
    have ih := partLines_events name es (o + (serde.body e).length + 1)
    unfold partLines at ih ⊢
    rw [List.map_cons, offsets, List.map_cons, List.filterMap_cons, parse_body]
    exact congrArg (e :: ·) ih

/-- The complete lines of the segments of `parts`, the last one with an unfinished line. -/
theorem completeLines_rows {p : Bytes} (hp : newline ∉ p) (cur : List Event) (rows : List Row) :
    ∀ (init : List (List Event)) (n : Nat), List.Forall₂
      (fun l r => ∃ e, serde.parse l.2.2 = some e ∧ r = e.row l.1 l.2.1)
      (Log.completeLines ⟨segmentsOf serde n init ++
        [(segmentName (n + init.length), unlines (cur.map serde.body) ++ p)], rows⟩)
      (rowsOf serde n (init ++ [cur]))
  | [], n => by
    have h := @partLines_rows serde (segmentName n) cur 0
    simpa [Log.completeLines, segmentsOf, rowsOf, Ndjson.complete_unlines_append hp serde.plain_bodies,
      partLines] using h
  | es :: init, n => by
    have ih := completeLines_rows hp cur rows init (n + 1)
    have h := @partLines_rows serde (segmentName n) es 0
    rw [show n + 1 + init.length = n + (es :: init).length by rw [List.length_cons]; omega] at ih
    unfold Log.completeLines at ih ⊢
    rw [segmentsOf, List.cons_append, List.cons_append, List.flatMap_cons, rowsOf]
    simp only [Ndjson.complete_unlines serde.plain_bodies]
    exact List.rel_append h ih

theorem completeLines_events {p : Bytes} (hp : newline ∉ p) (cur : List Event) (rows : List Row) :
    ∀ (init : List (List Event)) (n : Nat),
      (Log.completeLines ⟨segmentsOf serde n init ++
        [(segmentName (n + init.length), unlines (cur.map serde.body) ++ p)], rows⟩).filterMap
        (fun l => serde.parse l.2.2) = (init ++ [cur]).flatten
  | [], n => by
    have h := @partLines_events serde (segmentName n) cur 0
    simpa [Log.completeLines, segmentsOf, Ndjson.complete_unlines_append hp serde.plain_bodies, partLines] using h
  | es :: init, n => by
    have ih := completeLines_events hp cur rows init (n + 1)
    have h := @partLines_events serde (segmentName n) es 0
    rw [show n + 1 + init.length = n + (es :: init).length by rw [List.length_cons]; omega] at ih
    unfold Log.completeLines at ih ⊢
    rw [segmentsOf, List.cons_append, List.cons_append, List.flatMap_cons, List.filterMap_append, ih]
    simp only [Ndjson.complete_unlines serde.plain_bodies]
    rw [List.flatten_cons]
    exact congrArg (· ++ _) h

/-- The complete lines of a log that holds `parts`, one for each row. -/
theorem Layout.completeLines_rows {log : Log} {parts : List (List Event)} (h : Layout serde log.segments parts) :
    List.Forall₂ (fun l r => ∃ e, serde.parse l.2.2 = some e ∧ r = e.row l.1 l.2.1) log.completeLines
      (rowsOf serde 1 parts) := by
  obtain ⟨segments, rows⟩ := log
  obtain rfl : segments = segmentsOf serde 1 parts := h.segments
  rcases List.eq_nil_or_concat parts with rfl | ⟨init, cur, rfl⟩
  · exact .nil
  · have := @EventLog.completeLines_rows serde [] List.not_mem_nil cur rows init 1
    rw [List.concat_eq_append, segmentsOf_append]
    simpa [segmentsOf] using this

theorem Layout.completeLines_events {log : Log} {parts : List (List Event)} (h : Layout serde log.segments parts) :
    log.completeLines.filterMap (fun l => serde.parse l.2.2) = parts.flatten := by
  obtain ⟨segments, rows⟩ := log
  obtain rfl : segments = segmentsOf serde 1 parts := h.segments
  rcases List.eq_nil_or_concat parts with rfl | ⟨init, cur, rfl⟩
  · rfl
  · have := @EventLog.completeLines_events serde [] List.not_mem_nil cur rows init 1
    rw [List.concat_eq_append, segmentsOf_append]
    simpa [segmentsOf] using this

theorem length_rowsOf (n : Nat) (parts : List (List Event)) : (rowsOf serde n parts).length = parts.flatten.length := by
  have := congrArg List.length (map_id_rowsOf serde parts n)
  rwa [List.length_map, List.length_map] at this

theorem Layout.length_completeLines {log : Log} {parts : List (List Event)} (h : Layout serde log.segments parts) :
    log.completeLines.length = parts.flatten.length := by
  rw [h.completeLines_rows.length_eq, length_rowsOf]

/-! ## Reading back -/

theorem mem_partRows {name : Text} {r : Row} : ∀ {es : List Event} {o : Nat}, r ∈ partRows serde name o es →
    ∃ e ∈ es, ∃ o', r = e.row name o' ∧ (o', serde.body e) ∈ offsets o (es.map serde.body)
  | e :: es, o, h => by
    rw [partRows, List.mem_cons] at h
    rcases h with rfl | h
    · exact ⟨e, List.mem_cons_self, o, rfl, List.mem_cons_self⟩
    · obtain ⟨f, hf, o', hr, ho⟩ := mem_partRows h
      exact ⟨f, List.mem_cons_of_mem e hf, o', hr, List.mem_cons_of_mem _ ho⟩

/-- **Every row of a log that holds `parts` reads back its event.** -/
theorem Layout.readEventAt {log : Log} {parts : List (List Event)} (h : Layout serde log.segments parts) {r : Row}
    (hr : r ∈ rowsOf serde 1 parts) : ∃ e ∈ parts.flatten, r = e.row r.segmentFile r.byteOffset ∧
      log.readEventAt serde r.segmentFile r.byteOffset = .ok e := by
  rw [rowsOf_eq_named, List.mem_flatMap] at hr
  obtain ⟨p, hp, hr⟩ := hr
  obtain ⟨a, b, hab, hname⟩ := mem_named hp
  obtain ⟨e, he, o, rfl, ho⟩ := mem_partRows hr
  have hfile : file p.1 log.segments = some (unlines (p.2.map serde.body)) := by
    rw [hname, h.segments]
    exact file_segmentsOf h.few hab
  have hline := Ndjson.readLine_offset [] serde.plain_bodies ho
  rw [List.append_nil, ← serde.line_eq] at hline
  refine ⟨e, ?_, rfl, ?_⟩
  · rw [hab]
    simp [he]
  · show log.readEventAt serde p.1 o = .ok e
    unfold Log.readEventAt
    rw [hfile]
    simp only [hline]
    rw [Serde.line, Text.fromUtf8_intoBytes]
    simp only [trimEnd_line, serde.fromStr_toString]

/-! ## The invariant -/

theorem pairwise_of_ids {es : List Event} (h : es.map (·.id) = List.range' 1 es.length) :
    es.Pairwise (fun e f => e.id < f.id) := by
  rw [← List.pairwise_map (f := fun e : Event => e.id) (R := (· < ·)), h]
  exact List.pairwise_lt_range'

/-- **In every state of a clean run the log is crash-safe.** -/
theorem Inv.crashSafe {s : State} {parts : List (List Event)} (h : Inv serde s parts) : CrashSafe serde s := by
  have hid := pairwise_of_ids h.ids
  refine ⟨?_, fun r hr => ?_, rowsOf serde 1 parts, h.layout.rebuildIndex hid, h.layout.completeLines_rows⟩
  · rw [h.layout.completeLines_events]
    exact hid
  · obtain ⟨e, he, hre, hread⟩ := h.layout.readEventAt (h.rows.subset hr)
    exact ⟨e, h.attempted e he, hre, hread⟩

theorem getD_max?_range' (m : Nat) : ((List.range' 1 m).max?).getD 0 = m := by
  cases m with
  | zero => rfl
  | succ m =>
    have : (List.range' 1 (m + 1)).max? = some (m + 1) := by
      rw [List.max?_eq_some_iff]
      constructor
      · rw [List.mem_range'_1]
        omega
      · intro b hb
        rw [List.mem_range'_1] at hb
        omega
    rw [this]
    rfl

theorem Inv.nextId {s : State} {parts : List (List Event)} (h : Inv serde s parts) :
    s.log.nextId = s.log.rows.length + 1 := by
  have hrows : s.log.rows.map Row.id = List.range' 1 s.log.rows.length := by
    obtain ⟨rest, hrest⟩ := h.rows
    have hids := congrArg (List.map Row.id) hrest
    rw [map_id_rowsOf, h.ids, ← @length_rowsOf serde 1, ← hrest, List.map_append, List.length_append,
      ← List.range'_append_1] at hids
    exact (List.append_inj hids (by simp)).1
  unfold Log.nextId
  rw [hrows, getD_max?_range']

theorem Inv.rows_eq {s : State} {parts : List (List Event)} (h : Inv serde s parts) (hi : s.log.Indexed) :
    s.log.rows = rowsOf serde 1 parts := by
  apply h.rows.eq_of_length
  rw [length_rowsOf, ← h.layout.length_completeLines]
  exact hi

theorem Inv.indexed_iff {s : State} {parts : List (List Event)} (h : Inv serde s parts) :
    s.log.Indexed ↔ s.log.rows.length = parts.flatten.length := by
  unfold Log.Indexed
  rw [h.layout.length_completeLines]

/-- The segments after a whole line is written to the current one. -/
theorem Layout.line {log : Log} {parts : List (List Event)} (h : Layout serde log.segments parts) (e : Event) :
    ∃ parts' name o, log.writeToSegment (serde.line e) = (⟨segmentsOf serde 1 parts', log.rows⟩, name, o) ∧
      Layout serde (segmentsOf serde 1 parts') parts' ∧ parts'.flatten = parts.flatten ++ [e] ∧
      rowsOf serde 1 parts' = rowsOf serde 1 parts ++ [e.row name o] := by
  obtain ⟨init, cur, hflat, hrows, hfull, hlen, hw⟩ := h.writeToSegment
  refine ⟨init ++ [cur ++ [e]], segmentName (init.length + 1), (unlines (cur.map serde.body)).length, ?_,
    ⟨rfl, by simpa using hfull, by simpa using hlen⟩, ?_, ?_⟩
  · rw [hw, unlines_bodies_snoc, segmentsOf_append, show 1 + init.length = init.length + 1 by omega]
    rfl
  · rw [hflat]
    simp
  · rw [hrows, rowsOf_append, rowsOf_append, show 1 + init.length = init.length + 1 by omega]
    simp [rowsOf, partRows_append, partRows]

theorem Inv.snoc_ids {s : State} {parts : List (List Event)} (h : Inv serde s parts) (hi : s.log.Indexed) (now : Nat)
    (kind : EventKind) : (parts.flatten ++ [s.log.next now kind]).map (·.id) =
      List.range' 1 (parts.flatten ++ [s.log.next now kind]).length := by
  have hid : (s.log.next now kind).id = 1 + parts.flatten.length := by
    show s.log.nextId = _
    rw [h.nextId, h.indexed_iff.1 hi]
    omega
  rw [List.map_append, h.ids, List.map_singleton, hid, List.length_append, List.length_singleton, List.range'_1_concat]

/-- An append to a log whose lines are all indexed adds its event, its line and its row. -/
theorem Inv.append {s : State} {parts : List (List Event)} (h : Inv serde s parts) (hi : s.log.Indexed) (now : Nat)
    (kind : EventKind) : ∃ parts',
      s.log.append serde now kind = (⟨segmentsOf serde 1 parts', rowsOf serde 1 parts'⟩, .ok (s.log.next now kind)) ∧
      Inv serde (EventLog.step serde s (.append now kind)) parts' ∧
      parts'.flatten = parts.flatten ++ [s.log.next now kind] := by
  obtain ⟨parts', name, o, hw, hl, hflat, hrows⟩ := h.layout.line (s.log.next now kind)
  have hlast : insertRow ((s.log.next now kind).row name o) s.log.rows =
      some (s.log.rows ++ [(s.log.next now kind).row name o]) := by
    apply insertRow_last
    intro q hq
    have hm : q.id ∈ s.log.rows.map Row.id := List.mem_map_of_mem hq
    rw [h.rows_eq hi, map_id_rowsOf, h.ids, List.mem_range'_1] at hm
    show q.id < s.log.nextId
    rw [h.nextId, h.indexed_iff.1 hi]
    omega
  have hlog : s.log.append serde now kind =
      (⟨segmentsOf serde 1 parts', rowsOf serde 1 parts'⟩, .ok (s.log.next now kind)) := by
    unfold Log.append
    simp only [hw, indexEvent, hlast]
    rw [hrows, h.rows_eq hi]
  refine ⟨parts', hlog, ⟨?_, ?_, ?_, fun e he => ?_⟩, hflat⟩
  · show Layout serde (s.log.append serde now kind).1.segments parts'
    rw [hlog]
    exact hl
  · rw [hflat]
    exact h.snoc_ids hi now kind
  · show (s.log.append serde now kind).1.rows <+: _
    rw [hlog]
  · rw [hflat, List.mem_append] at he
    exact List.mem_append.2 (he.imp_left (h.attempted e))

/-- **A clean step keeps the invariant.** -/
theorem Inv.step {s : State} {parts : List (List Event)} (h : Inv serde s parts) (op : Op)
    (hc : op.Clean serde s.log) : ∃ parts', Inv serde (step serde s op) parts' := by
  cases op with
  | append now kind =>
    obtain ⟨parts', -, h', -⟩ := h.append hc now kind
    exact ⟨parts', h'⟩
  | stopped now kind k =>
    rcases hc with rfl | ⟨hk, hi⟩
    · obtain ⟨init, cur, hflat, hrows, hfull, hlen, hw⟩ := h.layout.writeToSegment
      have hlog : s.log.stopped serde now kind 0 = ⟨segmentsOf serde 1 (init ++ [cur]), s.log.rows⟩ := by
        unfold Log.stopped
        rw [hw, segmentsOf_append, List.take_zero, List.append_nil, show 1 + init.length = init.length + 1 by omega]
        rfl
      have hflat' : (init ++ [cur]).flatten = parts.flatten := by simp [hflat]
      refine ⟨init ++ [cur], ?_, ?_, ?_, fun e he => ?_⟩
      · show Layout serde (s.log.stopped serde now kind 0).segments _
        rw [hlog]
        exact ⟨rfl, by simpa using hfull, by simpa using hlen⟩
      · rw [hflat']
        exact h.ids
      · show (s.log.stopped serde now kind 0).rows <+: _
        rw [hlog, ← hrows]
        exact h.rows
      · rw [hflat'] at he
        exact List.mem_append_left _ (h.attempted e he)
    · obtain ⟨parts', name, o, hw, hl, hflat, hrows⟩ := h.layout.line (s.log.next now kind)
      have hlog : s.log.stopped serde now kind k = ⟨segmentsOf serde 1 parts', s.log.rows⟩ := by
        unfold Log.stopped
        rw [List.take_of_length_le hk, hw]
      refine ⟨parts', ?_, ?_, ?_, fun e he => ?_⟩
      · show Layout serde (s.log.stopped serde now kind k).segments parts'
        rw [hlog]
        exact hl
      · rw [hflat]
        exact h.snoc_ids hi now kind
      · show (s.log.stopped serde now kind k).rows <+: _
        rw [hlog, hrows]
        exact h.rows.trans (List.prefix_append _ _)
      · rw [hflat, List.mem_append] at he
        exact List.mem_append.2 (he.imp_left (h.attempted e))
  | rebuild =>
    have hlog := h.layout.rebuildIndex (pairwise_of_ids h.ids)
    refine ⟨parts, ?_, h.ids, ?_, h.attempted⟩
    · show Layout serde (s.log.rebuildIndex serde).1.segments parts
      rw [hlog]
      exact h.layout
    · show (s.log.rebuildIndex serde).1.rows <+: _
      rw [hlog]

/-! ## Steps that are not clean -/

/-- **A line written while another has no row repeats an id.** -/
theorem Inv.repeats_id {s s' : State} {parts : List (List Event)} (h : Inv serde s parts) (hi : ¬ s.log.Indexed)
    (now : Nat) (kind : EventKind) (hs : s'.log.segments = (s.log.writeToSegment (serde.line (s.log.next now kind))).1.segments) :
    ¬ CrashSafe serde s' := by
  intro hc
  obtain ⟨parts', name, o, hw, hl, hflat, -⟩ := h.layout.line (s.log.next now kind)
  have hl' : Layout serde s'.log.segments parts' := by
    rw [hs, hw]
    exact hl
  have hinc := hc.increasing
  rw [hl'.completeLines_events, hflat, List.pairwise_append] at hinc
  -- the id of the new line is among those of the old ones
  have hlt : s.log.rows.length < parts.flatten.length := by
    have hle := h.rows.length_le
    rw [length_rowsOf] at hle
    rw [h.indexed_iff] at hi
    omega
  have hmem : s.log.nextId ∈ parts.flatten.map (·.id) := by
    rw [h.ids, h.nextId, List.mem_range'_1]
    omega
  obtain ⟨e, he, hid⟩ := List.mem_map.1 hmem
  have : e.id < s.log.nextId := hinc.2.2 e he _ (List.mem_singleton.2 rfl)
  omega

theorem fromUtf8_brace {r : Bytes} {t : Text} (h : Text.fromUtf8 (123 :: r) = some t) : ∃ t', t = '{' :: t' := by
  unfold Text.fromUtf8 at h
  rw [List.length_cons, Text.utf8Decode] at h
  have hb : Text.utf8Step 123 r = (some '{', 0) := Text.utf8Step_one (v := 123) (by omega) r
  rw [hb, List.mapM_cons] at h
  simp only [id, Option.bind_eq_bind, Option.bind_some, Option.pure_def] at h
  obtain ⟨t', -, h'⟩ := Option.bind_eq_some_iff.1 h
  exact ⟨t', (Option.some.inj h').symm⟩

theorem nonblank_prefix {e : Event} {p : Bytes} (hne : p ≠ []) (hp : p <+: serde.body e) : Nonblank p := by
  obtain ⟨t, ht⟩ := serde.braces e
  obtain ⟨q, hq⟩ := hp
  obtain ⟨b, r, rfl⟩ := List.exists_cons_of_ne_nil hne
  have hb : b = 123 := by
    unfold Serde.body at hq
    rw [ht] at hq
    have ht' : Text.intoBytes ('{' :: t ++ ['}']) = String.utf8EncodeChar '{' ++ Text.intoBytes (t ++ ['}']) := rfl
    rw [ht'] at hq
    have : String.utf8EncodeChar '{' = [123] := by decide
    rw [this, List.cons_append, List.cons_append] at hq
    exact (List.cons.inj hq).1
  intro u hu
  rw [hb] at hu
  obtain ⟨t', rfl⟩ := fromUtf8_brace hu
  exact trim_brace t'

theorem indexLines_length {name : Text} : ∀ {ls : List Bytes} {o : Nat} {rows rows' : List Row},
    (∀ l ∈ ls, Nonblank l) → indexLines serde name o ls rows = (rows', .ok ()) →
      rows'.length = rows.length + ls.length
  | [], o, rows, rows', _, h => by
    cases h
    rfl
  | l :: ls, o, rows, rows', hn, h => by
    rw [indexLines] at h
    cases hu : Text.fromUtf8 l with
    | none => simp [hu] at h
    | some line =>
      simp only [hu, hn l List.mem_cons_self line hu, Bool.false_eq_true, if_false] at h
      cases hf : serde.fromStr line with
      | none => simp [hf] at h
      | some e =>
        simp only [hf] at h
        cases hi : indexEvent e name o rows with
        | none => simp [hi] at h
        | some rows₁ =>
          simp only [hi] at h
          have ih := indexLines_length (fun m hm => hn m (List.mem_cons_of_mem l hm)) h
          rw [ih, insertRow_length hi, List.length_cons]
          omega

theorem indexSegments_length {segments : List (Text × Bytes)} (count : Text → Nat) :
    ∀ {names : List Text} {rows rows' : List Row},
      (∀ n ∈ names, ∀ b, file n segments = some b → (∀ l ∈ Ndjson.lines b, Nonblank l) ∧ count n = (Ndjson.lines b).length) →
      indexSegments serde segments names rows = (rows', .ok ()) → rows'.length = rows.length + (names.map count).sum
  | [], rows, rows', _, h => by
    cases h
    rfl
  | n :: names, rows, rows', hn, h => by
    rw [indexSegments] at h
    cases hf : file n segments with
    | none => simp [hf] at h
    | some b =>
      simp only [hf] at h
      obtain ⟨hblank, hcount⟩ := hn n List.mem_cons_self b hf
      cases hl : indexLines serde n 0 (Ndjson.lines b) rows with
      | mk rows₁ res =>
        cases res with
        | error e => simp [hl] at h
        | ok u =>
          simp only [hl] at h
          have ih := indexSegments_length count (fun m hm => hn m (List.mem_cons_of_mem n hm)) h
          rw [ih, indexLines_length hblank hl, List.map_cons, List.sum_cons, hcount]
          omega

theorem file_of_mem : ∀ {segments : List (Text × Bytes)} {q : Text × Bytes}, (segments.map Prod.fst).Nodup →
    q ∈ segments → file q.1 segments = some q.2
  | s :: segments, q, hn, hq => by
    rw [List.map_cons, List.nodup_cons] at hn
    rw [file]
    rcases List.mem_cons.1 hq with rfl | hq
    · rw [if_pos rfl]
    · have hne : s.1 ≠ q.1 := fun he => hn.1 (by rw [he]; exact List.mem_map_of_mem hq)
      rw [if_neg hne]
      exact file_of_mem hn.2 hq

theorem mem_of_file {name : Text} {b : Bytes} : ∀ {segments : List (Text × Bytes)}, file name segments = some b →
    ∃ q ∈ segments, q.2 = b
  | s :: segments, h => by
    rw [file] at h
    split at h
    · exact ⟨s, List.mem_cons_self, Option.some.inj h⟩
    · obtain ⟨q, hq, hb⟩ := mem_of_file h
      exact ⟨q, List.mem_cons_of_mem s hq, hb⟩

theorem mem_segmentsOf {q : Text × Bytes} : ∀ {parts : List (List Event)} {n : Nat}, q ∈ segmentsOf serde n parts →
    ∃ es : List Event, q.2 = unlines (es.map serde.body)
  | es :: parts, n, h => by
    rw [segmentsOf, List.mem_cons] at h
    rcases h with rfl | h
    · exact ⟨es, rfl⟩
    · exact mem_segmentsOf h

theorem nodup_segmentNames {k : Nat} (hk : k ≤ 1000000) : ((List.range' 1 k).map segmentName).Nodup := by
  apply (List.nodup_range' (s := 1) (n := k)).map_on
  intro m hm n hn he
  rw [List.mem_range'_1] at hm hn
  exact segmentName_injective (by omega) (by omega) he

theorem sum_lines_segmentsOf : ∀ (parts : List (List Event)) (n : Nat),
    ((segmentsOf serde n parts).map (fun q => (Ndjson.lines q.2).length)).sum = parts.flatten.length
  | [], _ => rfl
  | es :: parts, n => by
    rw [segmentsOf, List.map_cons, List.sum_cons, sum_lines_segmentsOf parts, Ndjson.lines_unlines serde.plain_bodies,
      List.length_map, List.flatten_cons, List.length_append]

theorem nonblank_bodies {es : List Event} : ∀ l ∈ es.map serde.body, Nonblank l := by
  intro l hl
  obtain ⟨e, -, rfl⟩ := List.mem_map.1 hl
  obtain ⟨t, ht⟩ := serde.braces e
  apply nonblank_prefix (e := e) _ (List.prefix_refl _)
  unfold Serde.body
  rw [Ne, Text.intoBytes_eq_nil, ht]
  simp

/-- `rebuild_index` gives a row to every line that is not blank, ended by a newline or not. -/
theorem rebuildIndex_length {log : Log} {rows : List Row} (hn : (log.segments.map Prod.fst).Nodup)
    (hblank : ∀ q ∈ log.segments, ∀ l ∈ Ndjson.lines q.2, Nonblank l)
    (h : log.rebuildIndex serde = ({ log with rows := rows }, .ok ())) :
    rows.length = (log.segments.map (fun q => (Ndjson.lines q.2).length)).sum := by
  have hidx : indexSegments serde log.segments log.sortedSegments [] = (rows, .ok ()) := by
    unfold Log.rebuildIndex at h
    simp only [Prod.mk.injEq, Log.mk.injEq, true_and] at h
    exact Prod.ext h.1 h.2
  let count : Text → Nat := fun n => (Ndjson.lines ((file n log.segments).getD [])).length
  have hlen := indexSegments_length count (fun n _ b hb => by
    obtain ⟨q, hq, rfl⟩ := mem_of_file hb
    refine ⟨hblank q hq, ?_⟩
    show (Ndjson.lines ((file n log.segments).getD [])).length = _
    rw [hb]
    rfl) hidx
  have hperm : log.sortedSegments.Perm (log.segments.map Prod.fst) := List.perm_insertionSort _ _
  rw [hlen, List.length_nil, Nat.zero_add, (hperm.map count).sum_nat, List.map_map]
  congr 1
  apply List.map_congr_left
  intro q hq
  show (Ndjson.lines ((file q.1 log.segments).getD [])).length = _
  rw [file_of_mem hn hq]
  rfl

/-- **An unfinished line is one that `rebuild_index` fails on, or takes for a complete one.** -/
theorem Inv.torn {s s' : State} {parts : List (List Event)} (h : Inv serde s parts) {e : Event} {p : Bytes}
    (hne : p ≠ []) (hp : p <+: serde.body e) (hs : s'.log.segments = (s.log.writeToSegment p).1.segments) :
    ¬ CrashSafe serde s' := by
  intro hc
  obtain ⟨init, cur, -, -, -, hlen, hw⟩ := h.layout.writeToSegment
  have hnl : newline ∉ p := fun hm => (serde.plain_body e).1 (hp.subset hm)
  obtain ⟨⟨segments, rows₀⟩, attempted⟩ := s'
  obtain rfl : segments = segmentsOf serde 1 init ++
      [(segmentName (1 + init.length), unlines (cur.map serde.body) ++ p)] := by
    rw [Nat.add_comm]
    rw [hw] at hs
    exact hs
  have hlast : Ndjson.lines (unlines (cur.map serde.body) ++ p) = cur.map serde.body ++ [p] := by
    rw [Ndjson.lines_unlines_append hnl serde.plain_bodies, if_neg hne]
  obtain ⟨rows, hr, hrows⟩ := hc.rebuild
  have hcomplete := @completeLines_rows serde _ hnl cur rows₀ init 1
  -- every line of every segment gets a row, the unfinished one too
  have hall := rebuildIndex_length (by
      have hnodup := nodup_segmentNames hlen
      rw [List.range'_1_concat, List.map_append] at hnodup
      rw [List.map_append, map_fst_segmentsOf]
      exact hnodup)
    (fun q hq => by
      rcases List.mem_append.1 hq with hq | hq
      · obtain ⟨es, hes⟩ := mem_segmentsOf hq
        rw [hes, Ndjson.lines_unlines serde.plain_bodies]
        exact nonblank_bodies
      · rw [List.mem_singleton.1 hq, hlast]
        intro l hl
        rcases List.mem_append.1 hl with hl | hl
        · exact nonblank_bodies l hl
        · rw [List.mem_singleton.1 hl]
          exact nonblank_prefix hne hp) hr
  rw [List.map_append, List.sum_append, sum_lines_segmentsOf, List.map_singleton, hlast, List.sum_singleton,
    List.length_append, List.length_map, List.length_singleton, ← hrows.length_eq, hcomplete.length_eq, length_rowsOf,
    List.flatten_append, List.length_append, List.flatten_singleton] at hall
  omega

theorem Inv.clean_iff {s : State} {parts : List (List Event)} (h : Inv serde s parts) (op : Op) :
    CrashSafe serde (EventLog.step serde s op) ↔ op.Clean serde s.log := by
  constructor
  · intro hc
    cases op with
    | append now kind =>
      by_contra hi
      refine h.repeats_id hi now kind ?_ hc
      show (s.log.append serde now kind).1.segments = _
      unfold Log.append
      simp only
      split <;> rfl
    | stopped now kind k =>
      by_cases hk0 : k = 0
      · exact .inl hk0
      by_cases hk : (serde.line (s.log.next now kind)).length ≤ k
      · refine .inr ⟨hk, ?_⟩
        by_contra hi
        refine h.repeats_id hi now kind ?_ hc
        show (s.log.stopped serde now kind k).segments = _
        unfold Log.stopped
        rw [List.take_of_length_le hk]
      · exfalso
        have hlen : k ≤ (serde.body (s.log.next now kind)).length := by
          rw [serde.line_eq, List.length_append, List.length_singleton] at hk
          omega
        have htake : (serde.line (s.log.next now kind)).take k = (serde.body (s.log.next now kind)).take k := by
          rw [serde.line_eq, List.take_append_of_le_length hlen]
        refine h.torn (e := s.log.next now kind) (p := (serde.body (s.log.next now kind)).take k) ?_
          (List.take_prefix _ _) ?_ hc
        · intro hnil
          rw [List.take_eq_nil_iff] at hnil
          rcases hnil with hnil | hnil
          · exact hk0 hnil
          · rw [hnil, List.length_nil] at hlen
            omega
        · show (s.log.stopped serde now kind k).segments = _
          unfold Log.stopped
          rw [htake]
    | rebuild => trivial
  · intro hc
    obtain ⟨parts', h'⟩ := h.step _ hc
    exact h'.crashSafe

theorem inv_fresh (serde : Serde) : Inv serde ⟨Log.fresh, []⟩ [] :=
  ⟨⟨rfl, by simp, by simp⟩, rfl, List.prefix_refl _, by simp⟩

theorem exec_concat (ops : List Op) (op : Op) : exec serde (ops ++ [op]) = step serde (exec serde ops) op := by
  unfold exec
  rw [List.foldl_append]
  rfl

/-- A run whose states are all crash-safe keeps the invariant. -/
theorem inv_of_crashSafe {ops : List Op} : ∀ pre, pre <+: ops →
    (∀ p, p <+: pre → CrashSafe serde (exec serde p)) → ∃ parts, Inv serde (exec serde pre) parts := by
  intro pre
  induction pre using List.reverseRecOn with
  | nil => exact fun _ _ => ⟨[], inv_fresh serde⟩
  | append_singleton pre op ih =>
    intro hpre hsafe
    obtain ⟨parts, h⟩ := ih ((List.prefix_append _ _).trans hpre) (fun p hp => hsafe p (hp.trans (List.prefix_append _ _)))
    have hc := hsafe _ (List.prefix_refl _)
    rw [exec_concat] at hc ⊢
    exact h.step _ ((h.clean_iff op).1 hc)

theorem inv_of_clean {ops : List Op} : ∀ pre, pre <+: ops →
    (∀ p op, p ++ [op] <+: pre → op.Clean serde (exec serde p).log) → ∃ parts, Inv serde (exec serde pre) parts := by
  intro pre
  induction pre using List.reverseRecOn with
  | nil => exact fun _ _ => ⟨[], inv_fresh serde⟩
  | append_singleton pre op ih =>
    intro hpre hclean
    obtain ⟨parts, h⟩ := ih ((List.prefix_append _ _).trans hpre)
      (fun p q hp => hclean p q (hp.trans (List.prefix_append _ _)))
    rw [exec_concat]
    exact h.step _ (hclean pre op (List.prefix_refl _))

/-- **The log is crash-safe in every state of a run exactly when every step of the run is clean**: no crash leaves a
proper beginning of a line, and no line is added while a complete line has no row, that is, `rebuild_index` runs
between a crash that left a whole line and the next append. -/
theorem crashSafe_iff (serde : Serde) (ops : List Op) :
    (∀ pre, pre <+: ops → CrashSafe serde (exec serde pre)) ↔
      ∀ pre op, pre ++ [op] <+: ops → op.Clean serde (exec serde pre).log := by
  constructor
  · intro hsafe pre op hpre
    have hp := (List.prefix_append pre [op]).trans hpre
    obtain ⟨parts, h⟩ := inv_of_crashSafe pre hp (fun p hq => hsafe p (hq.trans hp))
    have hc := hsafe _ hpre
    rw [exec_concat] at hc
    exact (h.clean_iff op).1 hc
  · intro hclean pre hpre
    obtain ⟨parts, h⟩ := inv_of_clean pre hpre (fun p op hp => hclean p op (hp.trans hpre))
    exact h.crashSafe

/-- A crash that left a whole line leaves a line without a row. -/
theorem Inv.stopped_not_indexed {s : State} {parts : List (List Event)} (h : Inv serde s parts) {now : Nat}
    {kind : EventKind} {k : Nat} (hk : (serde.line (s.log.next now kind)).length ≤ k) :
    ¬ (s.log.stopped serde now kind k).Indexed := by
  obtain ⟨parts', name, o, hw, hl, hflat, -⟩ := h.layout.line (s.log.next now kind)
  have hlog : s.log.stopped serde now kind k = ⟨segmentsOf serde 1 parts', s.log.rows⟩ := by
    unfold Log.stopped
    rw [List.take_of_length_le hk, hw]
  have hle := h.rows.length_le
  rw [length_rowsOf] at hle
  have hlen := @Layout.length_completeLines serde ⟨segmentsOf serde 1 parts', s.log.rows⟩ _ hl
  rw [hlog, Log.Indexed, hlen, hflat, List.length_append, List.length_singleton]
  show ¬ s.log.rows.length = _
  omega

/-! ## A codec -/

instance countableChar : Countable Char := Function.Injective.countable fun _ _ h => Char.toNat_inj.1 h
instance countableText : Countable Text := inferInstanceAs (Countable (List Char))

deriving instance Countable for ConflictSeverity
deriving instance Countable for EntitySummary
deriving instance Countable for ConflictInfo
deriving instance Countable for EventKind
deriving instance Countable for Vai.Event
deriving instance Countable for Event

/-- A number for every event. -/
noncomputable def code : Event → Nat := (Countable.exists_injective_nat Event).choose

theorem code_injective : Function.Injective code := (Countable.exists_injective_nat Event).choose_spec

open Classical in
/-- What `Serde.writing` writes. -/
noncomputable def writingText (e₀ : Event) (json : Text) (e : Event) : Text :=
  if e = e₀ then '{' :: '"' :: json ++ ['}'] else '{' :: Text.ofNat (code e) ++ ['}']

theorem writingText_injective (e₀ : Event) (json : Text) : Function.Injective (writingText e₀ json) := by
  have hq : ∀ e, '{' :: '"' :: json ++ ['}'] ≠ '{' :: Text.ofNat (code e) ++ ['}'] := by
    intro e he
    simp only [List.cons_append, List.cons.injEq, true_and] at he
    have hm : '"' ∈ Text.ofNat (code e) ++ ['}'] := by rw [← he]; simp
    rcases List.mem_append.1 hm with hm | hm
    · exact Text.not_mem_ofNat (by decide) _ hm
    · exact absurd hm (by decide)
  intro e f h
  unfold writingText at h
  split at h
  · split at h
    · simp [*]
    · exact absurd h (hq f)
  · split at h
    · exact absurd h.symm (hq e)
    · simp only [List.cons_append, List.cons.injEq, true_and, List.append_cancel_right_eq] at h
      exact code_injective (Text.ofNat_injective h)

open Classical in
/-- A codec that writes the JSON object with the given fields for `e₀`, and a number in braces for other events. -/
noncomputable def Serde.writing (e₀ : Event) (json : Text) (hn : '\n' ∉ json) (hr : '\r' ∉ json) : Serde where
  toString := writingText e₀ json
  fromStr t := if h : ∃ e, writingText e₀ json e = t then some h.choose else none
  fromStr_toString e := by
    have h : ∃ f, writingText e₀ json f = writingText e₀ json e := ⟨e, rfl⟩
    rw [dif_pos h]
    exact congrArg some (writingText_injective e₀ json h.choose_spec)
  newline_not_mem e := by
    unfold writingText
    split
    · simp [hn]
    · simp [Text.not_mem_ofNat]
  carriage_not_mem e := by
    unfold writingText
    split
    · simp [hr]
    · simp [Text.not_mem_ofNat]
  braces e := by
    unfold writingText
    split
    · exact ⟨_, rfl⟩
    · exact ⟨_, rfl⟩

/-- The first event of a repository. -/
def initialized : EventKind := .repoInitialized 7 "r".toList

noncomputable def initializedSerde : Serde :=
  Serde.writing ⟨⟨1, initialized⟩, 0⟩
    ("id\":1,\"timestamp\":\"1970-01-01T00:00:00Z\",\"event_type\":\"RepoInitialized\",\"payload\":\x7b".toList ++
      "\"repo_id\":\"00000000-0000-0000-0000-000000000007\",\"name\":\"r\"\x7d".toList) (by simp) (by simp)

/-- The process stops after the whole line of the first event and before its row is inserted; the log is opened again
and an event is appended: it gets the first event's id. -/
theorem append_after_crash_repeats_id :
    ¬ CrashSafe initializedSerde (exec initializedSerde
      [.stopped 0 initialized (initializedSerde.line (Log.fresh.next 0 initialized)).length, .append 0 initialized]) := by
  obtain ⟨parts, h⟩ := (inv_fresh initializedSerde).step
    (.stopped 0 initialized (initializedSerde.line (Log.fresh.next 0 initialized)).length)
    (.inr ⟨Nat.le_refl _, rfl⟩)
  intro hc
  exact (inv_fresh _).stopped_not_indexed (Nat.le_refl _) ((h.clean_iff (.append 0 initialized)).1 hc)

end EventLog
end Vai
