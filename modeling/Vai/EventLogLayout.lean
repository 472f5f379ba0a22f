import Vai.EventLog
import Vai.Utf8
/-!
# EventLogLayout — which bytes and rows a list of events is

The segments of a log that holds the events of `parts`, one list a segment: files numbered from 1, each line the event's
JSON, all but the last file full.  The current segment is the last one, or a new one when the last is full; the rows
`rebuild_index` writes are one for each line, at the offset where the line starts.
-/
namespace Vai
namespace EventLog

open Ndjson (newline unlines offsets)

/-! ## Names -/

theorem isDigit_of_mem_pad {w n : Nat} {c : Char} (h : c ∈ pad w n) : c.isDigit := by
  unfold pad at h
  rcases List.mem_append.1 h with h | h
  · rw [(List.mem_replicate.1 h).2]
    rfl
  · exact Text.isDigit_of_mem_ofNat h

theorem ofDigitChars_zeros : ∀ (k : Nat) (l : Text),
    Nat.ofDigitChars 10 (List.replicate k '0' ++ l) 0 = Nat.ofDigitChars 10 l 0
  | 0, _ => rfl
  | k + 1, l => by
    rw [List.replicate_succ, List.cons_append, Nat.ofDigitChars_cons]
    exact ofDigitChars_zeros k l

theorem parseNat_pad (w n : Nat) : Text.parseNat (pad w n) = some n := by
  have hne : pad w n ≠ [] := by simp [pad, Text.ofNat_ne_nil]
  rw [Text.parseNat_digits hne (fun c hc => isDigit_of_mem_pad hc)]
  unfold pad
  rw [ofDigitChars_zeros, Text.ofNat, Nat.ofDigitChars_ten_toDigits]

theorem trimEndText_of_not_suffix {p s : Text} (h : ¬ p <:+ s) (n : Nat) : trimEndText p n s = s := by
  cases n with
  | zero => rfl
  | succ n => rw [trimEndText, if_neg (by rwa [List.isSuffixOf_iff_suffix])]

theorem segmentNumber_segmentName {n : Nat} (h : n < 2 ^ 32) : segmentNumber (segmentName n) = n := by
  have hns : ¬ ".events".toList <:+ pad 6 n := by
    intro hs
    have hdot : '.' ∈ pad 6 n := hs.subset (by decide)
    have := isDigit_of_mem_pad hdot
    exact absurd this (by decide)
  have ht : trimEndText ".events".toList (segmentName n).length (segmentName n) = pad 6 n := by
    have hl : (segmentName n).length = (pad 6 n).length + 6 + 1 := by
      unfold segmentName
      rw [List.length_append]
      rfl
    have htake : (segmentName n).take ((segmentName n).length - ".events".toList.length) = pad 6 n := by
      rw [hl, show (pad 6 n).length + 6 + 1 - ".events".toList.length = (pad 6 n).length by
        rw [show ".events".toList.length = 7 from rfl]; omega]
      exact List.take_left
    have hsuf : ".events".toList <:+ segmentName n := List.suffix_append _ _
    rw [hl, trimEndText, if_pos (List.isSuffixOf_iff_suffix.2 hsuf), htake]
    exact trimEndText_of_not_suffix hns _
  unfold segmentNumber
  rw [ht, parseNat_pad]
  exact if_pos h

theorem segmentName_injective {m n : Nat} (hm : m ≤ 1000000) (hn : n ≤ 1000000) (h : segmentName m = segmentName n) :
    m = n := by
  have := congrArg segmentNumber h
  rwa [segmentNumber_segmentName (by omega), segmentNumber_segmentName (by omega)] at this

/-! ## Lines -/

section
variable (serde : Serde)

theorem Serde.plain_body (e : Event) : Ndjson.Plain (serde.body e) :=
  ⟨Text.not_mem_intoBytes (by decide) (c := '\n') rfl (serde.newline_not_mem e),
    Text.not_mem_intoBytes (by decide) (c := '\r') rfl (serde.carriage_not_mem e)⟩

theorem Serde.plain_bodies {es : List Event} : ∀ l ∈ es.map serde.body, Ndjson.Plain l := by
  intro l hl
  obtain ⟨e, -, rfl⟩ := List.mem_map.1 hl
  exact serde.plain_body e

theorem Serde.line_eq (e : Event) : serde.line e = serde.body e ++ [newline] := by
  unfold Serde.line Serde.body
  rw [Text.intoBytes_append]
  rfl

theorem unlines_bodies_snoc (es : List Event) (e : Event) :
    unlines (es.map serde.body) ++ serde.line e = unlines ((es ++ [e]).map serde.body) := by
  rw [List.map_append, Ndjson.unlines_append, serde.line_eq]
  simp

theorem trimEnd_line (e : Event) : (serde.toString e ++ ['\n']).trimEnd = serde.toString e := by
  obtain ⟨t, ht⟩ := serde.braces e
  have hnl : Text.isWhitespace '\n' = true := by decide
  have hbr : Text.isWhitespace '}' = false := by decide
  unfold Text.trimEnd
  rw [ht]
  simp [hnl, hbr]

theorem trim_brace (t : Text) : (Text.trim ('{' :: t)).isEmpty = false := by
  have hbr : Text.isWhitespace '{' = false := by decide
  unfold Text.trim Text.trimEnd
  rw [List.dropWhile_cons_of_neg (by simp [hbr]), List.reverse_cons, List.dropWhile_append]
  cases hd : t.reverse.dropWhile Text.isWhitespace with
  | nil => simp [hbr]
  | cons x r => simp

theorem trim_toString (e : Event) : (serde.toString e).trim.isEmpty = false := by
  obtain ⟨t, ht⟩ := serde.braces e
  rw [ht]
  exact trim_brace _

/-! ## Layout -/

/-- The segments of the events of `parts`, numbered from `n`. -/
def segmentsOf : Nat → List (List Event) → List (Text × Bytes)
  | _, [] => []
  | n, es :: parts => (segmentName n, unlines (es.map serde.body)) :: segmentsOf (n + 1) parts

/-- The rows of events written one after the other to a segment, from an offset on. -/
def partRows (name : Text) : Nat → List Event → List Row
  | _, [] => []
  | o, e :: es => e.row name o :: partRows name (o + (serde.body e).length + 1) es

/-- The rows of the events of `parts`. -/
def rowsOf : Nat → List (List Event) → List Row
  | _, [] => []
  | n, es :: parts => partRows serde (segmentName n) 0 es ++ rowsOf (n + 1) parts

/-- A segment at or over the limit. -/
def Full (es : List Event) : Prop := maxSegmentBytes ≤ (unlines (es.map serde.body)).length

/-- The segments hold the events of `parts`. -/
structure Layout (segments : List (Text × Bytes)) (parts : List (List Event)) : Prop where
  segments : segments = segmentsOf serde 1 parts
  full : ∀ es ∈ parts.dropLast, Full serde es
  few : parts.length ≤ 1000000

theorem segmentsOf_append : ∀ (a b : List (List Event)) (n : Nat),
    segmentsOf serde n (a ++ b) = segmentsOf serde n a ++ segmentsOf serde (n + a.length) b
  | [], _, _ => rfl
  | es :: a, b, n => by
    rw [List.cons_append, segmentsOf, segmentsOf_append a b (n + 1), List.length_cons,
      show n + 1 + a.length = n + (a.length + 1) by omega]
    rfl

theorem rowsOf_append : ∀ (a b : List (List Event)) (n : Nat),
    rowsOf serde n (a ++ b) = rowsOf serde n a ++ rowsOf serde (n + a.length) b
  | [], _, _ => rfl
  | es :: a, b, n => by
    rw [List.cons_append, rowsOf, rowsOf_append a b (n + 1), List.length_cons,
      show n + 1 + a.length = n + (a.length + 1) by omega, ← List.append_assoc]
    rfl

theorem partRows_append (name : Text) : ∀ (a b : List Event) (o : Nat), partRows serde name o (a ++ b) =
    partRows serde name o a ++ partRows serde name (o + (unlines (a.map serde.body)).length) b
  | [], _, _ => by simp [partRows]
  | e :: a, b, o => by
    have h : o + (serde.body e).length + 1 + (unlines (a.map serde.body)).length =
        o + (unlines ((e :: a).map serde.body)).length := by
      rw [List.map_cons, Ndjson.unlines_cons, List.length_append, List.length_cons]
      omega
    rw [List.cons_append, partRows, partRows_append name a b, h]
    rfl

theorem map_id_partRows (name : Text) : ∀ (es : List Event) (o : Nat),
    (partRows serde name o es).map Row.id = es.map (·.id)
  | [], _ => rfl
  | e :: es, o => by
    rw [partRows, List.map_cons, map_id_partRows name es]
    rfl

theorem map_id_rowsOf : ∀ (parts : List (List Event)) (n : Nat),
    (rowsOf serde n parts).map Row.id = parts.flatten.map (·.id)
  | [], _ => rfl
  | es :: parts, n => by
    rw [rowsOf, List.map_append, map_id_partRows, map_id_rowsOf parts, List.flatten_cons, List.map_append]

theorem map_fst_segmentsOf : ∀ (parts : List (List Event)) (n : Nat),
    (segmentsOf serde n parts).map Prod.fst = (List.range' n parts.length).map segmentName
  | [], _ => rfl
  | es :: parts, n => by
    rw [segmentsOf, List.map_cons, map_fst_segmentsOf parts, List.length_cons, List.range'_succ]
    rfl

end

theorem file_skip (serde : Serde) {k : Nat} (hk : k ≤ 1000000) (rest : List (Text × Bytes)) :
    ∀ (init : List (List Event)) (n : Nat), n + init.length ≤ k →
      file (segmentName k) (segmentsOf serde n init ++ rest) = file (segmentName k) rest
  | [], _, _ => rfl
  | es :: init, n, h => by
    have hne : segmentName n ≠ segmentName k := fun he => by
      have := segmentName_injective (by simp at h; omega) hk he
      simp at h
      omega
    rw [segmentsOf, List.cons_append, file, if_neg hne]
    exact file_skip serde hk rest init (n + 1) (by simp at h; omega)

theorem extend_skip (serde : Serde) {k : Nat} (hk : k ≤ 1000000) (b : Bytes) (rest : List (Text × Bytes)) :
    ∀ (init : List (List Event)) (n : Nat), n + init.length ≤ k →
      extend (segmentName k) b (segmentsOf serde n init ++ rest) =
        segmentsOf serde n init ++ extend (segmentName k) b rest
  | [], _, _ => rfl
  | es :: init, n, h => by
    have hne : segmentName n ≠ segmentName k := fun he => by
      have := segmentName_injective (by simp at h; omega) hk he
      simp at h
      omega
    rw [segmentsOf, List.cons_append, extend, if_neg hne, extend_skip serde hk b rest init (n + 1) (by simp at h; omega)]
    rfl

theorem getLast?_insertionSort {l : List Text} {x : Text} (hx : x ∈ l) (hmax : ∀ y ∈ l, y ≤ x) :
    (l.insertionSort (· ≤ ·)).getLast? = some x := by
  have hs := List.pairwise_insertionSort (· ≤ ·) l
  have hm : x ∈ l.insertionSort (· ≤ ·) := (List.mem_insertionSort _).2 hx
  obtain ⟨a, b, hab⟩ := List.append_of_mem hm
  rw [hab] at hs ⊢
  rw [List.pairwise_append, List.pairwise_cons] at hs
  rcases List.eq_nil_or_concat b with rfl | ⟨c, y, rfl⟩
  · simp
  · have hy : y ∈ l := by
      rw [← List.mem_insertionSort (· ≤ ·), hab]
      simp
    have : x = y := le_antisymm (hs.2.1.1 y (by simp)) (hmax y hy)
    rw [this, List.concat_eq_append, ← List.cons_append, ← List.append_assoc, List.getLast?_concat]

variable {serde : Serde}

theorem sortedSegments_last {log : Log} {parts : List (List Event)} (h : Layout serde log.segments parts)
    (hne : parts ≠ []) : log.sortedSegments.getLast? = some (segmentName (min parts.length 999999)) := by
  have hpos : 0 < parts.length := List.length_pos_iff.2 hne
  have hfew := h.few
  unfold Log.sortedSegments
  rw [h.segments, map_fst_segmentsOf]
  apply getLast?_insertionSort
  · exact List.mem_map_of_mem (List.mem_range'_1.2 (by omega))
  · intro y hy
    obtain ⟨m, hm, rfl⟩ := List.mem_map.1 hy
    have := List.mem_range'_1.1 hm
    exact segmentName_le (by omega) h.few

/-- **The current segment**: the last one (`cur` is what it holds), or a new one when every segment is full. -/
theorem Layout.current {log : Log} {parts : List (List Event)} (h : Layout serde log.segments parts) :
    ∃ init cur, (parts = init ++ [cur] ∨ parts = init ∧ cur = []) ∧ (∀ es ∈ init, Full serde es) ∧
      init.length + 1 ≤ 1000000 ∧ log.currentSegmentName = segmentName (init.length + 1) := by
  have hfew := h.few
  rcases List.eq_nil_or_concat parts with rfl | ⟨init, cur, rfl⟩
  · refine ⟨[], [], .inr ⟨rfl, rfl⟩, by simp, by simp, ?_⟩
    unfold Log.currentSegmentName Log.sortedSegments
    rw [h.segments]
    rfl
  rw [List.concat_eq_append] at h hfew ⊢
  have hfull : ∀ es ∈ init, Full serde es := by simpa using h.full
  have hlen : (init ++ [cur]).length = init.length + 1 := by simp
  have hlast := sortedSegments_last h (by simp)
  rw [hlen] at hlast hfew
  by_cases hk : init.length + 1 = 1000000
  · -- the segment sorted last is number 999999, which is full
    refine ⟨init, cur, .inl rfl, hfull, hfew, ?_⟩
    obtain ⟨init', last, rfl⟩ : ∃ init' last, init = init' ++ [last] := by
      rcases List.eq_nil_or_concat init with rfl | ⟨init', last, rfl⟩
      · simp at hk
      · exact ⟨init', last, by simp⟩
    have hlen' : init'.length + 1 = 999999 := by simp at hk; omega
    have hfile : file (segmentName 999999) log.segments = some (unlines (last.map serde.body)) := by
      rw [h.segments, List.append_assoc, segmentsOf_append, file_skip serde (by omega) _ init' 1 (by omega),
        show 1 + init'.length = 999999 by omega]
      rw [List.cons_append, segmentsOf, file, if_pos rfl]
    have hsize := hfull last (by simp)
    have hmin : min ((init' ++ [last]).length + 1) 999999 = 999999 := by omega
    unfold Log.currentSegmentName
    rw [hlast, hmin]
    simp only [hfile, Option.getD_some]
    rw [if_neg (by unfold Full at hsize; omega), segmentNumber_segmentName (by omega), hk]
  · have hmin : min (init.length + 1) 999999 = init.length + 1 := by omega
    have hfile : file (segmentName (init.length + 1)) log.segments = some (unlines (cur.map serde.body)) := by
      rw [h.segments, segmentsOf_append, file_skip serde (by omega) _ init 1 (by omega),
        show 1 + init.length = init.length + 1 by omega, segmentsOf, file, if_pos rfl]
    by_cases hsize : (unlines (cur.map serde.body)).length < maxSegmentBytes
    · refine ⟨init, cur, .inl rfl, hfull, hfew, ?_⟩
      unfold Log.currentSegmentName
      rw [hlast, hmin]
      simp only [hfile, Option.getD_some]
      rw [if_pos hsize]
    · refine ⟨init ++ [cur], [], .inr ⟨rfl, rfl⟩, ?_, by simp; omega, ?_⟩
      · intro es hes
        rcases List.mem_append.1 hes with hes | hes
        · exact hfull es hes
        · rw [List.mem_singleton.1 hes]
          unfold Full
          omega
      · unfold Log.currentSegmentName
        rw [hlast, hmin]
        simp only [hfile, Option.getD_some]
        rw [if_neg hsize, segmentNumber_segmentName (by omega), hlen]

/-- **Where a write goes**: to the end of the current segment. -/
theorem Layout.writeToSegment {log : Log} {parts : List (List Event)} (h : Layout serde log.segments parts) :
    ∃ init cur, parts.flatten = init.flatten ++ cur ∧ rowsOf serde 1 parts = rowsOf serde 1 (init ++ [cur]) ∧
      (∀ es ∈ init, Full serde es) ∧ init.length + 1 ≤ 1000000 ∧ ∀ bytes,
        log.writeToSegment bytes =
          (⟨segmentsOf serde 1 init ++ [(segmentName (init.length + 1), unlines (cur.map serde.body) ++ bytes)], log.rows⟩,
            segmentName (init.length + 1), (unlines (cur.map serde.body)).length) := by
  obtain ⟨init, cur, hparts, hfull, hlen, hcur⟩ := h.current
  refine ⟨init, cur, ?_, ?_, hfull, hlen, fun bytes => ?_⟩
  · rcases hparts with rfl | ⟨rfl, rfl⟩ <;> simp
  · rcases hparts with rfl | ⟨rfl, rfl⟩
    · rfl
    · rw [rowsOf_append]
      simp [rowsOf, partRows]
  · unfold Log.writeToSegment
    rw [hcur]
    rcases hparts with rfl | ⟨rfl, rfl⟩
    · simp only [h.segments, segmentsOf_append, segmentsOf]
      rw [file_skip serde (by omega) _ init 1 (by omega), extend_skip serde (by omega) _ _ init 1 (by omega),
        show 1 + init.length = init.length + 1 by omega]
      simp [file, extend]
    · have hf := file_skip serde (k := parts.length + 1) (by omega) [] parts 1 (by omega)
      have he := extend_skip serde (k := parts.length + 1) (by omega) bytes [] parts 1 (by omega)
      rw [List.append_nil] at hf he
      simp only [h.segments, hf, he]
      simp [file, extend]

end EventLog
end Vai
