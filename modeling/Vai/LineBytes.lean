import Vai.LineMerge
/-!
# LineBytes — what level 1 keeps of the bytes

The merge works on decoded lines without their ends.  `mergedRaw` is the same merge over the raw lines, each kept line
with the lines both sides have for it; `level1_preserves_iff` says exactly when the file that level 1 writes has, at every
place of it, the bytes it owes: those of the base where neither side changed the line, those of the side where one is
inserted.
-/
namespace Vai
namespace Merge

open Text

/-- The bytes are the encoding of a text. -/
def ValidUtf8 (b : Bytes) : Prop := ∃ t, intoBytes t = b

theorem validUtf8_iff {b : Bytes} : ValidUtf8 b ↔ intoBytes (fromUtf8Lossy b) = b := by
  constructor
  · rintro ⟨t, rfl⟩
    rw [fromUtf8Lossy_intoBytes]
  · exact fun h => ⟨_, h⟩

/-! ## The merge over raw lines -/

/-- A line of the merge: one of the base, with the lines the sides have for it, or one that a side inserts. -/
inductive MergeLine where
  | kept (base : RawLine) (head ws : Option RawLine)
  | inserted (line : RawLine)
  deriving DecidableEq, Repr

def MergeLine.content : MergeLine → Bytes
  | kept b _ _ => b.content
  | inserted x => x.content

def MergeLine.text (x : MergeLine) : Text := fromUtf8Lossy x.content

/-- What a side's file has at a line of its merge with the base. -/
def MergeLine.inHead : MergeLine → Option RawLine
  | kept _ h _ => h
  | inserted x => some x

def MergeLine.inWs : MergeLine → Option RawLine
  | kept _ _ w => w
  | inserted x => some x

/-- The line of a side that is paired with line `i` of the base. -/
def partner (pairs : List (Nat × Nat)) (side : List RawLine) (i : Nat) : Option RawLine :=
  (pairs.find? (fun p => p.1 = i)).bind (fun p => side[p.2]?)

section Raw

variable (base head ws : Bytes)

def pairsOf (side : Bytes) : List (Nat × Nat) := lcsIndices (splitLines base) (splitLines side)

def baseLines : List MergeLine :=
  (rawLines base).mapIdx (fun i r =>
    .kept r (partner (pairsOf base head) (rawLines head) i) (partner (pairsOf base ws) (rawLines ws) i))

/-- A side's hunks, with raw lines. -/
def rawEdits (side : Bytes) : List (Edit MergeLine) :=
  diffEdits (splitLines base).length ((rawLines side).map .inserted) (pairsOf base side)

def mergedRaw : List MergeLine := Edit.simultaneous (baseLines base head ws) (rawEdits base head ++ rawEdits base ws)

theorem length_rawLines (b : Bytes) : (rawLines b).length = (splitLines b).length := by
  rw [splitLines_eq, List.length_map]

theorem baseLines_text : (baseLines base head ws).map MergeLine.text = splitLines base := by
  unfold baseLines
  rw [splitLines_eq]
  refine List.ext_getElem (by simp) fun i h1 h2 => ?_
  rw [List.getElem_map, List.getElem_mapIdx, List.getElem_map]
  rfl

theorem rawEdits_text (side : Bytes) : (rawEdits base side).map (Edit.map MergeLine.text) =
    (computeHunks (splitLines base) (splitLines side)).map Hunk.edit := by
  unfold rawEdits diffEdits
  rw [map_edit_computeHunks, ← editsFrom_map, List.map_map]
  unfold diffEdits pairsOf
  have hlines : (rawLines side).map (MergeLine.text ∘ .inserted) = splitLines side := (splitLines_eq side).symm
  rw [hlines]

/-- **The lines of the merge, decoded.** -/
theorem mergedRaw_text : (mergedRaw base head ws).map MergeLine.text = merged base head ws := by
  unfold mergedRaw merged mergedLines
  rw [← Edit.simultaneous_map, List.map_append, rawEdits_text, rawEdits_text, baseLines_text, List.map_append]

end Raw

/-! ## A side without changes -/

theorem Matching.find_eq {n m : Nat} : ∀ {l : List (Nat × Nat)} {i j : Nat}, Matching n m i j l → ∀ p ∈ l,
    l.find? (fun q => q.1 = p.1) = some p
  | [], _, _, _, _, hp => absurd hp List.not_mem_nil
  | (a, b) :: l, i, j, h, p, hp => by
    rcases List.mem_cons.1 hp with rfl | hp
    · simp
    · have hge := h.2.2.2.2.ge p hp
      rw [List.find?_cons_of_neg (by have := hge.1; simp; omega)]
      exact Matching.find_eq h.2.2.2.2 p hp

/-- One side's merge with the base alone is that side's file. -/
theorem simultaneous_rawEdits {base side : Bytes} {L : List MergeLine} {g : MergeLine → Option RawLine}
    (hg : ∀ x, g (.inserted x) = some x) (hlen : L.length = (splitLines base).length)
    (hL : ∀ i x, L[i]? = some x → g x = partner (pairsOf base side) (rawLines side) i) :
    (Edit.simultaneous L (rawEdits base side)).map g = (rawLines side).map some := by
  have hm : Matching L.length ((rawLines side).map MergeLine.inserted).length 0 0 (pairsOf base side) := by
    rw [List.length_map, length_rawLines, hlen]
    exact lcsIndices_matching _ _
  obtain ⟨hall, hapart⟩ := editsFrom_apart hm
  have hedits : rawEdits base side = editsFrom L.length ((rawLines side).map MergeLine.inserted) 0 0 (pairsOf base side) := by
    rw [hlen]
    rfl
  rw [← hedits] at hall hapart
  have hw : Edit.Within L.length (rawEdits base side) := fun e he => ⟨(hall e he).2.1, (hall e he).2.2.1⟩
  have hin : Edit.InRange L.length 0 (rawEdits base side) :=
    (Edit.inRange_iff hw (Nat.zero_le _)).2 ⟨fun e _ => Nat.zero_le _, hapart.imp le_of_lt⟩
  have hlists : (rawEdits base side).map (Edit.map g) =
      editsFrom (L.map g).length ((rawLines side).map some) 0 0 (pairsOf base side) := by
    rw [hedits, ← editsFrom_map, List.map_map, show g ∘ MergeLine.inserted = some from funext hg, List.length_map]
  have hm' : Matching (L.map g).length ((rawLines side).map some).length 0 0 (pairsOf base side) := by
    rw [List.length_map, List.length_map]
    rwa [List.length_map] at hm
  have hpairs : ∀ p ∈ pairsOf base side, (L.map g)[p.1]? = ((rawLines side).map some)[p.2]? := fun p hp => by
    have hlt := hm'.lt p hp
    rw [List.length_map, List.length_map] at hlt
    rw [List.getElem?_map, List.getElem?_map, List.getElem?_eq_getElem hlt.1, List.getElem?_eq_getElem hlt.2,
      Option.map_some, Option.map_some, hL p.1 _ (List.getElem?_eq_getElem hlt.1)]
    unfold partner
    rw [hm'.find_eq p hp, Option.bind_some, List.getElem?_eq_getElem hlt.2]
  have hmap := Edit.splice_map g L (rawEdits base side) 0
  rw [Edit.splice_eq_simultaneous hw hin, hlists, splice_editsFrom hm' hpairs 0 le_rfl] at hmap
  simpa [Edit.simultaneous] using hmap.symm

theorem rawEdits_eq_nil {base side : Bytes} (h : splitLines side = splitLines base) : rawEdits base side = [] := by
  have hmap := rawEdits_text base side
  rw [computeHunks_eq_nil.2 h, List.map_nil] at hmap
  exact List.map_eq_nil_iff.1 hmap

theorem mergedRaw_head_unchanged {base head ws : Bytes} (h : splitLines head = splitLines base) :
    (mergedRaw base head ws).map MergeLine.inWs = (rawLines ws).map some := by
  unfold mergedRaw
  rw [rawEdits_eq_nil h, List.nil_append]
  refine simultaneous_rawEdits (fun _ => rfl) (by simp [baseLines, length_rawLines]) fun i x hx => ?_
  unfold baseLines at hx
  rw [List.getElem?_mapIdx] at hx
  obtain ⟨r, -, rfl⟩ := Option.map_eq_some_iff.1 hx
  rfl

theorem mergedRaw_ws_unchanged {base head ws : Bytes} (h : splitLines ws = splitLines base) :
    (mergedRaw base head ws).map MergeLine.inHead = (rawLines head).map some := by
  unfold mergedRaw
  rw [rawEdits_eq_nil h, List.append_nil]
  refine simultaneous_rawEdits (fun _ => rfl) (by simp [baseLines, length_rawLines]) fun i x hx => ?_
  unfold baseLines at hx
  rw [List.getElem?_mapIdx] at hx
  obtain ⟨r, -, rfl⟩ := Option.map_eq_some_iff.1 hx
  rfl

/-! ## What the result owes to a line -/

/-- What a file has at the place of a merged line: the same bytes and the same end where neither side changed the line,
the side's bytes where one is inserted. -/
def MergeLine.Preserved : MergeLine → Option RawLine → Prop
  | kept b h w, r => h = some b → w = some b →
    ∃ x, r = some x ∧ x.content = b.content ∧ (b.ending ≠ .none → x.ending = b.ending)
  | inserted y, r => ∃ x, r = some x ∧ x.content = y.content

/-- A file preserves the bytes of a merge. -/
def Preserves (base head ws out : Bytes) : Prop :=
  ∀ (t : Nat) (x : MergeLine), (mergedRaw base head ws)[t]? = some x → x.Preserved (rawLines out)[t]?

/-- The line at place `t` of `len` joined lines has a newline after it. -/
def Followed (hadNewline : Bool) (len t : Nat) (content : Bytes) : Prop :=
  t + 1 < len ∨ hadNewline = true ∧ (len = 1 ∨ content ≠ [])

/-- The bytes of a line come out of decoding and joining as they went in. -/
def Survives (hadNewline : Bool) (len t : Nat) (content : Bytes) : Prop :=
  ValidUtf8 content ∧ (Followed hadNewline len t content → content.getLast? ≠ some 13) ∧
    (Followed hadNewline len t content ∨ content ≠ [])

def MergeLine.Survives (hadNewline : Bool) (len t : Nat) : MergeLine → Prop
  | kept b h w => h = some b → w = some b → Merge.Survives hadNewline len t b.content ∧
    (b.ending ≠ .none → Followed hadNewline len t b.content ∧ b.ending = .lf)
  | inserted y => Merge.Survives hadNewline len t y.content

/-- What is written at the place of a joined line. -/
def written (hadNewline : Bool) (len t : Nat) (l : Text) : Option (Bytes × Bool) :=
  if t + 1 < len ∨ hadNewline = true ∧ (len = 1 ∨ l ≠ []) then some (intoBytes l, true)
  else if l = [] then none else some (intoBytes l, false)

theorem getElem?_pieces_joinLines (hadNewline : Bool) {L : List Text} (hL : ∀ l ∈ L, '\n' ∉ l) {t : Nat} {l : Text}
    (ht : L[t]? = some l) : (pieces 10 (joinLines hadNewline L))[t]? = written hadNewline L.length t l := by
  rcases List.eq_nil_or_concat L with rfl | ⟨i, last, rfl⟩
  · simp at ht
  · rw [List.concat_eq_append] at *
    rw [pieces_joinLines hadNewline (fun l hl => hL l (List.mem_append_left _ hl)) (hL last (by simp)), List.length_append,
      List.length_singleton]
    unfold written
    by_cases hlt : t < i.length
    · rw [List.getElem?_append_left hlt] at ht
      rw [List.getElem?_append_left (by simpa using hlt), List.getElem?_map, ht, if_pos (.inl (by omega))]
      rfl
    · have hti : t = i.length := by
        have := (List.getElem?_eq_some_iff.1 ht).1
        simp at this
        omega
      subst hti
      have hl : last = l := by simpa using ht
      subst hl
      have hget : ∀ x : List (Bytes × Bool), (i.map (fun l => (intoBytes l, true)) ++ x)[i.length]? = x[0]? := fun x => by
        rw [List.getElem?_append_right (by simp)]
        simp
      rw [hget]
      by_cases hnil : last = []
      · by_cases hi : i = []
        · cases hadNewline <;> simp [hnil, hi]
        · simp [hnil, hi]
      · cases hadNewline <;> simp [hnil]

/-- The raw line that is written holds some bytes exactly when they survive. -/
theorem content_written_iff {hadNewline : Bool} {len t : Nat} {c : Bytes} :
    (∃ x, (written hadNewline len t (fromUtf8Lossy c)).map rawLineOf = some x ∧ x.content = c) ↔
      Survives hadNewline len t c := by
  unfold written Survives Followed
  simp only [ne_eq, fromUtf8Lossy_eq_nil]
  by_cases hf : t + 1 < len ∨ hadNewline = true ∧ (len = 1 ∨ ¬ c = [])
  · simp only [hf, if_true, Option.map_some, Option.some.injEq, exists_eq_left', true_or, and_true, forall_const]
    unfold rawLineOf
    rw [if_pos rfl, validUtf8_iff]
    by_cases hcr : (intoBytes (fromUtf8Lossy c)).getLast? = some 13
    · rw [if_pos hcr]
      constructor
      · intro hc
        -- a decoded line that ends in a carriage return is not the decoded line without it
        exfalso
        obtain ⟨a, ha⟩ := List.getLast?_eq_some_iff.1 hcr
        have htext := (intoBytes_getLast? (c := '\r') (b := 13) (by decide) (by decide)).1 hcr
        obtain ⟨y, hy⟩ := List.getLast?_eq_some_iff.1 htext
        have hbytes : intoBytes (fromUtf8Lossy c) = intoBytes y ++ [13] := by
          rw [hy, intoBytes_append]
          rfl
        dsimp only at hc
        rw [hbytes, List.dropLast_concat] at hc
        rw [← hc, fromUtf8Lossy_intoBytes] at hy
        simp at hy
      · rintro ⟨hv, hn⟩
        exact absurd (hv ▸ hcr) hn
    · rw [if_neg hcr]
      dsimp only
      constructor
      · exact fun hc => ⟨hc, hc ▸ hcr⟩
      · exact And.left
  · simp only [hf, if_false, false_or, false_imp_iff, true_and]
    by_cases hc : c = []
    · simp [hc]
    · simp only [hc, if_false, Option.map_some, Option.some.injEq, exists_eq_left', not_false_eq_true, and_true]
      rw [validUtf8_iff]
      rfl

theorem preserved_iff_survives {hadNewline : Bool} {len t : Nat} (x : MergeLine) :
    x.Preserved ((written hadNewline len t x.text).map rawLineOf) ↔ x.Survives hadNewline len t := by
  cases x with
  | inserted y => exact content_written_iff
  | kept b h w =>
    refine forall_congr' fun hh => forall_congr' fun hw => ?_
    have hcontent := @content_written_iff hadNewline len t b.content
    change (∃ x, (written hadNewline len t (fromUtf8Lossy b.content)).map rawLineOf = some x ∧ _) ↔ _
    constructor
    · rintro ⟨x, hx, hc, hend⟩
      have hs := hcontent.1 ⟨x, hx, hc⟩
      refine ⟨hs, fun hne => ?_⟩
      have hxe := hend hne
      unfold written at hx
      by_cases hf : Followed hadNewline len t b.content
      · have hf' : t + 1 < len ∨ hadNewline = true ∧ (len = 1 ∨ fromUtf8Lossy b.content ≠ []) := by
          simpa [Followed] using hf
        rw [if_pos hf', Option.map_some, Option.some.injEq] at hx
        have hv := validUtf8_iff.1 hs.1
        rw [hv] at hx
        unfold rawLineOf at hx
        rw [if_pos rfl, if_neg (hs.2.1 hf)] at hx
        subst hx
        exact ⟨hf, hxe.symm⟩
      · have hf' : ¬ (t + 1 < len ∨ hadNewline = true ∧ (len = 1 ∨ fromUtf8Lossy b.content ≠ [])) := by
          simpa [Followed] using hf
        rw [if_neg hf'] at hx
        split at hx
        · cases hx
        · cases hx
          exact absurd hxe.symm hne
    · rintro ⟨hs, hend⟩
      obtain ⟨x, hx, hc⟩ := hcontent.2 hs
      refine ⟨x, hx, hc, fun hne => ?_⟩
      obtain ⟨hf, hlf⟩ := hend hne
      have hf' : t + 1 < len ∨ hadNewline = true ∧ (len = 1 ∨ fromUtf8Lossy b.content ≠ []) := by
        simpa [Followed] using hf
      unfold written at hx
      rw [if_pos hf', Option.map_some, Option.some.injEq, validUtf8_iff.1 hs.1] at hx
      unfold rawLineOf at hx
      rw [if_pos rfl, if_neg (hs.2.1 hf)] at hx
      rw [hlf, ← hx]

/-- A file whose lines are those of one side preserves the merge. -/
theorem preserves_side {base head ws out : Bytes} {g : MergeLine → Option RawLine}
    (hg : ∀ b h w r, g (.kept b h w) = some r → h = some b → w = some b → r = b) (hi : ∀ y, g (.inserted y) = some y)
    (h : (mergedRaw base head ws).map g = (rawLines out).map some) : Preserves base head ws out := by
  intro t x hx
  have hget : some (g x) = ((rawLines out).map some)[t]? := by rw [← h, List.getElem?_map, hx, Option.map_some]
  rw [List.getElem?_map] at hget
  obtain ⟨r, hr, hgr⟩ := Option.map_eq_some_iff.1 hget.symm
  cases x with
  | kept b hd w =>
    intro hh hw
    have hrb := hg b hd w r hgr.symm hh hw
    subst hrb
    exact ⟨r, hr, rfl, fun _ => rfl⟩
  | inserted y =>
    rw [hi, Option.some.injEq] at hgr
    exact ⟨r, hr, by rw [hgr]⟩

/-- **When a level-1 merge preserves the bytes**: one side changed no line; or every line that neither side changed and
every inserted line is valid UTF-8, is not empty at an end without a newline and has no carriage return before a newline,
and an unchanged line that is ended ends with a line feed that the merge writes. -/
theorem level1_preserves_iff {env : Env} {n : Nat} {p : Path} {base head ws out : Bytes} {w : Uuid}
    (h : tryMergeFile env n p base head ws w = some (.autoMerged out 1)) :
    Preserves base head ws out ↔ splitLines head = splitLines base ∨ splitLines ws = splitLines base ∨
      ∀ (t : Nat) (x : MergeLine), (mergedRaw base head ws)[t]? = some x →
        x.Survives (endsWithNewline head || endsWithNewline ws) (mergedRaw base head ws).length t := by
  by_cases hhead : splitLines head = splitLines base
  · rw [tryMergeFile_head_unchanged env n p ws w hhead] at h
    cases h
    refine iff_of_true (preserves_side (fun b h w r hr _ hw => ?_) (fun _ => rfl) (mergedRaw_head_unchanged hhead)) (.inl hhead)
    exact Option.some.inj (hr.symm.trans hw)
  by_cases hws : splitLines ws = splitLines base
  · rw [tryMergeFile_ws_unchanged env n p w hhead hws] at h
    cases h
    refine iff_of_true (preserves_side (fun b h w r hr hh _ => ?_) (fun _ => rfl) (mergedRaw_ws_unchanged hws)) (.inr (.inl hws))
    exact Option.some.inj (hr.symm.trans hh)
  obtain ⟨-, hout⟩ := tryMergeFile_both hhead hws h
  have hlen : (merged base head ws).length = (mergedRaw base head ws).length := by
    rw [← mergedRaw_text, List.length_map]
  have hline : ∀ (t : Nat) (x : MergeLine), (mergedRaw base head ws)[t]? = some x → (rawLines out)[t]? =
      (written (endsWithNewline head || endsWithNewline ws) (mergedRaw base head ws).length t x.text).map rawLineOf := by
    intro t x hx
    rw [rawLines, List.getElem?_map, hout, getElem?_pieces_joinLines _ (newline_not_mem_merged base head ws) (l := x.text)
      (by rw [← mergedRaw_text, List.getElem?_map, hx, Option.map_some]), hlen]
  constructor
  · intro hp
    refine .inr (.inr fun t x hx => ?_)
    have hpx := hp t x hx
    rw [hline t x hx] at hpx
    exact (preserved_iff_survives x).1 hpx
  · rintro (hc | hc | hc)
    · exact absurd hc hhead
    · exact absurd hc hws
    · intro t x hx
      rw [hline t x hx]
      exact (preserved_iff_survives x).2 (hc t x hx)

/-- A file with CRLF line ends: HEAD changes the first line, the workspace the third, and the second, which neither
touched, ends with a line feed alone. -/
theorem crlf_lost :
    (tryMergeFile Env.plain 0 "f.txt".toList (intoBytes "a\r\nb\r\nc\r\n".toList) (intoBytes "A\r\nb\r\nc\r\n".toList)
      (intoBytes "a\r\nb\r\nC\r\n".toList) 0).bind FileMergeResult.merged = some (intoBytes "A\nb\nC\n".toList) ∧
    ¬ Preserves (intoBytes "a\r\nb\r\nc\r\n".toList) (intoBytes "A\r\nb\r\nc\r\n".toList)
      (intoBytes "a\r\nb\r\nC\r\n".toList) (intoBytes "A\nb\nC\n".toList) := by
  refine ⟨by decide +kernel, fun h => ?_⟩
  have hx : (mergedRaw (intoBytes "a\r\nb\r\nc\r\n".toList) (intoBytes "A\r\nb\r\nc\r\n".toList)
      (intoBytes "a\r\nb\r\nC\r\n".toList))[1]? =
      some (.kept ⟨[98], .crlf⟩ (some ⟨[98], .crlf⟩) (some ⟨[98], .crlf⟩)) := by decide +kernel
  obtain ⟨x, hr, -, hend⟩ := h 1 _ hx rfl rfl
  have hlf : (rawLines (intoBytes "A\nb\nC\n".toList))[1]? = some ⟨[98], .lf⟩ := by decide +kernel
  rw [hlf] at hr
  cases hr
  exact absurd (hend (by decide)) (by decide)

theorem level1_preserves_iff_ends :
    Preserves threeLines (intoBytes "A\nb\nc\n".toList) (intoBytes "a\nb\nC\n".toList) (intoBytes "A\nb\nC\n".toList) ↔
      splitLines (intoBytes "A\nb\nc\n".toList) = splitLines threeLines ∨
      splitLines (intoBytes "a\nb\nC\n".toList) = splitLines threeLines ∨
      ∀ (t : Nat) (x : MergeLine),
        (mergedRaw threeLines (intoBytes "A\nb\nc\n".toList) (intoBytes "a\nb\nC\n".toList))[t]? = some x →
        x.Survives (endsWithNewline (intoBytes "A\nb\nc\n".toList) || endsWithNewline (intoBytes "a\nb\nC\n".toList))
          (mergedRaw threeLines (intoBytes "A\nb\nc\n".toList) (intoBytes "a\nb\nC\n".toList)).length t :=
  @level1_preserves_iff Env.plain 0 "f.txt".toList _ _ _ _ 0 (by decide +kernel)

end Merge
end Vai
