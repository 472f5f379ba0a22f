import Vai.HunkSpec
import Vai.Lines
/-!
# LineMerge — what level 1 merges

The lines of a level-1 merge are the simultaneous application of both sides' hunks to the base.  The bytes are those
lines joined by newlines, so that some line lists are not read back from them: a blank last line is lost, and so is a
carriage return before a newline (`splitLines_joinLines`).
-/
namespace Vai
namespace Merge

open Text

/-! ## Joining lines -/

theorem splitLines_eq (content : Bytes) : splitLines content = (rawLines content).map (fun r => fromUtf8Lossy r.content) := by
  unfold splitLines
  dsimp only
  rw [← lines_fromUtf8Lossy]
  split
  · rename_i h
    rw [h]
    rfl
  · rfl

theorem not_mem_of_mem_splitLines {content : Bytes} {l : Text} (h : l ∈ splitLines content) : '\n' ∉ l := by
  rw [splitLines_eq, ← lines_fromUtf8Lossy] at h
  exact not_mem_of_mem_lines h

theorem intoBytes_joinWith : ∀ L : List Text, intoBytes (joinWith '\n' L) = joinWith 10 (L.map intoBytes)
  | [] => rfl
  | [l] => rfl
  | l :: m :: t => by
    rw [joinWith, intoBytes_append, intoBytes_cons, intoBytes_joinWith (m :: t)]
    rfl

theorem intoBytes_getLast? {l : Text} {c : Char} {b : UInt8} (hc : String.utf8EncodeChar c = [b]) (hb : b < 0x80) :
    (intoBytes l).getLast? = some b ↔ l.getLast? = some c := by
  constructor
  · intro h
    obtain ⟨a, ha⟩ := List.getLast?_eq_some_iff.1 h
    have hl := fromUtf8Lossy_intoBytes l
    rw [ha, fromUtf8Lossy_append hb] at hl
    have hc' : fromUtf8Lossy (intoBytes [c]) = [c] := fromUtf8Lossy_intoBytes [c]
    have hbc : fromUtf8Lossy ([] ++ b :: []) = fromUtf8Lossy [] ++ Char.ofNat b.toNat :: fromUtf8Lossy [] :=
      fromUtf8Lossy_append hb [] []
    rw [intoBytes_cons, hc] at hc'
    rw [← hl]
    have : [c] = [Char.ofNat b.toNat] := hc'.symm.trans hbc
    rw [List.cons.inj this |>.1]
    exact List.getLast?_concat
  · intro h
    obtain ⟨a, rfl⟩ := List.getLast?_eq_some_iff.1 h
    rw [intoBytes_append, intoBytes_cons, hc]
    exact List.getLast?_concat

theorem newline_not_mem_intoBytes {l : Text} (h : '\n' ∉ l) : (10 : UInt8) ∉ intoBytes l :=
  not_mem_intoBytes (by decide) (by decide) h

theorem joinLines_eq (hadNewline : Bool) (L : List Text) : joinLines hadNewline L =
    if hadNewline && !endsWithNewline (joinWith 10 (L.map intoBytes)) then joinWith 10 (L.map intoBytes) ++ [10]
    else joinWith 10 (L.map intoBytes) := by
  unfold joinLines
  dsimp only
  rw [intercalate_eq_joinWith, intoBytes_joinWith]

theorem endsWithNewline_iff {b : Bytes} : endsWithNewline b = true ↔ b.getLast? = some 10 := by
  unfold endsWithNewline
  exact beq_iff_eq

/-- Joined lines end with a newline only after a blank last line, and one line alone does not. -/
theorem endsWithNewline_joinWith {last : Text} (hlast : '\n' ∉ last) (L : List Text) :
    endsWithNewline (joinWith 10 ((L ++ [last]).map intoBytes)) = decide (L ≠ [] ∧ last = []) := by
  rw [Bool.eq_iff_iff, endsWithNewline_iff, List.map_append, List.map_singleton, joinWith_concat, decide_eq_true_iff]
  by_cases h : last = []
  · subst h
    rw [intoBytes_nil, List.append_nil]
    rcases List.eq_nil_or_concat L with rfl | ⟨t, l, rfl⟩
    · simp
    · simp
  · rw [List.getLast?_append_of_ne_nil _ (by rwa [ne_eq, intoBytes_eq_nil])]
    simp only [h, and_false, iff_false]
    exact fun hm => newline_not_mem_intoBytes hlast (List.mem_of_getLast? hm)

theorem pieces_joinLines_nil (hadNewline : Bool) :
    pieces 10 (joinLines hadNewline []) = if hadNewline = true then [([], true)] else [] := by
  cases hadNewline <;> rfl

/-- The bytes of some lines: a blank last line is there only when it is alone and a side ended with a newline. -/
theorem pieces_joinLines (hadNewline : Bool) {L : List Text} {last : Text} (hL : ∀ l ∈ L, '\n' ∉ l) (hlast : '\n' ∉ last) :
    pieces 10 (joinLines hadNewline (L ++ [last])) = L.map (fun l => (intoBytes l, true)) ++
      if last = [] then (if L = [] ∧ hadNewline = true then [([], true)] else []) else [(intoBytes last, hadNewline)] := by
  have hbytes : ∀ l ∈ L.map intoBytes, (10 : UInt8) ∉ l := fun b hb => by
    obtain ⟨l, hl, rfl⟩ := List.mem_map.1 hb
    exact newline_not_mem_intoBytes (hL l hl)
  have hlast' := newline_not_mem_intoBytes hlast
  have hall : ∀ l ∈ (L ++ [last]).map intoBytes, (10 : UInt8) ∉ l := fun b hb => by
    rw [List.map_append, List.map_singleton, List.mem_append, List.mem_singleton] at hb
    rcases hb with hb | rfl
    · exact hbytes b hb
    · exact hlast'
  have hopen : pieces 10 (joinWith 10 ((L ++ [last]).map intoBytes)) =
      L.map (fun l => (intoBytes l, true)) ++ if last = [] then [] else [(intoBytes last, false)] := by
    rw [List.map_append, List.map_singleton, pieces_joinWith _ hlast' hbytes, List.map_map]
    simp only [intoBytes_eq_nil]
    rfl
  have hended : pieces 10 (joinWith 10 ((L ++ [last]).map intoBytes) ++ [10]) =
      L.map (fun l => (intoBytes l, true)) ++ [(intoBytes last, true)] := by
    rw [pieces_joinWith_end (by simp) hall]
    simp
  rw [joinLines_eq, endsWithNewline_joinWith hlast]
  cases hadNewline with
  | false =>
    rw [Bool.false_and, if_neg Bool.false_ne_true, hopen]
    simp
  | true =>
    by_cases h : last = []
    · by_cases hn : L = []
      · rw [if_pos (by simp [hn]), hended]
        simp [h, hn]
      · rw [if_neg (by simp [h, hn]), hopen]
        simp [h, hn]
    · rw [if_pos (by simp [h]), hended]
      simp [h]

/-- Lines that are read back as they are from the bytes they are joined to. -/
def ReadsBack (hadNewline : Bool) (L : List Text) : Prop :=
  (L = [] → hadNewline = false) ∧ (∀ l ∈ L.dropLast, l.getLast? ≠ some '\r') ∧
    ∀ last ∈ L.getLast?, (last = [] → L.length = 1 ∧ hadNewline = true) ∧
      (hadNewline = true → last.getLast? ≠ some '\r')

/-- **Which lines survive being joined.** -/
theorem splitLines_joinLines (hadNewline : Bool) {L : List Text} (hL : ∀ l ∈ L, '\n' ∉ l) :
    splitLines (joinLines hadNewline L) = L ↔ ReadsBack hadNewline L := by
  have hread : ∀ m : Bytes, splitLines m = (pieces 10 m).map (fun p => lineOf (fromUtf8Lossy p.1, p.2)) := fun m => by
    rw [splitLines_eq, rawLines, List.map_map]
    exact List.map_congr_left fun p _ => fromUtf8Lossy_rawLineOf p
  rw [hread]
  unfold ReadsBack
  rcases List.eq_nil_or_concat L with rfl | ⟨t, last, rfl⟩
  · rw [pieces_joinLines_nil]
    cases hadNewline <;> simp
  · rw [List.concat_eq_append] at *
    have ht : ∀ l ∈ t, '\n' ∉ l := fun l hl => hL l (List.mem_append_left _ hl)
    have hlast : '\n' ∉ last := hL last (by simp)
    rw [pieces_joinLines hadNewline ht hlast, List.map_append, List.map_map]
    have hinit : t.map ((fun p => lineOf (fromUtf8Lossy p.1, p.2)) ∘ fun l => (intoBytes l, true)) = t ↔
        ∀ l ∈ t, l.getLast? ≠ some '\r' := by
      have hid : t.map ((fun p => lineOf (fromUtf8Lossy p.1, p.2)) ∘ fun l => (intoBytes l, true)) =
          t.map (fun l => lineOf (l, true)) := List.map_congr_left fun l _ => by simp
      rw [hid]
      constructor
      · intro h l hl
        obtain ⟨i, hi, rfl⟩ := List.getElem_of_mem hl
        have := congrArg (fun x => x[i]?) h
        simp only [List.getElem?_map, List.getElem?_eq_getElem hi, Option.map_some, Option.some.injEq] at this
        exact lineOf_true_eq.1 this
      · intro h
        conv => rhs; rw [← List.map_id t]
        exact List.map_congr_left fun l hl => lineOf_true_eq.2 (h l hl)
    have htail : (if last = [] then (if t = [] ∧ hadNewline = true then [([], true)] else []) else
        [(intoBytes last, hadNewline)]).map (fun p => lineOf (fromUtf8Lossy p.1, p.2)) = [last] ↔
        (last = [] → (t ++ [last]).length = 1 ∧ hadNewline = true) ∧ (hadNewline = true → last.getLast? ≠ some '\r') := by
      by_cases h : last = []
      · subst h
        by_cases hn : t = [] ∧ hadNewline = true
        · simp [hn, lineOf, fromUtf8Lossy, utf8Decode]
        · simp [hn]
      · cases hadNewline with
        | false => simp [h, lineOf]
        | true => simp [h, lineOf_true_eq]
    rw [List.dropLast_concat, List.getLast?_concat]
    constructor
    · intro h
      obtain ⟨h1, h2⟩ := List.append_inj h (by simp)
      refine ⟨by simp, hinit.1 h1, fun x hx => ?_⟩
      cases hx
      exact htail.1 h2
    · rintro ⟨-, h1, h2⟩
      rw [hinit.2 h1, htail.2 (h2 last rfl)]

/-! ## The lines of a merge -/

theorem Sides.unlikeEdits {len : Nat} {hh wh : List Hunk} (hs : Sides len hh wh) (hno : hunksOverlap hh wh = false) :
    Edit.Unlike ((hh ++ wh).map Hunk.edit) := by
  refine List.pairwise_map.2 (List.pairwise_append.2 ⟨?_, ?_, fun a ha b hb he => hs.unlike hno ha hb he⟩)
  · refine hs.headApart.imp_of_mem fun {a b} ha _ hab he => ?_
    have he : a.baseStart = b.baseStart := he
    have := (hs.head a ha).1
    omega
  · refine hs.wsApart.imp_of_mem fun {a b} ha _ hab he => ?_
    have he : a.baseStart = b.baseStart := he
    have := (hs.ws a ha).1
    omega

/-- Every hunk of either side applied to the base at once. -/
def mergedLines (base : List Text) (headHunks wsHunks : List Hunk) : List Text :=
  Edit.simultaneous base ((headHunks ++ wsHunks).map Hunk.edit)

section Merged

variable {base : List Text} {hh wh : List Hunk} (hs : Sides base.length hh wh) (hno : hunksOverlap hh wh = false)
include hs hno

theorem Sides.mergedLines_swap : mergedLines base hh wh = mergedLines base wh hh :=
  Edit.simultaneous_perm (hs.unlikeEdits hno) (List.perm_append_comm.map _)

/-- **The loop of `apply_two_hunk_sets` applies all hunks at once.** -/
theorem Sides.splice_eq (hin : Edit.InRange base.length 0 ((sortedHunks hh wh).map Hunk.edit)) :
    Edit.splice base 0 ((sortedHunks hh wh).map Hunk.edit) = some (mergedLines base hh wh) := by
  rw [Edit.splice_eq_simultaneous hs.within hin]
  have hperm : (hh ++ wh).Perm (sortedHunks hh wh) := (List.perm_insertionSort _ _).symm
  exact congrArg some (Edit.simultaneous_perm (hs.unlikeEdits hno) (hperm.map _)).symm

theorem Sides.apply_eq {headRaw wsRaw : Bytes} (h1 : hh ≠ []) (h2 : wh ≠ []) (hap : InsertionsApart hh wh) :
    applyTwoHunkSets base headRaw wsRaw hh wh =
      some (joinLines (endsWithNewline headRaw || endsWithNewline wsRaw) (mergedLines base hh wh)) := by
  rw [applyTwoHunkSets_eq h1 h2, hs.splice_eq hno ((hs.inRange_iff hno).2 hap), Option.map_some]

theorem Sides.apply_of_some {headRaw wsRaw out : Bytes} (h1 : hh ≠ []) (h2 : wh ≠ [])
    (h : applyTwoHunkSets base headRaw wsRaw hh wh = some out) : InsertionsApart hh wh ∧
      out = joinLines (endsWithNewline headRaw || endsWithNewline wsRaw) (mergedLines base hh wh) := by
  have hap : InsertionsApart hh wh :=
    (hs.inRange_iff hno).1 ((@isSome_applyTwoHunkSets _ headRaw wsRaw _ _ h1 h2).1 (by rw [h]; rfl))
  rw [hs.apply_eq hno h1 h2 hap] at h
  exact ⟨hap, (Option.some.inj h).symm⟩

end Merged

theorem Sides.swap {len : Nat} {hh wh : List Hunk} (hs : Sides len hh wh) : Sides len wh hh :=
  ⟨hs.ws, hs.head, hs.wsApart, hs.headApart⟩

theorem hunksOverlap_swap {hh wh : List Hunk} (h : hunksOverlap hh wh = false) : hunksOverlap wh hh = false := by
  refine hunksOverlap_eq_false.2 fun x hx y hy => hunkOverlaps_eq_false.2 ?_
  obtain ⟨h1, h2⟩ := hunkOverlaps_eq_false.1 (hunksOverlap_eq_false.1 h y hy x hx)
  exact ⟨fun ha hb hab => h1 hb ha hab.symm, fun ha hb hab => (h2 hb ha hab.symm).symm⟩

/-- HEAD inserts nothing where a range that the workspace replaces starts. -/
def NoInsertionAtStart (headHunks wsHunks : List Hunk) : Prop :=
  ∀ h ∈ headHunks, ∀ w ∈ wsHunks, h.baseStart = h.baseEnd → w.baseStart < w.baseEnd → h.baseStart ≠ w.baseStart

theorem insertionsApart_swap {hh wh : List Hunk} (h : InsertionsApart hh wh) :
    InsertionsApart wh hh ↔ NoInsertionAtStart hh wh := by
  constructor
  · intro hsw x hx y hy hins hrep he
    exact (hsw y hy x hx).2 hins ⟨by omega, by omega⟩
  · intro hno y hy x hx
    obtain ⟨h1, h2⟩ := h x hx y hy
    refine ⟨fun hins hin => h2 hins ⟨by omega, hin.2⟩, fun hins hin => ?_⟩
    have := hno x hx y hy hins (by omega)
    exact h1 hins ⟨by omega, hin.2⟩

section Level1

variable (base head ws : Bytes)

/-- The line list of a level-1 merge: both sides' hunks applied to the base at once. -/
def merged : List Text :=
  mergedLines (splitLines base) (computeHunks (splitLines base) (splitLines head))
    (computeHunks (splitLines base) (splitLines ws))

theorem newline_not_mem_merged : ∀ l ∈ merged base head ws, '\n' ∉ l := by
  intro l hl
  unfold merged mergedLines at hl
  rcases Edit.mem_simultaneous hl with h | ⟨e, he, h⟩
  · exact not_mem_of_mem_splitLines h
  · obtain ⟨x, hx, rfl⟩ := List.mem_map.1 he
    rcases List.mem_append.1 hx with hx | hx
    · exact not_mem_of_mem_splitLines (mem_of_mem_newLines hx l h)
    · exact not_mem_of_mem_splitLines (mem_of_mem_newLines hx l h)

/-- **When a level-1 merge is read back as the simultaneous application of both sides' hunks, whichever side comes
first**: the lines survive being joined, and HEAD inserts nothing where the workspace replaces. -/
theorem level1_simultaneous_iff {out : Bytes}
    (hhead : computeHunks (splitLines base) (splitLines head) ≠ [])
    (hws : computeHunks (splitLines base) (splitLines ws) ≠ [])
    (hno : hunksOverlap (computeHunks (splitLines base) (splitLines head))
      (computeHunks (splitLines base) (splitLines ws)) = false)
    (hout : applyTwoHunkSets (splitLines base) head ws (computeHunks (splitLines base) (splitLines head))
      (computeHunks (splitLines base) (splitLines ws)) = some out) :
    (splitLines out = merged base head ws ∧
      ∃ out', applyTwoHunkSets (splitLines base) ws head (computeHunks (splitLines base) (splitLines ws))
        (computeHunks (splitLines base) (splitLines head)) = some out' ∧ splitLines out' = splitLines out) ↔
    ReadsBack (endsWithNewline head || endsWithNewline ws) (merged base head ws) ∧
      NoInsertionAtStart (computeHunks (splitLines base) (splitLines head))
        (computeHunks (splitLines base) (splitLines ws)) := by
  have hs := sides_computeHunks (splitLines base) (splitLines head) (splitLines ws)
  obtain ⟨hap, hjoin⟩ := hs.apply_of_some hno hhead hws hout
  have hread := splitLines_joinLines (endsWithNewline head || endsWithNewline ws) (newline_not_mem_merged base head ws)
  rw [← insertionsApart_swap hap, ← hread]
  constructor
  · rintro ⟨hlines, out', hout', -⟩
    rw [hjoin] at hlines
    exact ⟨hlines, (hs.swap.apply_of_some (hunksOverlap_swap hno) hws hhead hout').1⟩
  · rintro ⟨hlines, hap'⟩
    refine ⟨by rw [hjoin]; exact hlines, out, ?_, rfl⟩
    rw [hs.swap.apply_eq (hunksOverlap_swap hno) hws hhead hap', hjoin, hs.mergedLines_swap hno, Bool.or_comm]

end Level1

/-- The base ends with a blank line, HEAD changes the first line and the workspace the second: the blank line is lost. -/
theorem blank_last_line_lost :
    (tryMergeFile Env.plain 0 "f.txt".toList (intoBytes "a\nb\n\n".toList) (intoBytes "A\nb\n\n".toList)
      (intoBytes "a\nB\n\n".toList) 0).bind FileMergeResult.merged = some (intoBytes "A\nB\n".toList) ∧
    splitLines (intoBytes "A\nB\n".toList) ≠
      merged (intoBytes "a\nb\n\n".toList) (intoBytes "A\nb\n\n".toList) (intoBytes "a\nB\n\n".toList) := by
  decide +kernel

theorem level1_simultaneous_iff_ends :
    (splitLines (intoBytes "A\nb\nC\n".toList) =
        merged threeLines (intoBytes "A\nb\nc\n".toList) (intoBytes "a\nb\nC\n".toList) ∧
      ∃ out', applyTwoHunkSets (splitLines threeLines) (intoBytes "a\nb\nC\n".toList) (intoBytes "A\nb\nc\n".toList)
        (computeHunks (splitLines threeLines) (splitLines (intoBytes "a\nb\nC\n".toList)))
        (computeHunks (splitLines threeLines) (splitLines (intoBytes "A\nb\nc\n".toList))) = some out' ∧
        splitLines out' = splitLines (intoBytes "A\nb\nC\n".toList)) ↔
    ReadsBack (endsWithNewline (intoBytes "A\nb\nc\n".toList) || endsWithNewline (intoBytes "a\nb\nC\n".toList))
        (merged threeLines (intoBytes "A\nb\nc\n".toList) (intoBytes "a\nb\nC\n".toList)) ∧
      NoInsertionAtStart (computeHunks (splitLines threeLines) (splitLines (intoBytes "A\nb\nc\n".toList)))
        (computeHunks (splitLines threeLines) (splitLines (intoBytes "a\nb\nC\n".toList))) :=
  level1_simultaneous_iff threeLines (intoBytes "A\nb\nc\n".toList) (intoBytes "a\nb\nC\n".toList) (by decide +kernel)
    (by decide +kernel) (by decide +kernel) (by decide +kernel)

/-! ## Identity -/

theorem mergeEntities_level {env : Env} {n : Nat} {p : Path} {base head ws m : Bytes} {w : Uuid} {l : Nat}
    {bs hs ss : List Entity} (h : mergeEntities env n p base head ws w bs hs ss = some (.autoMerged m l)) : l = 2 := by
  unfold mergeEntities at h
  dsimp only at h
  split at h
  · split at h <;> simp_all
  · simp at h

theorem hunksOverlap_of_level1 {env : Env} {n : Nat} {p : Path} {base head ws m : Bytes} {w : Uuid}
    (h : tryMergeFile env n p base head ws w = some (.autoMerged m 1)) :
    hunksOverlap (computeHunks (splitLines base) (splitLines head))
      (computeHunks (splitLines base) (splitLines ws)) = false := by
  by_contra hov
  rw [Bool.not_eq_false] at hov
  unfold tryMergeFile at h
  dsimp only at h
  rw [hov, Bool.not_true, if_neg Bool.false_ne_true] at h
  split at h
  · split at h
    · exact absurd (mergeEntities_level h) (by decide)
    · cases h
  · cases h

theorem hunksOverlap_nil_left (wh : List Hunk) : hunksOverlap [] wh = false := rfl

theorem hunksOverlap_nil_right (hh : List Hunk) : hunksOverlap hh [] = false := hunksOverlap_swap (hunksOverlap_nil_left hh)

theorem tryMergeFile_head_unchanged (env : Env) (n : Nat) (p : Path) {base head : Bytes} (ws : Bytes) (w : Uuid)
    (h : splitLines head = splitLines base) : tryMergeFile env n p base head ws w = some (.autoMerged ws 1) := by
  have hnil : computeHunks (splitLines base) (splitLines head) = [] := computeHunks_eq_nil.2 h
  rw [tryMergeFile_level1 env n p w (by rw [hnil]; rfl), hnil]
  rfl

theorem tryMergeFile_ws_unchanged (env : Env) (n : Nat) (p : Path) {base head ws : Bytes} (w : Uuid)
    (hhead : splitLines head ≠ splitLines base) (h : splitLines ws = splitLines base) :
    tryMergeFile env n p base head ws w = some (.autoMerged head 1) := by
  have hnil : computeHunks (splitLines base) (splitLines ws) = [] := computeHunks_eq_nil.2 h
  have hne : computeHunks (splitLines base) (splitLines head) ≠ [] := fun hn => hhead (computeHunks_eq_nil.1 hn)
  rw [tryMergeFile_level1 env n p w (by rw [hnil, hunksOverlap_nil_right]), hnil]
  unfold applyTwoHunkSets
  rw [if_neg (by simpa [List.isEmpty_iff] using hne)]
  rfl

theorem tryMergeFile_both {env : Env} {n : Nat} {p : Path} {base head ws m : Bytes} {w : Uuid}
    (hhead : splitLines head ≠ splitLines base) (hws : splitLines ws ≠ splitLines base)
    (h : tryMergeFile env n p base head ws w = some (.autoMerged m 1)) :
    InsertionsApart (computeHunks (splitLines base) (splitLines head)) (computeHunks (splitLines base) (splitLines ws)) ∧
      m = joinLines (endsWithNewline head || endsWithNewline ws) (merged base head ws) := by
  have hno := hunksOverlap_of_level1 h
  rw [tryMergeFile_level1 env n p w hno] at h
  obtain ⟨out, hout, he⟩ := Option.map_eq_some_iff.1 h
  cases he
  exact (sides_computeHunks _ _ _).apply_of_some hno (fun hn => hhead (computeHunks_eq_nil.1 hn))
    (fun hn => hws (computeHunks_eq_nil.1 hn)) hout

/-- **The merged lines with the base's are, up to order, HEAD's lines with the workspace's.** -/
theorem count_merged {base head ws : Bytes} (hno : hunksOverlap (computeHunks (splitLines base) (splitLines head))
      (computeHunks (splitLines base) (splitLines ws)) = false)
    (hap : InsertionsApart (computeHunks (splitLines base) (splitLines head))
      (computeHunks (splitLines base) (splitLines ws))) (x : Text) :
    (merged base head ws).count x + (splitLines base).count x = (splitLines head).count x + (splitLines ws).count x := by
  have hs := sides_computeHunks (splitLines base) (splitLines head) (splitLines ws)
  have hboth := Edit.count_splice x hs.within (hs.splice_eq hno ((hs.inRange_iff hno).2 hap))
  have hone : ∀ side : Bytes, (splitLines side).count x + (Edit.removed (splitLines base)
      ((computeHunks (splitLines base) (splitLines side)).map Hunk.edit)).count x = (splitLines base).count x +
      (Edit.added ((computeHunks (splitLines base) (splitLines side)).map Hunk.edit)).count x := fun side =>
    Edit.count_splice x (fun e he => by
      obtain ⟨h, hh, rfl⟩ := List.mem_map.1 he
      exact ⟨(mem_computeHunks hh).1, (mem_computeHunks hh).2.1⟩) (splice_computeHunks (splitLines base) (splitLines side))
  have h1 := hone head
  have h2 := hone ws
  have hperm : ((sortedHunks (computeHunks (splitLines base) (splitLines head))
      (computeHunks (splitLines base) (splitLines ws))).map Hunk.edit).Perm
      ((computeHunks (splitLines base) (splitLines head)).map Hunk.edit ++
        (computeHunks (splitLines base) (splitLines ws)).map Hunk.edit) := by
    rw [← List.map_append]
    exact (List.perm_insertionSort _ _).map _
  unfold Edit.removed Edit.added at hboth h1 h2
  rw [(hperm.flatMap_right _).count_eq, (hperm.flatMap_right _).count_eq, List.flatMap_append, List.flatMap_append,
    List.count_append, List.count_append, List.drop_zero] at hboth
  unfold merged
  omega

/-- **Three-way identity.**  A merge whose HEAD is the base gives the workspace; one whose workspace is the base gives
HEAD, when HEAD changed a line or nothing at all; and when both sides changed lines, and the merged lines survive being
joined, the result is one side's only if the other side's lines are the base's in another order. -/
theorem level1_identity (env : Env) (n : Nat) (p : Path) (base head ws : Bytes) (w : Uuid) :
    tryMergeFile env n p base base ws w = some (.autoMerged ws 1) ∧
    (head = base ∨ splitLines head ≠ splitLines base →
      tryMergeFile env n p base head base w = some (.autoMerged head 1)) ∧
    (splitLines head ≠ splitLines base → splitLines ws ≠ splitLines base →
      ReadsBack (endsWithNewline head || endsWithNewline ws) (merged base head ws) →
      ∀ m, tryMergeFile env n p base head ws w = some (.autoMerged m 1) →
        (m = head → (splitLines ws).Perm (splitLines base)) ∧ (m = ws → (splitLines head).Perm (splitLines base))) := by
  refine ⟨tryMergeFile_head_unchanged env n p ws w rfl, ?_, ?_⟩
  · rintro (rfl | hne)
    · exact tryMergeFile_head_unchanged env n p head w rfl
    · exact tryMergeFile_ws_unchanged env n p w hne rfl
  · intro hhead hws hread m hm
    obtain ⟨hap, hjoin⟩ := tryMergeFile_both hhead hws hm
    have hcount := count_merged (hunksOverlap_of_level1 hm) hap
    have hlines : splitLines m = merged base head ws := by
      rw [hjoin]
      exact (splitLines_joinLines _ (newline_not_mem_merged base head ws)).2 hread
    constructor
    · rintro rfl
      refine List.perm_iff_count.2 fun x => ?_
      have := hcount x
      rw [← hlines] at this
      omega
    · rintro rfl
      refine List.perm_iff_count.2 fun x => ?_
      have := hcount x
      rw [← hlines] at this
      omega

/-- HEAD takes the last newline away and the workspace changes nothing: HEAD's change is dropped.  And the workspace
moves the first of two lines while HEAD makes the second like it: the result is HEAD's. -/
theorem one_side_dropped :
    (tryMergeFile Env.plain 0 "f.txt".toList (intoBytes "a\n".toList) (intoBytes "a".toList)
      (intoBytes "a\n".toList) 0).bind FileMergeResult.merged = some (intoBytes "a\n".toList) ∧
    (tryMergeFile Env.plain 0 "f.txt".toList (intoBytes "a\nb\n".toList) (intoBytes "a\na\n".toList)
      (intoBytes "b\na\n".toList) 0).bind FileMergeResult.merged = some (intoBytes "a\na\n".toList) := by
  decide +kernel

theorem level1_identity_ends :
    (intoBytes "A\nb\nC\n".toList = intoBytes "A\nb\nc\n".toList →
      (splitLines (intoBytes "a\nb\nC\n".toList)).Perm (splitLines threeLines)) ∧
    (intoBytes "A\nb\nC\n".toList = intoBytes "a\nb\nC\n".toList →
      (splitLines (intoBytes "A\nb\nc\n".toList)).Perm (splitLines threeLines)) :=
  (level1_identity Env.plain 0 "f.txt".toList threeLines (intoBytes "A\nb\nc\n".toList)
    (intoBytes "a\nb\nC\n".toList) 0).2.2 (by decide +kernel) (by decide +kernel)
    ⟨by decide +kernel, by decide +kernel, by decide +kernel⟩ (intoBytes "A\nb\nC\n".toList) (by decide +kernel)

end Merge
end Vai
