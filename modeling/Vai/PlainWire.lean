import Vai.Push
/-!
# PlainWire — names that reach the server

A file of a working tree goes through an archiver, which writes its names with slashes between them, and through
`extract_snapshot_tarball`, which checks and normalises the path again.  A path of ordinary names without backslashes
comes out as it was (`serverPath_joinNames`), and no other file gets its path (`get_serverFiles`).
-/
namespace Vai
namespace Remote

open Proc Backend FilePath LocalFs Handlers

variable {wire : Wire}

/-- What `tar` does to a path: names between slashes are read back as they were written. -/
def Wire.KeepsPlain (wire : Wire) : Prop :=
  ∀ names, (∀ c ∈ names, isName c = true) → wire.entryPath (joinNames names) = joinNames names

theorem backslash_not_mem_slashes (s : Text) : '\\' ∉ slashes s := by
  intro h
  obtain ⟨c, -, hc⟩ := List.mem_map.1 h
  split at hc
  · exact absurd hc (by decide)
  · rename_i hne
    exact hne hc

theorem trimDotSlash_of_not_prefix : ∀ {s : Text}, ¬ ['.', '/'] <+: s → trimDotSlash s = s := by
  intro s h
  unfold trimDotSlash
  split
  · exact absurd (by simp) h
  · rfl

/-- A path of names does not start with `./`. -/
theorem trimDotSlash_joinNames {names : List Name} (h : ∀ c ∈ names, isName c = true) :
    trimDotSlash (joinNames names) = joinNames names := by
  refine trimDotSlash_of_not_prefix fun hpre => ?_
  have hcs := components_joinNames h
  obtain ⟨s, hs⟩ := hpre
  cases names with
  | nil => cases hs
  | cons c names =>
    obtain ⟨hne, hslash, hdot, -⟩ := isName_iff.1 (h c List.mem_cons_self)
    have hc : ∀ rest, joinNames (c :: names) = c ++ rest → c = dot := by
      intro rest hrest
      rw [hrest] at hs
      match c, hne, hslash with
      | [x], _, _ =>
        have hx : '.' = x := (List.cons.inj hs).1
        rw [← hx]
        rfl
      | x :: y :: c, _, hslash =>
        have hy : '/' = y := (List.cons.inj (List.cons.inj hs).2).1
        rw [← hy] at hslash
        exact absurd (by simp) hslash
    cases names with
    | nil => exact hdot (hc [] (by simp [joinNames]))
    | cons d names => exact hdot (hc ('/' :: joinNames (d :: names)) (by simp [joinNames, List.intercalate_cons_cons]))

theorem sanitizePath_joinNames {names : List Name} (h : ∀ c ∈ names, isName c = true) (hnul : '\x00' ∉ joinNames names) :
    sanitizePath (joinNames names) = some (joinNames names) := by
  have htrim : Text.trimStartMatches '/' (joinNames names) = joinNames names := by
    have hhead := isAbsolute_joinNames h
    unfold isAbsolute at hhead
    rw [decide_eq_false_iff_not] at hhead
    cases hj : joinNames names with
    | nil => rfl
    | cons x s =>
      rw [hj] at hhead
      have hx : x ≠ '/' := fun he => hhead (by rw [he]; rfl)
      simp [Text.trimStartMatches, hx]
  have hdots : "..".toList ∉ (joinNames names).splitOn '/' := by
    intro hmem
    have hcs := components_joinNames h
    have hdot : "..".toList ∈ components (joinNames names) :=
      List.mem_filter.2 ⟨hmem, by decide⟩
    rw [hcs] at hdot
    exact (isName_iff.1 (h _ hdot)).2.2.2 rfl
  unfold sanitizePath
  rw [if_neg hnul, htrim]
  exact if_neg hdots

theorem serverPath_joinNames (hkeeps : wire.KeepsPlain) {names : List Name} (h : ∀ c ∈ names, isName c = true)
    (hback : '\\' ∉ joinNames names) (hnul : '\x00' ∉ joinNames names) :
    wire.serverPath (slashed (joinNames names)) = some (joinNames names) := by
  unfold Wire.serverPath
  rw [slashed_of_not_mem hback, hkeeps names h, trimDotSlash_joinNames h, sanitizePath_joinNames h hnul]
  exact congrArg some (slashed_of_not_mem hback)

theorem joinNames_eq_nil {names : List Name} (h : ∀ c ∈ names, isName c = true) : joinNames names = [] ↔ names = [] := by
  constructor
  · intro he
    rw [← components_joinNames h, he]
    rfl
  · exact fun he => he ▸ rfl

/-! ## A walk -/

/-- The files below `base` that a walk takes, by the paths it writes. -/
def walkFiles (takes : List Name → Bool) (base : List Name) (t : Tree) : List (Text × Bytes) :=
  ((filesBelow base t).filter (fun q => takes q.1)).map (fun q => (slashed (joinNames q.1), q.2))

variable {takes : List Name → Bool} {base : List Name} {t : Tree}

theorem mem_walkFiles {f : Text × Bytes} : f ∈ walkFiles takes base t ↔
    ∃ rel, t.file (base ++ rel) = some f.2 ∧ takes rel = true ∧ slashed (joinNames rel) = f.1 := by
  unfold walkFiles
  constructor
  · intro h
    obtain ⟨q, hq, rfl⟩ := List.mem_map.1 h
    obtain ⟨hmem, htakes⟩ := List.mem_filter.1 hq
    exact ⟨q.1, mem_filesBelow.1 hmem, htakes, rfl⟩
  · rintro ⟨rel, hfile, htakes, hpath⟩
    exact List.mem_map.2 ⟨(rel, f.2), List.mem_filter.2 ⟨mem_filesBelow.2 hfile, htakes⟩, Prod.ext hpath rfl⟩

/-- Every file that the walk takes has a path without backslashes and NUL characters. -/
def Carried (takes : List Name → Bool) (base : List Name) (t : Tree) : Prop :=
  ∀ rel c, t.file (base ++ rel) = some c → takes rel = true → '\\' ∉ joinNames rel ∧ '\x00' ∉ joinNames rel

theorem serverFile_eq_some {f : Text × Bytes} {p : Path} {c : Bytes} :
    wire.serverFile f = some (p, c) ↔ wire.serverPath f.1 = some p ∧ p ≠ [] ∧ f.2 = c := by
  unfold Wire.serverFile
  cases wire.serverPath f.1 with
  | none => simp
  | some q =>
    dsimp only
    split
    · rename_i hq
      constructor
      · exact fun h => (nomatch h)
      · rintro ⟨hqp, hne, -⟩
        exact absurd ((Option.some.inj hqp).symm.trans hq) hne
    · rename_i hq
      constructor
      · intro h
        cases h
        exact ⟨rfl, hq, rfl⟩
      · rintro ⟨hqp, -, hc⟩
        rw [Option.some.inj hqp, hc]

/-- **The server has the files of such a walk by their own paths.** -/
theorem get_serverFiles (hkeeps : wire.KeepsPlain) (hcarried : Carried takes base t) (p : Path) :
    (wire.serverFiles (walkFiles takes base t)).get p =
      if isPlain p = true ∧ takes (components p) = true then t.file (base ++ components p) else none := by
  refine FMap.get_ofList_of_mem_iff
    (f := fun p => if isPlain p = true ∧ takes (components p) = true then t.file (base ++ components p) else none) ?_ p
  intro p c
  have hpath : ∀ rel c, t.file (base ++ rel) = some c → takes rel = true →
      wire.serverPath (slashed (joinNames rel)) = some (joinNames rel) := fun rel c hfile htakes =>
    serverPath_joinNames hkeeps (Tree.isName_of_file hfile) (hcarried rel c hfile htakes).1 (hcarried rel c hfile htakes).2
  rw [List.mem_filterMap]
  constructor
  · rintro ⟨f, hf, hserver⟩
    obtain ⟨rel, hfile, htakes, hrel⟩ := mem_walkFiles.1 hf
    obtain ⟨hsome, hne, hc⟩ := serverFile_eq_some.1 hserver
    rw [← hrel, hpath rel _ hfile htakes] at hsome
    have hnames := Tree.isName_of_file hfile
    obtain rfl : joinNames rel = p := Option.some.inj hsome
    have hrelne : rel ≠ [] := fun he => hne ((joinNames_eq_nil hnames).2 he)
    rw [components_joinNames hnames, if_pos ⟨isPlain_joinNames hnames hrelne, htakes⟩, hfile, hc]
  · intro h
    split at h
    · rename_i hp
      have hjoin := (isPlain_iff.1 hp.1).1
      refine ⟨(slashed p, c), mem_walkFiles.2 ⟨components p, h, hp.2, by rw [← hjoin]⟩, serverFile_eq_some.2 ⟨?_, ?_, rfl⟩⟩
      · have := hpath _ _ h hp.2
        rw [← hjoin] at this
        exact this
      · intro he
        rw [he] at hp
        exact absurd hp.1 (by decide)
    · cases h

end Remote
end Vai
