import Vai.LocalFs
/-!
# LocalPlain — the calls at plain paths

At a path that is spelled as the names it goes through, the calls of `LocalFs` fail for what is in their way and for
nothing else: `install` for a file above the path or a directory at it (`install_ok_iff`), `discard` for a directory at
it (`discard_ok_iff`).

A run of such calls is followed by what it has written so far (`Filled`) and removed so far (`Emptied`): as long as no
path lies above another one, a file is in nobody's way, and every call succeeds just when it would have succeeded first.
-/
namespace Vai
namespace LocalFs

open Proc FilePath

/-- A plain path whose names have no NUL characters. -/
def isFilePath (path : Text) : Bool := isPlain path && (components path).all (fun c => '\x00' ∉ c)

/-- Nothing is in the way of a file: no file above it and no directory at its place. -/
structure Clear (root : List Name) (t : Tree) (path : Text) : Prop where
  above : ∀ a, a <+: components path → a ≠ components path → t.file (root ++ a) = none
  place : t.get (root ++ components path) ≠ some .dir

variable {root : List Name} {path : Text} {s s' : Local} {t : Tree}

/-! ## Trees -/

theorem Tree.file_of_dir {p : List Name} (h : t.get p = some .dir) : t.file p = none := by
  unfold Tree.file
  rw [h]

theorem Tree.dir_above {p : List Name} : ∀ (a : List Name), a ≠ [] → (t.get (p ++ a)).isSome → t.get p = some .dir := by
  intro a
  induction a using List.reverseRecOn with
  | nil => exact fun h => absurd rfl h
  | append_singleton a c ih =>
    intro _ hsome
    have hparent := t.closed (p ++ (a ++ [c])) (by simp) hsome
    rw [← List.append_assoc, List.dropLast_concat] at hparent
    by_cases ha : a = []
    · rw [ha, List.append_nil] at hparent
      exact hparent
    · exact ih ha (by rw [show t.get (p ++ a) = _ from hparent]; rfl)

theorem Tree.dir_of_prefix {p q : List Name} (h : p <+: q) (hne : p ≠ q) (hq : (t.get q).isSome) : t.get p = some .dir := by
  obtain ⟨a, rfl⟩ := h
  refine t.dir_above a (fun ha => hne ?_) hq
  rw [ha, List.append_nil]

theorem prefix_dropLast {a b : List Name} (h : a <+: b) (hne : a ≠ b) : a <+: b.dropLast := by
  obtain ⟨c, rfl⟩ := h
  have hc : c ≠ [] := fun hc => hne (by rw [hc, List.append_nil])
  rw [List.dropLast_append_of_ne_nil hc]
  exact List.prefix_append _ _

/-! ## Plain paths -/

theorem isFilePath_iff : isFilePath path = true ↔ isPlain path = true ∧ ∀ c ∈ components path, '\x00' ∉ c := by
  unfold isFilePath
  simp only [Bool.and_eq_true, List.all_eq_true, decide_eq_true_eq]

theorem start_of_isPlain (h : isPlain path = true) : start root path = root := by
  obtain ⟨hs, -, hnames⟩ := isPlain_iff.1 h
  unfold start
  rw [hs, isAbsolute_joinNames hnames]
  rfl

theorem namesFile_of_isPlain (h : isPlain path = true) : namesFile path = true := by
  obtain ⟨hs, hne, hnames⟩ := isPlain_iff.1 h
  unfold namesFile
  rw [hs]
  unfold joinNames
  rw [List.splitOn_intercalate '/' (fun c hc => (isName_iff.1 (hnames c hc)).2.1) hne, List.getLast?_eq_some_getLast hne]
  have := isName_iff.1 (hnames _ (List.getLast_mem hne))
  simp [this]

theorem endsInName_of_isPlain (h : isPlain path = true) (root : List Name) :
    endsInName (root ++ components path) = true := by
  obtain ⟨-, hne, hnames⟩ := isPlain_iff.1 h
  unfold endsInName
  rw [List.getLast?_append_of_ne_nil _ hne, List.getLast?_eq_some_getLast hne]
  exact hnames _ (List.getLast_mem hne)

theorem step_of_isName {dir : List Name} {c : Name} (h : isName c = true) : step dir c = dir ++ [c] := by
  unfold step
  rw [if_neg (isName_iff.1 h).2.2.2]

theorem follow_of_dirs : ∀ {cs dir : List Name}, (∀ c ∈ cs, isName c = true ∧ '\x00' ∉ c) →
    (∀ a, a <+: cs → a ≠ cs → t.get (dir ++ a) = some .dir) → follow t dir cs = some (dir ++ cs)
  | [], dir, _, _ => by
    rw [List.append_nil]
    rfl
  | c :: cs, dir, hnames, hdirs => by
    have hc := hnames c List.mem_cons_self
    have hdir : t.get dir = some .dir := by
      have := hdirs [] List.nil_prefix (by simp)
      rwa [List.append_nil] at this
    rw [follow_cons, if_pos ⟨hdir, hc.2⟩, step_of_isName hc.1]
    have hrest : follow t (dir ++ [c]) cs = some (dir ++ [c] ++ cs) :=
      follow_of_dirs (fun x hx => hnames x (List.mem_cons_of_mem c hx)) fun a ha hne => by
        have := hdirs (c :: a) (List.cons_prefix_cons.2 ⟨rfl, ha⟩) (fun he => hne (List.cons.inj he).2)
        rwa [List.append_assoc]
    rw [hrest, List.append_assoc]
    rfl

/-! ## Directories -/

theorem mkdir_only (p : List Name) (s : Local) : Ends (mkdir p) s
    (fun _ s' => ∀ q, s'.tree.get q = s.tree.get q ∨ q = p) (fun _ _ => True) := by
  by_cases hdir : s.tree.get p = some .dir
  · exact ends_of_ok (if_pos hdir) fun _ => .inl rfl
  by_cases h : s.tree.get p = none ∧ endsInName p = true ∧ s.tree.get p.dropLast = some .dir
  · refine ends_of_ok ((if_neg hdir).trans (dif_pos h)) fun q => ?_
    dsimp only
    rw [Tree.get_insert]
    by_cases hq : q = p
    · exact .inr hq
    · exact .inl (if_neg hq)
  · exact ends_of_error ((if_neg hdir).trans (dif_neg h)) trivial

theorem mkdir_ok {p : List Name} (hparent : s.tree.get p.dropLast = some .dir) (hp : endsInName p = true)
    (hfree : s.tree.file p = none) : ∃ s', mkdir p s = (.ok ⟨⟩, s') := by
  unfold mkdir
  by_cases hdir : s.tree.get p = some .dir
  · exact ⟨s, if_pos hdir⟩
  · have hnone : s.tree.get p = none := by
      cases hget : s.tree.get p with
      | none => rfl
      | some n =>
        cases n with
        | dir => exact absurd hget hdir
        | file c =>
          rw [Tree.file_eq_some.2 hget] at hfree
          cases hfree
    rw [if_neg hdir, dif_pos ⟨hnone, hp, hparent⟩]
    exact ⟨_, rfl⟩

/-- The directories of a path are there afterwards, and nothing else is new. -/
theorem createDirAll_digs : ∀ (cs dir : List Name) (s : Local), Ends (createDirAll dir cs) s
    (fun _ s' => (∀ a, a ≠ [] → a <+: cs → s'.tree.get (walk dir a) = some .dir) ∧
      ∀ q, s'.tree.get q = s.tree.get q ∨ ∃ a, a ≠ [] ∧ a <+: cs ∧ q = walk dir a) (fun _ _ => True)
  | [], dir, s => ends_pure ⟨fun a hne ha => absurd (List.prefix_nil.1 ha) hne, fun _ => .inl rfl⟩
  | c :: cs, dir, s => by
    unfold createDirAll
    split
    · exact ends_fail trivial
    · have hmkdir : Ends (mkdir (step dir c)) s (fun _ s' => (Dug s s' ∧ s'.tree.get (step dir c) = some .dir) ∧
          ∀ q, s'.tree.get q = s.tree.get q ∨ q = step dir c) (fun _ _ => True) :=
        ((mkdir_ends _ s).and (mkdir_only _ s)).mono (fun _ _ h => h) fun _ _ _ => trivial
      refine hmkdir.bind (fun _ _ h => h) ?_
      rintro _ s₁ ⟨⟨-, hdir⟩, honly⟩
      refine ((createDirAll_digs cs (step dir c) s₁).and (createDirAll_ends cs (step dir c) s₁)).mono ?_ fun _ _ _ => trivial
      rintro _ s₂ ⟨⟨hdirs, honly'⟩, hdug⟩
      refine ⟨fun a hne ha => ?_, fun q => ?_⟩
      · cases a with
        | nil => exact absurd rfl hne
        | cons x a =>
          obtain ⟨rfl, ha'⟩ := List.cons_prefix_cons.1 ha
          by_cases hnil : a = []
          · rw [hnil]
            exact hdug.dir hdir
          · exact hdirs a hnil ha'
      · rcases honly' q with hq | ⟨a, -, ha, rfl⟩
        · rcases honly q with hq' | rfl
          · exact .inl (hq.trans hq')
          · exact .inr ⟨[c], by simp, by simp, rfl⟩
        · exact .inr ⟨c :: a, by simp, List.cons_prefix_cons.2 ⟨rfl, ha⟩, rfl⟩

theorem createDirAll_ok : ∀ {cs dir : List Name} {s : Local}, (∀ c ∈ cs, isName c = true ∧ '\x00' ∉ c) →
    s.tree.get dir = some .dir → (∀ a, a <+: cs → s.tree.file (dir ++ a) = none) →
    ∃ s', createDirAll dir cs s = (.ok ⟨⟩, s')
  | [], _, s, _, _, _ => ⟨s, rfl⟩
  | c :: cs, dir, s, hnames, hdir, hfree => by
    have hc := hnames c List.mem_cons_self
    obtain ⟨s₁, hmkdir⟩ := mkdir_ok (p := dir ++ [c]) (by rw [List.dropLast_concat]; exact hdir)
      (by unfold endsInName; rw [List.getLast?_concat]; exact hc.1) (hfree [c] (by simp))
    obtain ⟨hdug, hdir'⟩ := (mkdir_ends _ s).ok hmkdir
    obtain ⟨s₂, hrest⟩ : ∃ s₂, createDirAll (dir ++ [c]) cs s₁ = (.ok ⟨⟩, s₂) := createDirAll_ok
      (fun x hx => hnames x (List.mem_cons_of_mem c hx)) hdir' fun a ha => by
        rw [hdug.file, List.append_assoc]
        exact hfree (c :: a) (List.cons_prefix_cons.2 ⟨rfl, ha⟩)
    refine ⟨s₂, ?_⟩
    unfold createDirAll
    rw [if_neg hc.2, step_of_isName hc.1, bind_of_ok hmkdir]
    exact hrest

theorem createDirAll_of_dirs : ∀ {cs dir : List Name}, (∀ c ∈ cs, isName c = true ∧ '\x00' ∉ c) →
    (∀ a, a ≠ [] → a <+: cs → s.tree.get (dir ++ a) = some .dir) → createDirAll dir cs s = (.ok ⟨⟩, s)
  | [], _, _, _ => rfl
  | c :: cs, dir, hnames, hdirs => by
    have hc := hnames c List.mem_cons_self
    have hmkdir : mkdir (dir ++ [c]) s = (.ok ⟨⟩, s) := if_pos (hdirs [c] (by simp) (by simp))
    unfold createDirAll
    rw [if_neg hc.2, step_of_isName hc.1, bind_of_ok hmkdir]
    refine createDirAll_of_dirs (fun x hx => hnames x (List.mem_cons_of_mem c hx)) fun a _ ha => ?_
    rw [List.append_assoc]
    exact hdirs (c :: a) (by simp) (List.cons_prefix_cons.2 ⟨rfl, ha⟩)

/-! ## Files -/

theorem write_ok {content : Bytes} (h : isFilePath path = true)
    (hparent : s.tree.get (root ++ (components path).dropLast) = some .dir)
    (hplace : s.tree.get (root ++ components path) ≠ some .dir) : ∃ s', write root path content s = (.ok ⟨⟩, s') := by
  obtain ⟨hplain, hnul⟩ := isFilePath_iff.1 h
  obtain ⟨-, hne, hnames⟩ := isPlain_iff.1 hplain
  have hdrop : (root ++ components path).dropLast = root ++ (components path).dropLast := List.dropLast_append_of_ne_nil hne
  have hdirs : ∀ a, a <+: components path → a ≠ components path → s.tree.get (root ++ a) = some .dir := by
    intro a ha hlt
    have hle : a <+: (components path).dropLast := prefix_dropLast ha hlt
    by_cases he : a = (components path).dropLast
    · rw [he]
      exact hparent
    · refine s.tree.dir_of_prefix ((List.prefix_append_right_inj root).2 hle) (fun h' => he (List.append_cancel_left h')) ?_
      rw [hparent]
      rfl
  have hf : follow s.tree root (components path) = some (root ++ components path) :=
    follow_of_dirs (fun c hc => ⟨hnames c hc, hnul c hc⟩) hdirs
  have hcond : (namesFile path = true ∧ endsInName (root ++ components path) = true) ∧
      s.tree.get (root ++ components path).dropLast = some .dir ∧ s.tree.get (root ++ components path) ≠ some .dir :=
    ⟨⟨namesFile_of_isPlain hplain, endsInName_of_isPlain hplain root⟩, by rw [hdrop]; exact hparent, hplace⟩
  unfold write
  rw [start_of_isPlain hplain, hf]
  exact ⟨_, dif_pos hcond⟩

/-- **A file is written unless something is in its way.** -/
theorem install_ok_iff {content : Bytes} (h : isFilePath path = true) (hroot : s.tree.get root = some .dir) :
    (∃ s', install root path content s = (.ok ⟨⟩, s')) ↔ Clear root s.tree path := by
  obtain ⟨hplain, hnul⟩ := isFilePath_iff.1 h
  obtain ⟨-, hne, hnames⟩ := isPlain_iff.1 hplain
  have hdots : dotDot ∉ components path := fun hmem => (isName_iff.1 (hnames _ hmem)).2.2.2 rfl
  constructor
  · rintro ⟨s', hrun⟩
    unfold install at hrun
    rw [start_of_isPlain hplain] at hrun
    obtain ⟨_, s₁, hdirs, hwrite⟩ := bind_eq_ok.1 hrun
    have hdug := (createDirAll_ends _ _ s).ok hdirs
    refine ⟨fun a ha hlt => ?_, fun hdir => ?_⟩
    · rw [← hdug.file]
      have hle : a <+: (components path).dropLast := prefix_dropLast ha hlt
      by_cases hnil : a = []
      · rw [hnil, List.append_nil]
        exact Tree.file_of_dir (hdug.dir hroot)
      · have := ((createDirAll_digs _ _ s).ok hdirs).1 a hnil hle
        rw [walk_names root fun hmem => hdots (ha.subset hmem)] at this
        exact Tree.file_of_dir this
    · rw [← resolve_of_isPlain hplain] at hdir
      exact ((write_ends root path content s₁).ok hwrite).2 (hdug.dir hdir)
  · intro hclear
    have hlt : ∀ a, a <+: (components path).dropLast → a <+: components path ∧ a ≠ components path := by
      refine fun a ha => ⟨ha.trans (List.dropLast_prefix _), fun he => ?_⟩
      have := ha.length_le
      rw [he, List.length_dropLast] at this
      have := List.length_pos_iff.2 hne
      omega
    obtain ⟨s₁, hdirs⟩ : ∃ s₁, createDirAll root (components path).dropLast s = (.ok ⟨⟩, s₁) := createDirAll_ok
      (fun c hc => ⟨hnames c ((List.dropLast_prefix _).subset hc), hnul c ((List.dropLast_prefix _).subset hc)⟩) hroot
      fun a ha => hclear.above a (hlt a ha).1 (hlt a ha).2
    have hdug := (createDirAll_ends _ _ s).ok hdirs
    have hparent : s₁.tree.get (root ++ (components path).dropLast) = some .dir := by
      by_cases hnil : (components path).dropLast = []
      · rw [hnil, List.append_nil]
        exact hdug.dir hroot
      · have := ((createDirAll_digs _ _ s).ok hdirs).1 _ hnil List.prefix_rfl
        rwa [walk_names root fun hmem => hdots ((List.dropLast_prefix _).subset hmem)] at this
    have hplace : s₁.tree.get (root ++ components path) ≠ some .dir := by
      rcases ((createDirAll_digs _ _ s).ok hdirs).2 (root ++ components path) with hsame | ⟨a, -, ha, he⟩
      · rw [hsame]
        exact hclear.place
      · rw [walk_names root fun hmem => hdots ((hlt a ha).1.subset hmem)] at he
        exact absurd (List.append_cancel_left he).symm (hlt a ha).2
    obtain ⟨s₂, hwrite⟩ : ∃ s₂, write root path content s₁ = (.ok ⟨⟩, s₂) := write_ok h hparent hplace
    refine ⟨s₂, ?_⟩
    unfold install
    rw [start_of_isPlain hplain, bind_of_ok hdirs]
    exact hwrite

/-- The directories above a file that was written are the only new ones. -/
theorem install_dirs {content : Bytes} (h : isPlain path = true) {u : PUnit}
    (hrun : install root path content s = (.ok u, s')) {q : List Name} (hq : s'.tree.get q = some .dir) :
    s.tree.get q = some .dir ∨ ∃ a, a <+: components path ∧ a ≠ components path ∧ q = root ++ a := by
  obtain ⟨-, hne, hnames⟩ := isPlain_iff.1 h
  have hdots : dotDot ∉ components path := fun hmem => (isName_iff.1 (hnames _ hmem)).2.2.2 rfl
  unfold install at hrun
  rw [start_of_isPlain h] at hrun
  obtain ⟨_, s₁, hdirs, hwrite⟩ := bind_eq_ok.1 hrun
  have hq₁ : s₁.tree.get q = some .dir := by
    rw [((write_ends root path content s₁).ok hwrite).1.get q] at hq
    split at hq
    · cases hq
    · exact hq
  rcases ((createDirAll_digs _ _ s).ok hdirs).2 q with hsame | ⟨a, -, ha, rfl⟩
  · rw [hsame] at hq₁
    exact .inl hq₁
  · have ha' := ha.trans (List.dropLast_prefix _)
    refine .inr ⟨a, ha', fun he => ?_, walk_names root fun hmem => hdots (ha'.subset hmem)⟩
    have := ha.length_le
    rw [he, List.length_dropLast] at this
    have := List.length_pos_iff.2 hne
    omega

theorem install_above {content : Bytes} (h : isPlain path = true) {u : PUnit}
    (hrun : install root path content s = (.ok u, s')) {a : List Name} (ha : a <+: components path)
    (hlt : a ≠ components path) : s'.tree.get (root ++ a) = some .dir := by
  have hfile := ((install_ends root path content s).ok hrun).file (resolve root path)
  rw [if_pos rfl, resolve_of_isPlain h] at hfile
  refine s'.tree.dir_of_prefix ((List.prefix_append_right_inj root).2 ha) (fun he => hlt (List.append_cancel_left he)) ?_
  rw [Tree.file_eq_some.1 hfile]
  rfl

/-! ## Removals -/

theorem follow_of_get (h : isFilePath path = true) (hget : (s.tree.get (root ++ components path)).isSome) :
    follow s.tree (start root path) (components path) = some (root ++ components path) := by
  obtain ⟨hplain, hnul⟩ := isFilePath_iff.1 h
  obtain ⟨-, -, hnames⟩ := isPlain_iff.1 hplain
  rw [start_of_isPlain hplain]
  refine follow_of_dirs (fun c hc => ⟨hnames c hc, hnul c hc⟩) fun a ha hne => ?_
  exact s.tree.dir_of_prefix ((List.prefix_append_right_inj root).2 ha) (fun he => hne (List.append_cancel_left he)) hget

theorem fileExists_eq (h : isFilePath path = true) (hplace : t.get (root ++ components path) ≠ some .dir) :
    fileExists root path t = (t.file (root ++ components path)).isSome := by
  have hplain := (isFilePath_iff.1 h).1
  cases hget : t.get (root ++ components path) with
  | none =>
    have hnone : t.file (root ++ components path) = none := by
      unfold Tree.file
      rw [hget]
    rw [hnone]
    unfold fileExists
    cases hf : follow t (start root path) (components path) with
    | none => rfl
    | some p =>
      have hp : p = resolve root path := follow_eq hf
      rw [resolve_of_isPlain hplain] at hp
      rw [hp]
      dsimp only
      rw [hget]
      rfl
  | some n =>
    cases n with
    | dir => exact absurd hget hplace
    | file c =>
      rw [Tree.file_eq_some.2 hget]
      unfold fileExists
      rw [follow_of_get (s := ⟨t, []⟩) h (by rw [hget]; rfl)]
      dsimp only
      rw [hget]
      exact namesFile_of_isPlain hplain

theorem discard_ok (h : isFilePath path = true) (hplace : s.tree.get (root ++ components path) ≠ some .dir) :
    ∃ s', discard root path s = (.ok ⟨⟩, s') ∧
      (∀ q, s'.tree.file q = if q = root ++ components path then none else s.tree.file q) ∧
      ∀ q, s'.tree.get q = some .dir ↔ s.tree.get q = some .dir := by
  have hplain := (isFilePath_iff.1 h).1
  cases hget : s.tree.get (root ++ components path) with
  | none =>
    have hnone : s.tree.file (root ++ components path) = none := by
      unfold Tree.file
      rw [hget]
    have hexists : fileExists root path s.tree = false := by
      rw [fileExists_eq h hplace, hnone]
      rfl
    refine ⟨s, ?_, fun q => ?_, fun q => Iff.rfl⟩
    · unfold discard
      rw [bind_of_ok (read_apply _ s), hexists]
      rfl
    · split
      · rename_i hq
        rw [hq]
        exact hnone
      · rfl
  | some n =>
    cases n with
    | dir => exact absurd hget hplace
    | file c =>
      have hleads : LeadsToFile root path s.tree := by
        refine ⟨?_, ?_, namesFile_of_isPlain hplain⟩
        · rw [resolve_of_isPlain hplain]
          exact follow_of_get h (by rw [hget]; rfl)
        · rw [resolve_of_isPlain hplain, Tree.file_eq_some.2 hget]
          rfl
      obtain ⟨s', hrun, hremoved⟩ := discard_of_leads hleads
      refine ⟨s', hrun, fun q => ?_, fun q => ?_⟩
      · rw [hremoved.put.file, resolve_of_isPlain hplain]
      · rw [hremoved.get, resolve_of_isPlain hplain]
        split
        · rename_i hq
          rw [hq, hget]
          simp
        · exact Iff.rfl

/-- **A removal fails at a directory only.** -/
theorem discard_ok_iff (h : isFilePath path = true) :
    (∃ s', discard root path s = (.ok ⟨⟩, s')) ↔ s.tree.get (root ++ components path) ≠ some .dir := by
  refine ⟨?_, fun hplace => (discard_ok h hplace).imp fun _ h => h.1⟩
  rintro ⟨s', hrun⟩ hdir
  have hf : follow s.tree (start root path) (components path) = some (root ++ components path) :=
    follow_of_get h (by rw [hdir]; rfl)
  have hexists : fileExists root path s.tree = true := by
    unfold fileExists
    rw [hf]
    dsimp only
    rw [hdir]
  have herror : removeFile root path s = (.error .isADirectory, s) := by
    unfold removeFile
    rw [hf]
    exact dif_neg fun hne => hne.1 hdir
  unfold discard at hrun
  rw [bind_of_ok (read_apply _ s), hexists] at hrun
  rw [if_pos rfl, herror] at hrun
  cases hrun

theorem clear_of_file (h : (t.file (root ++ components path)).isSome) : Clear root t path := by
  obtain ⟨c, hc⟩ := Option.isSome_iff_exists.1 h
  have hget := Tree.file_eq_some.1 hc
  refine ⟨fun a ha hne => Tree.file_of_dir ?_, fun hdir => ?_⟩
  · refine t.dir_of_prefix ((List.prefix_append_right_inj root).2 ha) (fun he => hne (List.append_cancel_left he)) ?_
    rw [hget]
    rfl
  · rw [hget] at hdir
    cases hdir

/-! ## Runs of writes -/

/-- From `s₀` the files of the paths `ps` were written, with the contents of `T`. -/
structure Filled (root : List Name) (T : Text → Option Bytes) (s₀ : Local) (ps : List Text) (s : Local) : Prop where
  written : ∀ p ∈ ps, s.tree.file (root ++ components p) = T p
  rest : ∀ q, (∀ p ∈ ps, q ≠ root ++ components p) → s.tree.file q = s₀.tree.file q
  dirs : ∀ q, s.tree.get q = some .dir ↔
    s₀.tree.get q = some .dir ∨ ∃ p ∈ ps, ∃ a, a <+: components p ∧ a ≠ components p ∧ q = root ++ a

/-- Neither path lies above the other. -/
def Beside (p p' : Text) : Prop := (components p <+: components p' ∨ components p' <+: components p) → p = p'

theorem eq_of_components {p p' : Text} (h : isPlain p = true) (h' : isPlain p' = true)
    (he : components p = components p') : p = p' := by
  rw [(isPlain_iff.1 h).1, (isPlain_iff.1 h').1, he]

theorem filled_nil {T : Text → Option Bytes} (s : Local) : Filled root T s [] s :=
  ⟨fun _ h => absurd h List.not_mem_nil, fun _ _ => rfl, fun _ => by simp⟩

variable {T : Text → Option Bytes} {s₀ : Local} {ps : List Text}

theorem Filled.clear_iff (h : Filled root T s₀ ps s) (hbeside : ∀ p ∈ ps, Beside p path) :
    Clear root s.tree path ↔ Clear root s₀.tree path := by
  have habove : ∀ a, a <+: components path → a ≠ components path → s.tree.file (root ++ a) = s₀.tree.file (root ++ a) := by
    refine fun a ha hne => h.rest _ fun p hp he => ?_
    have he := List.append_cancel_left he
    have hpp := hbeside p hp (.inl (he ▸ ha))
    rw [hpp] at he
    exact hne he
  have hplace : s.tree.get (root ++ components path) = some .dir ↔ s₀.tree.get (root ++ components path) = some .dir := by
    rw [h.dirs]
    refine ⟨fun hdir => hdir.elim id ?_, .inl⟩
    rintro ⟨p, hp, a, ha, hne, he⟩
    have he := List.append_cancel_left he
    have hpp := hbeside p hp (.inr (he ▸ ha))
    rw [hpp] at hne
    exact absurd he.symm hne
  constructor
  · exact fun hc => ⟨fun a ha hne => habove a ha hne ▸ hc.above a ha hne, fun hdir => hc.place (hplace.2 hdir)⟩
  · exact fun hc => ⟨fun a ha hne => (habove a ha hne).trans (hc.above a ha hne), fun hdir => hc.place (hplace.1 hdir)⟩

theorem Filled.step {content : Bytes} (h : Filled root T s₀ ps s) (hplain : ∀ p ∈ ps, isPlain p = true)
    (hp : isPlain path = true) (hT : T path = some content) {u : PUnit} (hrun : install root path content s = (.ok u, s')) :
    Filled root T s₀ (ps ++ [path]) s' := by
  have hput := (install_ends root path content s).ok hrun
  rw [resolve_of_isPlain hp] at hput
  refine ⟨fun p hmem => ?_, fun q hq => ?_, fun q => ⟨fun hdir => ?_, fun hdir => ?_⟩⟩
  · rw [hput.file]
    split
    · rename_i he
      rcases List.mem_append.1 hmem with hmem | hmem
      · rw [eq_of_components (hplain p hmem) hp (List.append_cancel_left he), hT]
      · rw [List.mem_singleton.1 hmem, hT]
    · rename_i he
      rcases List.mem_append.1 hmem with hmem | hmem
      · exact h.written p hmem
      · exact absurd (by rw [List.mem_singleton.1 hmem]) he
  · rw [hput.file, if_neg (hq path (by simp))]
    exact h.rest q fun p hmem => hq p (List.mem_append_left _ hmem)
  · rcases install_dirs hp hrun hdir with hdir | ⟨a, ha, hne, rfl⟩
    · rcases (h.dirs q).1 hdir with hdir | ⟨p, hmem, ha⟩
      · exact .inl hdir
      · exact .inr ⟨p, List.mem_append_left _ hmem, ha⟩
    · exact .inr ⟨path, by simp, a, ha, hne, rfl⟩
  · have hkept : s.tree.get q = some .dir → s'.tree.get q = some .dir := ((install_later s).ok hrun).1.dirs q
    rcases hdir with hdir | ⟨p, hmem, a, ha, hne, rfl⟩
    · exact hkept ((h.dirs q).2 (.inl hdir))
    · rcases List.mem_append.1 hmem with hmem | hmem
      · exact hkept ((h.dirs _).2 (.inr ⟨p, hmem, a, ha, hne, rfl⟩))
      · rw [List.mem_singleton.1 hmem] at ha hne
        exact install_above hp hrun ha hne

/-- The next write succeeds just when nothing was in its way at the start. -/
theorem Filled.install_ends {content : Bytes} (h : Filled root T s₀ ps s) (hroot : s₀.tree.get root = some .dir)
    (hplain : ∀ p ∈ ps, isPlain p = true) (hbeside : ∀ p ∈ ps, Beside p path) (hp : isFilePath path = true)
    (hT : T path = some content) : Ends (install root path content) s
      (fun _ s' => Filled root T s₀ (ps ++ [path]) s' ∧ Clear root s₀.tree path) (fun _ _ => ¬ Clear root s₀.tree path) := by
  have hok : (∃ s', install root path content s = (.ok ⟨⟩, s')) ↔ Clear root s.tree path :=
    install_ok_iff hp ((h.dirs root).2 (.inl hroot))
  rw [h.clear_iff hbeside] at hok
  rcases hrun : install root path content s with ⟨e | u, s'⟩
  · refine ends_of_error hrun fun hclear => ?_
    obtain ⟨s'', hrun'⟩ := hok.2 hclear
    rw [hrun] at hrun'
    cases hrun'
  · exact ends_of_ok hrun ⟨h.step hplain (isFilePath_iff.1 hp).1 hT hrun, hok.1 ⟨s', hrun⟩⟩

/-! ## Runs of removals -/

/-- From `s₀` the files of the paths `rs` were removed. -/
structure Emptied (root : List Name) (s₀ : Local) (rs : List Text) (s : Local) : Prop where
  removed : ∀ r ∈ rs, s.tree.file (root ++ components r) = none
  rest : ∀ q, (∀ r ∈ rs, q ≠ root ++ components r) → s.tree.file q = s₀.tree.file q
  dirs : ∀ q, s.tree.get q = some .dir ↔ s₀.tree.get q = some .dir

theorem emptied_nil (s : Local) : Emptied root s [] s :=
  ⟨fun _ h => absurd h List.not_mem_nil, fun _ _ => rfl, fun _ => Iff.rfl⟩

theorem Emptied.discard_ends {rs : List Text} (h : Emptied root s₀ rs s) (hp : isFilePath path = true) :
    Ends (discard root path) s
      (fun _ s' => Emptied root s₀ (rs ++ [path]) s' ∧ s₀.tree.get (root ++ components path) ≠ some .dir)
      (fun _ _ => s₀.tree.get (root ++ components path) = some .dir) := by
  by_cases hplace : s₀.tree.get (root ++ components path) = some .dir
  · rcases hrun : discard root path s with ⟨e | u, s'⟩
    · exact ends_of_error hrun hplace
    · exact absurd ((h.dirs _).2 hplace) ((discard_ok_iff hp).1 ⟨s', hrun⟩)
  · obtain ⟨s', hrun, hfile, hdirs⟩ := discard_ok (s := s) hp fun hdir => hplace ((h.dirs _).1 hdir)
    refine ends_of_ok hrun ⟨⟨fun r hr => ?_, fun q hq => ?_, fun q => (hdirs q).trans (h.dirs q)⟩, hplace⟩
    · rw [hfile]
      split
      · rfl
      · rename_i hne
        rcases List.mem_append.1 hr with hr | hr
        · exact h.removed r hr
        · exact absurd (by rw [List.mem_singleton.1 hr]) hne
    · rw [hfile, if_neg (hq path (by simp))]
      exact h.rest q fun r hr => hq r (List.mem_append_left _ hr)

end LocalFs
end Vai
