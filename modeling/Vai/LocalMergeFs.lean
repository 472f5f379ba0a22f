import Vai.LocalPlain
import Vai.Remote
/-!
# LocalMergeFs — `DiskMergeFs` on a tree of directories

`DiskMergeFs` of `merge_fs.rs` over the calls of `LocalFs`.  It joins a key to a directory of the repository and leaves
the rest to the file system: `./a` leads to the file `a`, `a/c` cannot stand beside a file `a`, a directory exists as a
file does, and an absolute path leaves the repository.

`diskMergeFs_contract`: at paths in normal form of which none lies above another (`RepoPaths`) it is the plain map that
the engine believes in.
-/
namespace Vai
namespace LocalFs

open Proc FilePath Remote

/-! ## The calls -/

/-- `Path::join`: an absolute path replaces what it is joined to. -/
def joined (dir : Text) (rel : Text) : Text := if isAbsolute rel then rel else dir ++ '/' :: rel

def overlayDir (ws : Uuid) : Text := ".vai/workspaces/".toList ++ (Text.ofNat ws ++ "/overlay".toList)
def snapshotDir (ver : Text) : Text := joined ".vai/versions".toList ver ++ "/snapshot".toList

/-- `DiskMergeFs::resolve`, from the root of the repository. -/
def physical (ws : Uuid) : Place → Text
  | .overlay p => joined (overlayDir ws) p
  | .base p => p
  | .snapshot ver p => joined (snapshotDir ver) p

/-- `prefix_root`. -/
def listedDir (ws : Uuid) : Root → Text
  | .overlay => overlayDir ws
  | .base => []
  | .snapshot ver => snapshotDir ver

def ioError : FsError → IoError
  | .notFound => ⟨.notFound, "No such file or directory".toList⟩
  | .invalidInput => ⟨.invalidInput, "file name contained an unexpected NUL byte".toList⟩
  | .notADirectory => ⟨.other, "Not a directory".toList⟩
  | .isADirectory => ⟨.other, "Is a directory".toList⟩

/-- `fs::read`. -/
def readFile (root : List Name) (s : Text) : Proc Local FsError Bytes := fun st =>
  match follow st.tree (start root s) (components s) with
  | none => (.error .notFound, st)
  | some p =>
    match st.tree.get p with
    | some (.file c) => (if namesFile s then .ok c else .error .notADirectory, st)
    | some .dir => (.error .isADirectory, st)
    | none => (.error .notFound, st)

/-- `list_recursive` below a directory that exists, in any order. -/
def listRecursive (env : Env) (root : List Name) (dir : Text) : Proc Local FsError (List Path) := fun st =>
  match follow st.tree (start root dir) (components dir) with
  | none => (.ok [], st)
  | some p =>
    match st.tree.get p with
    | none => (.ok [], st)
    | some (.file _) => (.error .notADirectory, st)
    | some .dir => (.ok (env.dirOrder ((filesBelow p st.tree).map (fun q => slashed (joinNames q.1)))), st)

/-- `DiskMergeFs::new` for the workspace `ws` of the repository at `root`. -/
def diskMergeFs (env : Env) (root : List Name) (ws : Uuid) : MergeFs Local where
  readFile key := do
    let pl ← ofExcept id (resolveKey key)
    mapErr ioError (readFile root (physical ws pl))
  writeFile key content := do
    let pl ← ofExcept id (resolveKey key)
    mapErr ioError (install root (physical ws pl) content)
  listFiles pre := do
    let r ← ofExcept id (resolvePrefix "snapshot prefix must include a version id (e.g. 'snapshot/v2/')".toList pre)
    let l ← mapErr ioError (listRecursive env root (listedDir ws r))
    pure (l.map (r.keyPrefix ++ ·))
  fileExists key := do
    let pl ← ofExcept id (resolveKey key)
    Proc.read (fun st => fileExists root (physical ws pl) st.tree)
  deleteFile key := do
    let pl ← ofExcept id (resolveKey key)
    mapErr ioError (discard root (physical ws pl))

/-! ## The names on the way -/

def rootNames (ws : Uuid) : Slot → List Name
  | .overlay _ => [vaiDir, "workspaces".toList, Text.ofNat ws, "overlay".toList]
  | .base _ => []
  | .snapshot n _ => [vaiDir, "versions".toList, versionName n, "snapshot".toList]

/-- The names from the repository to a file. -/
def slotNames (ws : Uuid) (k : Slot) : List Name := rootNames ws k ++ components k.path

/-- A path of the repository's own files, in normal form and as a listing writes it. -/
def isRepoPath (p : Path) : Bool := isFilePath p && '\\' ∉ p && (components p).head? ≠ some vaiDir

/-- Paths in the repository, of which none lies above another. -/
structure RepoPaths (U : Path → Prop) : Prop where
  plain : ∀ p, U p → isRepoPath p = true
  beside : ∀ p q, U p → U q → Beside p q

variable {env : Env} {root : List Name} {ws : Uuid} {k j : Slot} {p : Path} {s s' : Local} {U : Path → Prop} {V : Files}

theorem isRepoPath_iff : isRepoPath p = true ↔ isFilePath p = true ∧ '\\' ∉ p ∧ (components p).head? ≠ some vaiDir := by
  unfold isRepoPath
  simp only [Bool.and_eq_true, decide_eq_true_eq, and_assoc]

theorem isName_ofNat (n : Nat) : isName (Text.ofNat n) = true := by
  have hdot : '.' ∉ Text.ofNat n := Text.not_mem_ofNat (by decide) n
  refine isName_iff.2 ⟨Text.ofNat_ne_nil n, Text.not_mem_ofNat (by decide) n, fun h => hdot ?_, fun h => hdot ?_⟩ <;>
  · rw [h]
    exact List.mem_cons_self

theorem isName_versionName (n : Nat) : isName (versionName n) = true := by
  refine isName_iff.2 ⟨List.cons_ne_nil _ _, slash_not_mem_versionName n, fun h => ?_, fun h => ?_⟩ <;>
  · cases (List.cons.inj h).1

theorem rootNames_names (ws : Uuid) (k : Slot) : ∀ c ∈ rootNames ws k, isName c = true ∧ '\x00' ∉ c := by
  have hv : isName vaiDir = true ∧ '\x00' ∉ vaiDir := by decide
  have hnum : ∀ n, isName (Text.ofNat n) = true ∧ '\x00' ∉ Text.ofNat n :=
    fun n => ⟨isName_ofNat n, Text.not_mem_ofNat (by decide) n⟩
  have hver : ∀ n, isName (versionName n) = true ∧ '\x00' ∉ versionName n := fun n => by
    refine ⟨isName_versionName n, fun h => ?_⟩
    rcases List.mem_cons.1 h with h | h
    · cases h
    · exact (hnum n).2 h
  intro c hc
  cases k with
  | base p => cases hc
  | overlay p =>
    simp only [rootNames, List.mem_cons, List.not_mem_nil, or_false] at hc
    rcases hc with rfl | rfl | rfl | rfl
    · exact hv
    · decide
    · exact hnum ws
    · decide
  | snapshot n p =>
    simp only [rootNames, List.mem_cons, List.not_mem_nil, or_false] at hc
    rcases hc with rfl | rfl | rfl | rfl
    · exact hv
    · decide
    · exact hver n
    · decide

theorem joinNames_append {a b : List Name} (ha : a ≠ []) (hb : b ≠ []) :
    joinNames (a ++ b) = joinNames a ++ '/' :: joinNames b := by
  induction a with
  | nil => exact absurd rfl ha
  | cons c a ih =>
    rw [List.cons_append, joinNames_cons c (by simp [hb])]
    by_cases hnil : a = []
    · subst hnil
      rw [List.nil_append]
      simp [joinNames]
    · rw [ih hnil, joinNames_cons c hnil, List.append_assoc]
      rfl

theorem joinNames_four (a b c d : Name) : joinNames [a, b, c, d] = a ++ '/' :: (b ++ '/' :: (c ++ '/' :: d)) := by
  rw [joinNames_cons a (by simp), joinNames_cons b (by simp), joinNames_cons c (by simp)]
  simp [joinNames]

theorem overlayDir_eq (ws : Uuid) (p : Path) : overlayDir ws = joinNames (rootNames ws (.overlay p)) := by
  unfold overlayDir rootNames
  rw [joinNames_four]
  rfl

theorem snapshotDir_eq (ws : Uuid) (n : Nat) (p : Path) :
    snapshotDir (versionName n) = joinNames (rootNames ws (.snapshot n p)) := by
  have hver : isAbsolute (versionName n) = false := rfl
  unfold snapshotDir joined rootNames
  rw [if_neg (by rw [hver]; decide), joinNames_four, List.append_assoc]
  rfl

theorem joined_joinNames {dir names : List Name} (hdir : dir ≠ []) (hnames : ∀ c ∈ names, isName c = true) (hne : names ≠ []) :
    joined (joinNames dir) (joinNames names) = joinNames (dir ++ names) := by
  rw [joined, isAbsolute_joinNames hnames, if_neg (by decide), joinNames_append hdir hne]

theorem physical_place (h : isFilePath k.path = true) : physical ws k.place = joinNames (slotNames ws k) := by
  obtain ⟨hp, hne, hnames⟩ := isPlain_iff.1 (isFilePath_iff.1 h).1
  unfold slotNames
  cases k with
  | base p => exact hp
  | overlay p =>
    rw [← joined_joinNames (by simp [rootNames]) hnames hne, ← overlayDir_eq]
    exact congrArg (joined (overlayDir ws)) hp
  | snapshot n p =>
    rw [← joined_joinNames (by simp [rootNames]) hnames hne, ← snapshotDir_eq]
    exact congrArg (joined (snapshotDir (versionName n))) hp

theorem isFilePath_joinNames {names : List Name} (h : ∀ c ∈ names, isName c = true ∧ '\x00' ∉ c) (hne : names ≠ []) :
    isFilePath (joinNames names) = true := by
  have hnames : ∀ c ∈ names, isName c = true := fun c hc => (h c hc).1
  refine isFilePath_iff.2 ⟨isPlain_joinNames hnames hne, fun c hc => ?_⟩
  rw [components_joinNames hnames] at hc
  exact (h c hc).2

theorem slotNames_names (h : isFilePath k.path = true) : ∀ c ∈ slotNames ws k, isName c = true ∧ '\x00' ∉ c := by
  obtain ⟨hplain, hnul⟩ := isFilePath_iff.1 h
  intro c hc
  rcases List.mem_append.1 hc with hc | hc
  · exact rootNames_names ws k c hc
  · exact ⟨(isPlain_iff.1 hplain).2.2 c hc, hnul c hc⟩

theorem components_physical (h : isFilePath k.path = true) : components (physical ws k.place) = slotNames ws k := by
  rw [physical_place h]
  exact components_joinNames fun c hc => (slotNames_names h c hc).1

theorem isFilePath_physical (h : isFilePath k.path = true) : isFilePath (physical ws k.place) = true := by
  rw [physical_place h]
  refine isFilePath_joinNames (slotNames_names h) fun hnil => ?_
  exact (isPlain_iff.1 (isFilePath_iff.1 h).1).2.1 (List.append_eq_nil_iff.1 hnil).2

/-! ## No two slots share a file -/

theorem not_prefix_of_repoPath (h : isRepoPath p = true) (rest : List Name) :
    ¬ components p <+: vaiDir :: rest ∧ ¬ vaiDir :: rest <+: components p := by
  obtain ⟨hfile, -, hvai⟩ := isRepoPath_iff.1 h
  obtain ⟨c, cs, hc⟩ := List.exists_cons_of_ne_nil (isPlain_iff.1 (isFilePath_iff.1 hfile).1).2.1
  rw [hc] at hvai ⊢
  constructor
  · intro hpre
    exact hvai (congrArg some (List.cons_prefix_cons.1 hpre).1)
  · intro hpre
    exact hvai (congrArg some (List.cons_prefix_cons.1 hpre).1.symm)

/-- A slot lies above another one as its path does, in one directory. -/
theorem eq_of_prefix_slotNames (hk : isRepoPath k.path = true) (hj : isRepoPath j.path = true)
    (h : slotNames ws k <+: slotNames ws j) (hp : components k.path <+: components j.path → k.path = j.path) : k = j := by
  cases k with
  | overlay p =>
    cases j with
    | overlay q => exact congrArg Slot.overlay (hp ((List.prefix_append_right_inj _).1 h))
    | base q => exact absurd h (not_prefix_of_repoPath hj _).2
    | snapshot n q => exact absurd (List.cons_prefix_cons.1 (List.cons_prefix_cons.1 h).2).1 (by decide)
  | base p =>
    cases j with
    | base q => exact congrArg Slot.base (hp h)
    | overlay q => exact absurd h (not_prefix_of_repoPath hk _).1
    | snapshot n q => exact absurd h (not_prefix_of_repoPath hk _).1
  | snapshot m p =>
    cases j with
    | overlay q => exact absurd (List.cons_prefix_cons.1 (List.cons_prefix_cons.1 h).2).1 (by decide)
    | base q => exact absurd h (not_prefix_of_repoPath hj _).2
    | snapshot n q =>
      have hver := List.cons_prefix_cons.1 (List.cons_prefix_cons.1 (List.cons_prefix_cons.1 h).2).2
      obtain rfl := versionName_injective hver.1
      exact congrArg (Slot.snapshot m) (hp ((List.prefix_append_right_inj _).1 h))

/-- What lies in the directory of an overlay or of a snapshot is at a path of its own. -/
theorem rel_of_slotNames (hk : isRepoPath k.path = true) (hj : rootNames ws j ≠ []) {rel : List Name}
    (h : rootNames ws j ++ rel = slotNames ws k) : rel = components k.path := by
  unfold slotNames at h
  have hbase : ∀ p, k = .base p → False := by
    rintro p rfl
    cases j with
    | base q => exact hj rfl
    | overlay q => exact (not_prefix_of_repoPath hk _).2 ⟨rel, h⟩
    | snapshot n q => exact (not_prefix_of_repoPath hk _).2 ⟨rel, h⟩
  have hlen : (rootNames ws j).length = (rootNames ws k).length := by
    cases j with
    | base q => exact absurd rfl hj
    | _ => cases k <;> first | rfl | exact (hbase _ rfl).elim
  exact (List.append_inj h hlen).2

theorem slotNames_injective (hk : isRepoPath k.path = true) (hj : isRepoPath j.path = true)
    (h : slotNames ws k = slotNames ws j) : k = j := by
  have hplain : ∀ {p}, isRepoPath p = true → isPlain p = true := fun h => (isFilePath_iff.1 (isRepoPath_iff.1 h).1).1
  refine eq_of_prefix_slotNames hk hj (by rw [h]) fun _ => eq_of_components (hplain hk) (hplain hj) ?_
  by_cases hj₀ : rootNames ws j = []
  · by_cases hk₀ : rootNames ws k = []
    · unfold slotNames at h
      rwa [hj₀, hk₀] at h
    · exact rel_of_slotNames hj hk₀ h
  · exact (rel_of_slotNames hk hj₀ h.symm).symm

/-! ## The map that a repository holds -/

/-- The files that the engine sees. -/
def filesAt (root : List Name) (ws : Uuid) (s : Local) : Files := fun k =>
  if isRepoPath k.path then s.tree.file (root ++ slotNames ws k) else none

/-- The repository holds the files `V`, nothing is in the way of a file at a path of `U`, and what is listed has such a
path. -/
structure Rep (U : Path → Prop) (root : List Name) (ws : Uuid) (s : Local) (V : Files) : Prop where
  files : filesAt root ws s = V
  dir : s.tree.get root = some .dir
  clear : ∀ k : Slot, U k.path → Clear root s.tree (physical ws k.place)
  listed : ∀ k rel, rootNames ws k ≠ [] → (s.tree.file (root ++ (rootNames ws k ++ rel))).isSome → U (joinNames rel)

theorem RepoPaths.filePath (hU : RepoPaths U) (hp : U p) : isFilePath p = true := (isRepoPath_iff.1 (hU.plain p hp)).1

theorem RepoPaths.besides (hU : RepoPaths U) (hk : U k.path) (hj : U j.path) (hne : k ≠ j) :
    Beside (physical ws k.place) (physical ws j.place) := by
  intro h
  rw [components_physical (hU.filePath hk), components_physical (hU.filePath hj)] at h
  rcases h with h | h
  · exact absurd (eq_of_prefix_slotNames (hU.plain _ hk) (hU.plain _ hj) h fun hp => hU.beside _ _ hk hj (.inl hp)) hne
  · exact absurd (eq_of_prefix_slotNames (hU.plain _ hj) (hU.plain _ hk) h fun hp => hU.beside _ _ hj hk (.inl hp)) hne.symm

/-- One file of `U` is another one, and nothing else. -/
theorem Rep.change (hU : RepoPaths U) (h : Rep U root ws s V) (hk : U k.path) {o : Option Bytes}
    (hfile : ∀ q, s'.tree.file q = if q = root ++ slotNames ws k then o else s.tree.file q)
    (hroot : s'.tree.get root = some .dir) (hclear : ∀ j : Slot, U j.path → Clear root s'.tree (physical ws j.place)) :
    Rep U root ws s' (V.set k o) where
  files := by
    funext j
    rw [Files.set_apply, ← h.files, LocalFs.filesAt, hfile]
    by_cases hj : isRepoPath j.path = true
    · by_cases hjk : j = k
      · subst hjk
        rw [if_pos hj, if_pos rfl, if_pos rfl]
      · rw [if_pos hj, if_neg hjk, if_neg fun he => hjk (slotNames_injective hj (hU.plain _ hk) (List.append_cancel_left he)),
          LocalFs.filesAt, if_pos hj]
    · rw [if_neg hj, LocalFs.filesAt, if_neg hj, if_neg fun he : j = k => hj (he ▸ hU.plain _ hk)]
  dir := hroot
  clear := hclear
  listed j rel hj hsome := by
    rw [hfile] at hsome
    by_cases he : root ++ (rootNames ws j ++ rel) = root ++ slotNames ws k
    · rw [rel_of_slotNames (hU.plain _ hk) hj (List.append_cancel_left he),
        ← (isPlain_iff.1 (isFilePath_iff.1 (hU.filePath hk)).1).1]
      exact hk
    · rw [if_neg he] at hsome
      exact h.listed j rel hj hsome

/-- A repository without files, at the root of the file system. -/
theorem rep_empty (hU : RepoPaths U) : Rep U [] ws ⟨.empty, []⟩ fun _ => none := by
  have hget : ∀ q, q ≠ [] → Tree.empty.get q = none := fun q hq => if_neg hq
  have hnone : ∀ q, Tree.empty.file q = none := fun q => by
    unfold Tree.file
    by_cases hq : q = []
    · rw [hq]
      rfl
    · rw [hget q hq]
  refine ⟨funext fun k => ?_, rfl, fun k hk => ⟨fun a _ _ => hnone _, fun hdir => ?_⟩, fun k rel _ hsome => ?_⟩
  · unfold filesAt
    rw [hnone, ite_self]
  · have hfile := @isFilePath_physical ws k (hU.filePath hk)
    rw [List.nil_append, hget _ (isPlain_iff.1 (isFilePath_iff.1 hfile).1).2.1] at hdir
    cases hdir
  · rw [hnone] at hsome
    cases hsome

/-! ## The contract -/

theorem readFile_ends {path : Text} (h : isFilePath path = true) (s : Local) : Ends (readFile root path) s
    (fun c s' => s' = s ∧ s.tree.file (root ++ components path) = some c)
    (fun _ s' => s' = s ∧ s.tree.file (root ++ components path) = none) := by
  have hplain := (isFilePath_iff.1 h).1
  have hto : ∀ p, follow s.tree (start root path) (components path) = some p → p = root ++ components path := by
    intro p hp
    rw [← resolve_of_isPlain hplain]
    exact follow_eq hp
  cases hfile : s.tree.file (root ++ components path) with
  | some c =>
    have hget := Tree.file_eq_some.1 hfile
    have hrun : readFile root path s = (.ok c, s) := by
      unfold readFile
      rw [follow_of_get h (by rw [hget]; rfl)]
      dsimp only
      rw [hget]
      dsimp only
      rw [if_pos (namesFile_of_isPlain hplain)]
    exact ends_of_ok hrun ⟨rfl, rfl⟩
  | none =>
    unfold Ends readFile
    cases hf : follow s.tree (start root path) (components path) with
    | none => exact ⟨rfl, rfl⟩
    | some p =>
      rw [hto p hf]
      dsimp only
      cases hget : s.tree.get (root ++ components path) with
      | none => exact ⟨rfl, rfl⟩
      | some n =>
        cases n with
        | dir => exact ⟨rfl, rfl⟩
        | file c => cases hfile.symm.trans (Tree.file_eq_some.2 hget)

theorem lists_nil (hk : s.tree.get (root ++ rootNames ws k) = none) :
    Lists [] (fun p => if isRepoPath p then s.tree.file (root ++ (rootNames ws k ++ components p)) else none) := by
  refine ⟨List.nodup_nil, fun p => ⟨fun hp => absurd hp List.not_mem_nil, fun hsome => ?_⟩⟩
  dsimp only at hsome
  split at hsome
  · rename_i hp
    obtain ⟨c, hc⟩ := Option.isSome_iff_exists.1 hsome
    have hdir : s.tree.get (root ++ rootNames ws k) = some .dir := by
      refine Tree.dir_above (components p) (isPlain_iff.1 (isFilePath_iff.1 (isRepoPath_iff.1 hp).1).1).2.1 ?_
      rw [List.append_assoc, Tree.file_eq_some.1 hc]
      rfl
    cases hk.symm.trans hdir
  · cases hsome

section Calls

variable (hU : RepoPaths U)
include hU

/-- What is at a path of `U`. -/
theorem Rep.file (h : Rep U root ws s V) (hk : U k.path) :
    s.tree.file (root ++ components (physical ws k.place)) = V k := by
  rw [components_physical (hU.filePath hk), ← h.files, LocalFs.filesAt, if_pos (hU.plain _ hk)]

theorem install_rep (h : Rep U root ws s V) (hk : U k.path) (c : Bytes) : Ends (install root (physical ws k.place) c) s
    (fun _ s' => Rep U root ws s' (V.set k (some c))) (fun _ _ => False) := by
  have hfile := @isFilePath_physical ws k (hU.filePath hk)
  have hplain := (isFilePath_iff.1 hfile).1
  have hfilled : Filled root (fun _ => some c) s [] s := filled_nil s
  refine (hfilled.install_ends h.dir (by simp) (by simp) hfile rfl).mono (fun _ s' hs => ?_) fun _ _ hn => hn (h.clear k hk)
  obtain ⟨hs, -⟩ := hs
  rw [List.nil_append] at hs
  refine h.change hU hk (fun q => ?_) ((hs.dirs root).2 (.inl h.dir)) fun j hj => ?_
  · rw [← components_physical (hU.filePath hk)]
    by_cases hq : q = root ++ components (physical ws k.place)
    · rw [if_pos hq, hq]
      exact hs.written _ (by simp)
    · rw [if_neg hq]
      exact hs.rest q fun p hp => by rw [List.mem_singleton.1 hp]; exact hq
  · refine (hs.clear_iff fun p hp => ?_).2 (h.clear j hj)
    rw [List.mem_singleton.1 hp]
    by_cases hjk : k = j
    · rw [hjk]
      exact fun _ => rfl
    · exact hU.besides hk hj hjk

theorem discard_rep (h : Rep U root ws s V) (hk : U k.path) : Ends (discard root (physical ws k.place)) s
    (fun _ s' => Rep U root ws s' (V.set k none)) (fun _ _ => False) := by
  have hfile := @isFilePath_physical ws k (hU.filePath hk)
  obtain ⟨s', hrun, hfiles, hdirs⟩ := discard_ok hfile (h.clear k hk).place
  rw [components_physical (hU.filePath hk)] at hfiles
  refine ends_of_ok hrun (h.change hU hk hfiles ((hdirs root).2 h.dir) fun j hj => ⟨fun a ha hne => ?_, fun hd => ?_⟩)
  · rw [hfiles]
    split
    · rfl
    · exact (h.clear j hj).above a ha hne
  · exact (h.clear j hj).place ((hdirs _).1 hd)

/-- What is listed has a path of `U`, which is written as it is. -/
theorem Rep.path_of_file (h : Rep U root ws s V) (hk : rootNames ws k ≠ []) {rel : List Name} {c : Bytes}
    (hc : s.tree.file (root ++ (rootNames ws k ++ rel)) = some c) :
    isRepoPath (joinNames rel) = true ∧ components (joinNames rel) = rel ∧ slashed (joinNames rel) = joinNames rel := by
  have hrepo := hU.plain _ (h.listed k rel hk (by rw [hc]; rfl))
  rw [← List.append_assoc] at hc
  exact ⟨hrepo, components_joinNames (Tree.isName_of_file hc), slashed_of_not_mem (isRepoPath_iff.1 hrepo).2.1⟩

theorem Rep.lists_below (h : Rep U root ws s V) (hk : rootNames ws k ≠ []) :
    Lists (env.dirOrder ((filesBelow (root ++ rootNames ws k) s.tree).map fun q => slashed (joinNames q.1)))
      (fun p => if isRepoPath p then s.tree.file (root ++ (rootNames ws k ++ components p)) else none) := by
  have hbelow : ∀ q ∈ filesBelow (root ++ rootNames ws k) s.tree,
      s.tree.file (root ++ (rootNames ws k ++ q.1)) = some q.2 := by
    rintro ⟨rel, c⟩ hq
    rw [mem_filesBelow, List.append_assoc] at hq
    exact hq
  refine ⟨(env.dirOrderPerm _).nodup_iff.2 ?_, fun p => ?_⟩
  · refine (nodup_filesBelow _ _).map_on fun q hq q' hq' he => ?_
    obtain ⟨-, hc, hs⟩ := h.path_of_file hU hk (hbelow q hq)
    obtain ⟨-, hc', hs'⟩ := h.path_of_file hU hk (hbelow q' hq')
    have hrel : q.1 = q'.1 := by rw [← hc, ← hs, he, hs', hc']
    refine Prod.ext hrel (Option.some.inj ?_)
    rw [← hbelow q hq, hrel, hbelow q' hq']
  · rw [(env.dirOrderPerm _).mem_iff, List.mem_map]
    dsimp only
    constructor
    · rintro ⟨q, hq, rfl⟩
      obtain ⟨hrepo, hc, hs⟩ := h.path_of_file hU hk (hbelow q hq)
      rw [hs, if_pos hrepo, hc, hbelow q hq]
      rfl
    · intro hsome
      split at hsome
      · rename_i hp
        obtain ⟨c, hc⟩ := Option.isSome_iff_exists.1 hsome
        refine ⟨(components p, c), ?_, ?_⟩
        · rw [mem_filesBelow, List.append_assoc]
          exact hc
        · rw [(h.path_of_file hU hk hc).2.2]
          exact (isPlain_iff.1 (isFilePath_iff.1 (isRepoPath_iff.1 hp).1).1).1.symm
      · cases hsome

theorem listRecursive_rep (env : Env) (h : Rep U root ws s V) (hk : rootNames ws k ≠ []) {f : Path → Slot}
    (hf : ∀ p, (f p).path = p ∧ rootNames ws (f p) = rootNames ws k) :
    Ends (listRecursive env root (joinNames (rootNames ws k))) s (fun l s' => s' = s ∧ Lists l (fun p => V (f p)))
      (fun _ _ => False) := by
  have hV : (fun p => V (f p)) =
      fun p => if isRepoPath p then s.tree.file (root ++ (rootNames ws k ++ components p)) else none := by
    funext p
    rw [← h.files, LocalFs.filesAt, slotNames, (hf p).1, (hf p).2]
  have hnames := rootNames_names ws k
  have hdir : isFilePath (joinNames (rootNames ws k)) = true := isFilePath_joinNames hnames hk
  have hcs : components (joinNames (rootNames ws k)) = rootNames ws k := components_joinNames fun c hc => (hnames c hc).1
  rw [hV]
  unfold Ends listRecursive
  cases hget : s.tree.get (root ++ rootNames ws k) with
  | none =>
    cases hfollow : follow s.tree (start root (joinNames (rootNames ws k))) (components (joinNames (rootNames ws k))) with
    | none => exact ⟨rfl, lists_nil hget⟩
    | some p =>
      have hp : p = resolve root (joinNames (rootNames ws k)) := follow_eq hfollow
      rw [resolve_of_isPlain (isFilePath_iff.1 hdir).1, hcs] at hp
      rw [hp]
      dsimp only
      rw [hget]
      exact ⟨rfl, lists_nil hget⟩
  | some n =>
    rw [follow_of_get hdir (by rw [hcs, hget]; rfl), hcs]
    dsimp only
    rw [hget]
    cases n with
    | dir => exact ⟨rfl, h.lists_below hU hk⟩
    | file c =>
      rw [← List.append_nil (rootNames ws k)] at hget
      have hrepo := (h.path_of_file hU hk (Tree.file_eq_some.2 hget)).1
      exact absurd rfl (isPlain_iff.1 (isFilePath_iff.1 (isRepoPath_iff.1 hrepo).1).1).2.1

/-- **At paths of which none lies above another, a repository is the map that the engine believes in.** -/
theorem diskMergeFs_contract : (diskMergeFs env root ws).ContractOn U (Rep U root ws) False where
  readFile {s V} h k hk := by
    show Ends (do let pl ← ofExcept id (resolveKey k.key); mapErr ioError (readFile root (physical ws pl))) s _ _
    rw [Slot.resolve_bind, ← h.file hU hk]
    refine ends_mapErr ((readFile_ends (isFilePath_physical (hU.filePath hk)) s).mono ?_ ?_)
    · rintro c s' ⟨rfl, hc⟩
      exact ⟨h, hc⟩
    · rintro e s' ⟨rfl, hn⟩
      exact ⟨h, .inr hn⟩
  writeFile {s V} h k c hk := by
    show Ends (do let pl ← ofExcept id (resolveKey k.key); mapErr ioError (install root (physical ws pl) c)) s _ _
    rw [Slot.resolve_bind]
    exact ends_mapErr (install_rep hU h hk c)
  deleteFile {s V} h k hk := by
    show Ends (do let pl ← ofExcept id (resolveKey k.key); mapErr ioError (discard root (physical ws pl))) s _ _
    rw [Slot.resolve_bind]
    exact ends_mapErr (discard_rep hU h hk)
  fileExists {s V} h k hk := by
    show Ends (do
      let pl ← ofExcept id (resolveKey k.key)
      Proc.read (fun st => fileExists root (physical ws pl) st.tree)) s _ _
    rw [Slot.resolve_bind, ← h.file hU hk]
    exact ends_read ⟨h, fileExists_eq (isFilePath_physical (hU.filePath hk)) (h.clear k hk).place⟩
  listOverlay {s V} h := by
    have hlist := listRecursive_rep hU env h (k := .overlay []) (by simp [rootNames]) (f := .overlay) fun _ => ⟨rfl, rfl⟩
    rw [← overlayDir_eq] at hlist
    show Ends (do
      let r ← ofExcept id (.ok .overlay)
      let l ← mapErr ioError (listRecursive env root (listedDir ws r))
      pure (l.map (r.keyPrefix ++ ·))) s _ _
    refine ends_bind (ends_pure (Ends.bind (ends_mapErr (E := fun _ _ => False) hlist) (fun _ _ h => h) ?_))
    rintro l s' ⟨rfl, hl⟩
    exact ends_pure ⟨h, l, rfl, hl⟩
  listSnapshot {s V} h n := by
    have hlist := listRecursive_rep hU env h (k := .snapshot n []) (by simp [rootNames]) (f := .snapshot n)
      fun _ => ⟨rfl, rfl⟩
    rw [← snapshotDir_eq] at hlist
    show Ends (do
      let r ← ofExcept id (resolvePrefix _ (snapshotPrefix (versionName n)))
      let l ← mapErr ioError (listRecursive env root (listedDir ws r))
      pure (l.map (r.keyPrefix ++ ·))) s _ _
    rw [resolvePrefix_snapshot (slash_not_mem_versionName n) (List.cons_ne_nil _ _)]
    refine ends_bind (ends_pure (Ends.bind (ends_mapErr (E := fun _ _ => False) hlist) (fun _ _ h => h) ?_))
    rintro l s' ⟨rfl, hl⟩
    exact ends_pure ⟨h, l, rfl, hl⟩

end Calls

end LocalFs
end Vai
