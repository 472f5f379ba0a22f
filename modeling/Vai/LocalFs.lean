import Vai.FilePath
import Vai.FMap
import Vai.Proc
/-!
# LocalFs — a file system

A tree of directories and files, with the calls of `std::fs` that walk a path component by component: `create_dir_all`,
`write`, `exists`, `remove_file`.  Every name on the way has to be a directory, `..` included.  There are no links, and
no call fails but for what is in its way.

`touched` records the files that were created, overwritten or removed.
-/
namespace Vai
namespace LocalFs

open Proc FilePath

inductive Node where
  | dir
  | file (content : Bytes)
deriving DecidableEq, Repr

inductive FsError where
  | notFound | notADirectory | isADirectory | invalidInput
deriving DecidableEq, Repr

def nodeAt (nodes : FMap (List Name) Node) (p : List Name) : Option Node := if p = [] then some .dir else nodes.get p

/-- The root is a directory, and what exists lies in a directory and has a name. -/
structure Tree where
  nodes : FMap (List Name) Node
  closed : ∀ p, p ≠ [] → (nodeAt nodes p).isSome → nodeAt nodes p.dropLast = some .dir
  named : ∀ p, (nodeAt nodes p).isSome → ∀ c ∈ p, isName c = true

/-- The last step leads to a name. -/
def endsInName (p : List Name) : Bool := p.getLast?.any isName

theorem ne_nil_of_endsInName {p : List Name} (h : endsInName p = true) : p ≠ [] := by
  intro he
  rw [he] at h
  cases h

namespace Tree

def get (t : Tree) (p : List Name) : Option Node := nodeAt t.nodes p

/-- The content of a file. -/
def file (t : Tree) (p : List Name) : Option Bytes :=
  match t.get p with
  | some (.file c) => some c
  | _ => none

theorem file_eq_some {t : Tree} {p : List Name} {c : Bytes} : t.file p = some c ↔ t.get p = some (.file c) := by
  unfold file
  cases t.get p with
  | none => simp
  | some n => cases n <;> simp

theorem dropLast_ne {p : List Name} (hp : p ≠ []) : p.dropLast ≠ p := by
  intro h
  have hlen := congrArg List.length h
  have := List.length_pos_iff.2 hp
  rw [List.length_dropLast] at hlen
  omega

theorem nodeAt_insert (nodes : FMap (List Name) Node) {p : List Name} (hp : p ≠ []) (n : Node) (q : List Name) :
    nodeAt (nodes.insert p n) q = if q = p then some n else nodeAt nodes q := by
  unfold nodeAt
  by_cases hq : q = []
  · subst hq
    rw [if_pos rfl, if_pos rfl, if_neg hp.symm]
  · rw [if_neg hq, if_neg hq]
    exact FMap.get_insert nodes p n q

theorem named_of_dropLast {t : Tree} {p : List Name} (hp : endsInName p = true) (hdir : t.get p.dropLast = some .dir) :
    ∀ c ∈ p, isName c = true := by
  have hne := ne_nil_of_endsInName hp
  intro c hc
  rw [← List.dropLast_append_getLast hne, List.mem_append, List.mem_singleton] at hc
  rcases hc with hc | rfl
  · exact t.named p.dropLast (by rw [show nodeAt t.nodes p.dropLast = some .dir from hdir]; rfl) c hc
  · unfold endsInName at hp
    rw [List.getLast?_eq_some_getLast hne] at hp
    exact hp

/-- A new node in a directory, or another content of a file. -/
def insert (t : Tree) (p : List Name) (n : Node) (hp : endsInName p = true) (hdir : t.get p.dropLast = some .dir)
    (hkind : t.get p = some .dir → n = .dir) : Tree where
  nodes := t.nodes.insert p n
  closed q hq hsome := by
    rw [nodeAt_insert _ (ne_nil_of_endsInName hp)] at hsome ⊢
    by_cases hqp : q = p
    · rw [hqp, if_neg (dropLast_ne (ne_nil_of_endsInName hp))]
      exact hdir
    · rw [if_neg hqp] at hsome
      have hparent := t.closed q hq hsome
      by_cases hd : q.dropLast = p
      · rw [if_pos hd, hkind (hd ▸ hparent)]
      · rw [if_neg hd]
        exact hparent
  named q hsome := by
    rw [nodeAt_insert _ (ne_nil_of_endsInName hp)] at hsome
    by_cases hqp : q = p
    · rw [hqp]
      exact named_of_dropLast hp hdir
    · rw [if_neg hqp] at hsome
      exact t.named q hsome

theorem get_insert (t : Tree) (p : List Name) (n : Node) (hp : endsInName p = true) (hdir : t.get p.dropLast = some .dir)
    (hkind : t.get p = some .dir → n = .dir) (q : List Name) :
    (t.insert p n hp hdir hkind).get q = if q = p then some n else t.get q :=
  nodeAt_insert t.nodes (ne_nil_of_endsInName hp) n q

theorem nodeAt_erase (nodes : FMap (List Name) Node) {p : List Name} (hp : p ≠ []) (q : List Name) :
    nodeAt (nodes.erase p) q = if q = p then none else nodeAt nodes q := by
  unfold nodeAt
  by_cases hq : q = []
  · subst hq
    rw [if_pos rfl, if_pos rfl, if_neg hp.symm]
  · rw [if_neg hq, if_neg hq]
    exact FMap.get_erase nodes p q

theorem ne_nil_of_get {t : Tree} {p : List Name} (h : t.get p ≠ some .dir) : p ≠ [] := by
  intro he
  rw [he] at h
  exact h rfl

/-- The tree without a file. -/
def remove (t : Tree) (p : List Name) (h : t.get p ≠ some .dir) : Tree where
  nodes := t.nodes.erase p
  closed q hq hsome := by
    rw [nodeAt_erase _ (ne_nil_of_get h)] at hsome ⊢
    by_cases hqp : q = p
    · rw [if_pos hqp] at hsome
      cases hsome
    · rw [if_neg hqp] at hsome
      have hparent := t.closed q hq hsome
      by_cases hd : q.dropLast = p
      · rw [hd] at hparent
        exact absurd hparent h
      · rw [if_neg hd]
        exact hparent
  named q hsome := by
    rw [nodeAt_erase _ (ne_nil_of_get h)] at hsome
    by_cases hqp : q = p
    · rw [if_pos hqp] at hsome
      cases hsome
    · rw [if_neg hqp] at hsome
      exact t.named q hsome

theorem get_remove (t : Tree) (p : List Name) (h : t.get p ≠ some .dir) (q : List Name) :
    (t.remove p h).get q = if q = p then none else t.get q :=
  nodeAt_erase t.nodes (ne_nil_of_get h) q

theorem nodeAt_filter (nodes : FMap (List Name) Node) {p : List Name} (hp : p ≠ []) (q : List Name) :
    nodeAt (FMap.filter nodes fun q _ => !p.isPrefixOf q) q = if p <+: q then none else nodeAt nodes q := by
  unfold nodeAt
  by_cases hq : q = []
  · subst hq
    rw [if_pos rfl, if_pos rfl, if_neg fun h => hp (List.prefix_nil.1 h)]
  · rw [if_neg hq, if_neg hq]
    apply Option.ext
    intro n
    rw [FMap.get_filter]
    by_cases h : p <+: q
    · simp [h]
    · have hb : p.isPrefixOf q = false := by
        rw [← Bool.not_eq_true, List.isPrefixOf_iff_prefix]
        exact h
      simp [h, hb]

/-- The tree without a directory and what is below it. -/
def prune (t : Tree) (p : List Name) (hp : p ≠ []) : Tree where
  nodes := FMap.filter t.nodes fun q _ => !p.isPrefixOf q
  closed q hq hsome := by
    rw [nodeAt_filter _ hp] at hsome ⊢
    by_cases h : p <+: q
    · rw [if_pos h] at hsome
      cases hsome
    · rw [if_neg h] at hsome
      rw [if_neg fun hd => h (hd.trans (List.dropLast_prefix q))]
      exact t.closed q hq hsome
  named q hsome := by
    rw [nodeAt_filter _ hp] at hsome
    by_cases h : p <+: q
    · rw [if_pos h] at hsome
      cases hsome
    · rw [if_neg h] at hsome
      exact t.named q hsome

theorem get_prune (t : Tree) (p : List Name) (hp : p ≠ []) (q : List Name) :
    (t.prune p hp).get q = if p <+: q then none else t.get q := nodeAt_filter t.nodes hp q

def empty : Tree where
  nodes := ∅
  closed p hp h := by
    unfold nodeAt at h
    rw [if_neg hp] at h
    cases h
  named p h := by
    unfold nodeAt at h
    split at h
    · rename_i hp
      subst hp
      exact fun _ hc => absurd hc List.not_mem_nil
    · cases h

end Tree

/-- The files below a directory, by their names from there. -/
def filesBelow (root : List Name) (t : Tree) : List (List Name × Bytes) :=
  t.nodes.keys.filterMap (fun p =>
    if root.isPrefixOf p then (t.file p).map (fun c => (p.drop root.length, c)) else none)

theorem mem_filesBelow {root rel : List Name} {t : Tree} {c : Bytes} :
    (rel, c) ∈ filesBelow root t ↔ t.file (root ++ rel) = some c := by
  unfold filesBelow
  rw [List.mem_filterMap]
  constructor
  · rintro ⟨p, -, hp⟩
    by_cases hpre : root <+: p
    · obtain ⟨rel', rfl⟩ := hpre
      rw [if_pos (List.isPrefixOf_iff_prefix.2 (List.prefix_append _ _)), List.drop_left] at hp
      obtain ⟨c', hc', he⟩ := Option.map_eq_some_iff.1 hp
      cases he
      exact hc'
    · rw [if_neg fun h => hpre (List.isPrefixOf_iff_prefix.1 h)] at hp
      cases hp
  · intro hfile
    refine ⟨root ++ rel, ?_, ?_⟩
    · have hget := Tree.file_eq_some.1 hfile
      unfold Tree.get nodeAt at hget
      by_cases hnil : root ++ rel = []
      · rw [if_pos hnil] at hget
        cases hget
      · rw [if_neg hnil] at hget
        exact FMap.mem_keys.2 (by rw [hget]; rfl)
    · rw [if_pos (List.isPrefixOf_iff_prefix.2 (List.prefix_append _ _)), hfile, List.drop_left]
      rfl

theorem nodup_filesBelow (root : List Name) (t : Tree) : (filesBelow root t).Nodup := by
  refine t.nodes.keys_nodup.filterMap fun p p' q hq hq' => ?_
  have hrel : ∀ p q, (if root.isPrefixOf p then (t.file p).map (fun c => (p.drop root.length, c)) else none) = some q →
      p = root ++ q.1 := by
    intro p q h
    split at h
    · rename_i hpre
      obtain ⟨rel, rfl⟩ := List.isPrefixOf_iff_prefix.1 hpre
      obtain ⟨c, -, rfl⟩ := Option.map_eq_some_iff.1 h
      rw [List.drop_left]
    · cases h
  rw [hrel p q hq, hrel p' q hq']

theorem Tree.isName_of_file {t : Tree} {root rel : List Name} {c : Bytes} (h : t.file (root ++ rel) = some c) :
    ∀ x ∈ rel, isName x = true := fun x hx =>
  t.named (root ++ rel) (by rw [show nodeAt t.nodes (root ++ rel) = _ from Tree.file_eq_some.1 h]; rfl) x
    (List.mem_append_right _ hx)

structure Local where
  tree : Tree
  touched : List (List Name)

/-! ## Calls -/

/-- Where the steps of a path lead; all but the last name have to be directories. -/
def follow (t : Tree) : List Name → List Name → Option (List Name)
  | dir, [] => some dir
  | dir, c :: cs => if t.get dir = some .dir ∧ '\x00' ∉ c then follow t (step dir c) cs else none

/-- The directory that a path starts from. -/
def start (root : List Name) (s : Text) : List Name := if isAbsolute s then [] else root

/-- The last name is that of a file: neither empty nor `.` or `..`. -/
def namesFile (s : Text) : Bool :=
  match (s.splitOn '/').getLast? with
  | some c => c ≠ [] ∧ c ≠ dot ∧ c ≠ dotDot
  | none => false

def mkdir (p : List Name) : Proc Local FsError PUnit := fun s =>
  if s.tree.get p = some .dir then (.ok ⟨⟩, s)
  else if h : s.tree.get p = none ∧ endsInName p = true ∧ s.tree.get p.dropLast = some .dir then
    (.ok ⟨⟩, { s with tree := s.tree.insert p .dir h.2.1 h.2.2 fun _ => rfl })
  else (.error .notADirectory, s)

/-- `create_dir_all`, one name after the other. -/
def createDirAll : List Name → List Name → Proc Local FsError PUnit
  | _, [] => pure ⟨⟩
  | dir, c :: cs =>
    if '\x00' ∈ c then fail .invalidInput
    else do
      mkdir (step dir c)
      createDirAll (step dir c) cs

def write (root : List Name) (s : Text) (content : Bytes) : Proc Local FsError PUnit := fun st =>
  match follow st.tree (start root s) (components s) with
  | none => (.error .notFound, st)
  | some p =>
    if h : (namesFile s = true ∧ endsInName p = true) ∧ st.tree.get p.dropLast = some .dir ∧ st.tree.get p ≠ some .dir then
      (.ok ⟨⟩, ⟨st.tree.insert p (.file content) h.1.2 h.2.1 (fun hd => absurd hd h.2.2), st.touched ++ [p]⟩)
    else (.error .isADirectory, st)

/-- `Path::exists`; a path that does not end in a name leads to directories only. -/
def fileExists (root : List Name) (s : Text) (t : Tree) : Bool :=
  match follow t (start root s) (components s) with
  | none => false
  | some p =>
    match t.get p with
    | some .dir => true
    | some (.file _) => namesFile s
    | none => false

def removeFile (root : List Name) (s : Text) : Proc Local FsError PUnit := fun st =>
  match follow st.tree (start root s) (components s) with
  | none => (.error .notFound, st)
  | some p =>
    if h : st.tree.get p ≠ some .dir ∧ (st.tree.get p).isSome then (.ok ⟨⟩, ⟨st.tree.remove p h.1, st.touched ++ [p]⟩)
    else (.error .isADirectory, st)

/-- The files at and below a path. -/
def filesUnder (p : List Name) (t : Tree) : List (List Name) :=
  (t.nodes.pairs.filter (fun q => p.isPrefixOf q.1 && q.2 ≠ .dir)).map Prod.fst

def removeDirAll (p : List Name) : Proc Local FsError PUnit := fun s =>
  if h : p ≠ [] ∧ s.tree.get p = some .dir then (.ok ⟨⟩, ⟨s.tree.prune p h.1, s.touched ++ filesUnder p s.tree⟩)
  else (.error .notADirectory, s)

/-- A file with the directories above it. -/
def install (root : List Name) (s : Text) (content : Bytes) : Proc Local FsError PUnit := do
  createDirAll (start root s) (components s).dropLast
  write root s content

/-- `if dest.exists() { remove_file(dest)? }`. -/
def discard (root : List Name) (s : Text) : Proc Local FsError PUnit := do
  if ← Proc.read (fun st => fileExists root s st.tree) then removeFile root s else pure ⟨⟩

/-- A tree with the files of a list, by their absolute paths. -/
def planted (files : List (Text × Bytes)) : Tree :=
  ((files.forM (fun q => install [] q.1 q.2) : Proc Local FsError PUnit) ⟨.empty, []⟩).2.tree

/-! ## What they do -/

theorem follow_cons (t : Tree) (dir : List Name) (c : Name) (cs : List Name) :
    follow t dir (c :: cs) = if t.get dir = some .dir ∧ '\x00' ∉ c then follow t (step dir c) cs else none := rfl

theorem follow_eq {t : Tree} : ∀ {cs dir p : List Name}, follow t dir cs = some p → p = walk dir cs
  | [], _, _, h => (Option.some.inj h).symm
  | c :: cs, dir, p, h => by
    rw [follow_cons] at h
    split at h
    · have := follow_eq h
      exact this
    · cases h

/-- Directories are made where nothing was, and nothing else happens. -/
structure Dug (s s' : Local) : Prop where
  touched : s'.touched = s.touched
  grown : ∀ q, s'.tree.get q = s.tree.get q ∨ s.tree.get q = none ∧ s'.tree.get q = some .dir

theorem dug_refl (s : Local) : Dug s s := ⟨rfl, fun _ => .inl rfl⟩

theorem Dug.trans {s s' s'' : Local} (h : Dug s s') (h' : Dug s' s'') : Dug s s'' := by
  refine ⟨h'.touched.trans h.touched, fun q => ?_⟩
  rcases h.grown q with hq | ⟨hnone, hdir⟩
  · rcases h'.grown q with hq' | ⟨hnone', hdir'⟩
    · exact .inl (hq'.trans hq)
    · exact .inr ⟨hq ▸ hnone', hdir'⟩
  · rcases h'.grown q with hq' | ⟨hnone', -⟩
    · exact .inr ⟨hnone, hq'.trans hdir⟩
    · rw [hdir] at hnone'
      cases hnone'

theorem Dug.file {s s' : Local} (h : Dug s s') (q : List Name) : s'.tree.file q = s.tree.file q := by
  unfold Tree.file
  rcases h.grown q with hq | ⟨hnone, hdir⟩
  · rw [hq]
  · rw [hnone, hdir]

theorem Dug.dir {s s' : Local} (h : Dug s s') {q : List Name} (hq : s.tree.get q = some .dir) :
    s'.tree.get q = some .dir := by
  rcases h.grown q with he | ⟨hnone, hdir⟩
  · rw [he]
    exact hq
  · exact hdir

theorem mkdir_ends (p : List Name) (s : Local) : Ends (mkdir p) s (fun _ s' => Dug s s' ∧ s'.tree.get p = some .dir)
    (fun _ s' => s' = s) := by
  by_cases hdir : s.tree.get p = some .dir
  · exact ends_of_ok (if_pos hdir) ⟨dug_refl s, hdir⟩
  by_cases h : s.tree.get p = none ∧ endsInName p = true ∧ s.tree.get p.dropLast = some .dir
  · refine ends_of_ok ((if_neg hdir).trans (dif_pos h)) ⟨⟨rfl, fun q => ?_⟩, ?_⟩
    · dsimp only
      rw [Tree.get_insert]
      by_cases hq : q = p
      · rw [hq]
        exact .inr ⟨h.1, if_pos rfl⟩
      · exact .inl (if_neg hq)
    · dsimp only
      rw [Tree.get_insert, if_pos rfl]
  · exact ends_of_error ((if_neg hdir).trans (dif_neg h)) rfl

theorem createDirAll_ends : ∀ (cs dir : List Name) (s : Local),
    Ends (createDirAll dir cs) s (fun _ s' => Dug s s') (fun _ s' => Dug s s')
  | [], _, s => ends_pure (dug_refl s)
  | c :: cs, dir, s => by
    unfold createDirAll
    split
    · exact ends_fail (dug_refl s)
    · refine (mkdir_ends (step dir c) s).bind (fun _ _ h => h ▸ dug_refl s) fun _ s₁ h₁ => ?_
      exact (createDirAll_ends cs (step dir c) s₁).mono (fun _ _ h => h₁.1.trans h) fun _ _ h => h₁.1.trans h

/-- What a write leaves. -/
structure Wrote (p : List Name) (c : Bytes) (s s' : Local) : Prop where
  touched : s'.touched = s.touched ++ [p]
  get : ∀ q, s'.tree.get q = if q = p then some (.file c) else s.tree.get q

theorem write_ends (root : List Name) (s : Text) (content : Bytes) (st : Local) : Ends (write root s content) st
    (fun _ st' => Wrote (resolve root s) content st st' ∧ st.tree.get (resolve root s) ≠ some .dir) (fun _ st' => st' = st) := by
  cases hf : follow st.tree (start root s) (components s) with
  | none =>
    refine ends_of_error (e := .notFound) ?_ rfl
    unfold write
    rw [hf]
  | some p =>
    have hp : p = resolve root s := follow_eq hf
    by_cases h : (namesFile s = true ∧ endsInName p = true) ∧ st.tree.get p.dropLast = some .dir ∧ st.tree.get p ≠ some .dir
    · have hrun : write root s content st = (.ok ⟨⟩,
          ⟨st.tree.insert p (.file content) h.1.2 h.2.1 (fun hd => absurd hd h.2.2), st.touched ++ [p]⟩) := by
        unfold write
        rw [hf]
        exact dif_pos h
      rw [← hp]
      exact ends_of_ok hrun ⟨⟨rfl, Tree.get_insert _ _ _ h.1.2 h.2.1 fun hd => absurd hd h.2.2⟩, h.2.2⟩
    · refine ends_of_error (e := .isADirectory) ?_ rfl
      unfold write
      rw [hf]
      exact dif_neg h

/-- A removal of a file that exists, or nothing. -/
structure Removed (p : List Name) (s s' : Local) : Prop where
  touched : s'.touched = s.touched ++ [p]
  was : (s.tree.file p).isSome
  get : ∀ q, s'.tree.get q = if q = p then none else s.tree.get q

theorem removeFile_ends (root : List Name) (s : Text) (st : Local) : Ends (removeFile root s) st
    (fun _ st' => Removed (resolve root s) st st') (fun _ st' => st' = st) := by
  cases hf : follow st.tree (start root s) (components s) with
  | none =>
    refine ends_of_error (e := .notFound) ?_ rfl
    unfold removeFile
    rw [hf]
  | some p =>
    have hp : p = resolve root s := follow_eq hf
    by_cases h : st.tree.get p ≠ some .dir ∧ (st.tree.get p).isSome
    · have hrun : removeFile root s st = (.ok ⟨⟩, ⟨st.tree.remove p h.1, st.touched ++ [p]⟩) := by
        unfold removeFile
        rw [hf]
        exact dif_pos h
      rw [← hp]
      refine ends_of_ok hrun ⟨rfl, ?_, Tree.get_remove _ _ h.1⟩
      obtain ⟨n, hn⟩ := Option.isSome_iff_exists.1 h.2
      cases n with
      | dir => exact absurd hn h.1
      | file c => rw [Tree.file_eq_some.2 hn]; rfl
    · refine ends_of_error (e := .isADirectory) ?_ rfl
      unfold removeFile
      rw [hf]
      exact dif_neg h

/-! ## Files with their directories -/

/-- Only the content of the file `p` is another one. -/
structure Put (p : List Name) (o : Option Bytes) (s s' : Local) : Prop where
  touched : s'.touched = s.touched ++ [p]
  file : ∀ q, s'.tree.file q = if q = p then o else s.tree.file q

/-- No file is another one. -/
structure Same (s s' : Local) : Prop where
  touched : s'.touched = s.touched
  file : ∀ q, s'.tree.file q = s.tree.file q

theorem Wrote.put {p : List Name} {c : Bytes} {s s' : Local} (h : Wrote p c s s') : Put p (some c) s s' := by
  refine ⟨h.touched, fun q => ?_⟩
  unfold Tree.file
  rw [h.get q]
  by_cases hq : q = p
  · rw [if_pos hq, if_pos hq]
  · rw [if_neg hq, if_neg hq]

theorem Removed.put {p : List Name} {s s' : Local} (h : Removed p s s') : Put p none s s' := by
  refine ⟨h.touched, fun q => ?_⟩
  unfold Tree.file
  rw [h.get q]
  by_cases hq : q = p
  · rw [if_pos hq, if_pos hq]
  · rw [if_neg hq, if_neg hq]

theorem install_ends (root : List Name) (s : Text) (content : Bytes) (st : Local) : Ends (install root s content) st
    (fun _ st' => Put (resolve root s) (some content) st st') (fun _ st' => Same st st') := by
  refine (createDirAll_ends _ _ st).bind (fun _ _ h => ⟨h.touched, h.file⟩) fun _ st₁ h₁ => ?_
  refine (write_ends root s content st₁).mono (fun _ st' h => ⟨?_, fun q => ?_⟩) fun _ st' h => ?_
  · rw [h.1.touched, h₁.touched]
  · rw [h.1.put.file q, h₁.file q]
  · rw [h]
    exact ⟨h₁.touched, h₁.file⟩

/-- A file that exists is removed; a directory makes the call fail. -/
theorem discard_ends (root : List Name) (s : Text) (st : Local) : Ends (discard root s) st
    (fun _ st' => st' = st ∨ (st.tree.file (resolve root s)).isSome ∧ Put (resolve root s) none st st')
    (fun _ st' => st' = st) := by
  refine ends_bind (ends_read ?_)
  split
  · exact (removeFile_ends root s st).mono (fun _ _ h => .inr ⟨h.was, h.put⟩) fun _ _ h => h
  · exact ends_pure (.inl rfl)

/-! ## What the calls keep

A property of the files alone (`hsame`) that the change of one file does not break (`hput`). -/

section Keep

variable {I : Local → Prop} {root : List Name} {path : Text} {content : Bytes}

theorem Dug.same {s s' : Local} (h : Dug s s') : Same s s' := ⟨h.touched, h.file⟩

theorem keeps_createDirAll (hsame : ∀ s s', I s → Same s s' → I s') (dir cs : List Name) : Keeps I (createDirAll dir cs) :=
  keeps_iff_ends.2 fun s hs => (createDirAll_ends cs dir s).mono (fun _ s' h => hsame s s' hs h.same)
    fun _ s' h => hsame s s' hs h.same

theorem keeps_write (hput : ∀ s s', I s → Put (resolve root path) (some content) s s' → I s') :
    Keeps I (write root path content) :=
  keeps_iff_ends.2 fun s hs => (write_ends root path content s).mono (fun _ s' h => hput s s' hs h.1.put) fun _ _ h => h ▸ hs

theorem keeps_install (hsame : ∀ s s', I s → Same s s' → I s')
    (hput : ∀ s s', I s → Put (resolve root path) (some content) s s' → I s') : Keeps I (install root path content) :=
  (keeps_createDirAll hsame _ _).bind fun _ => keeps_write hput

theorem keeps_removeFile (hput : ∀ s s', I s → Put (resolve root path) none s s' → I s') : Keeps I (removeFile root path) :=
  keeps_iff_ends.2 fun s hs => (removeFile_ends root path s).mono (fun _ s' h => hput s s' hs h.put) fun _ _ h => h ▸ hs

theorem keeps_discard (hput : ∀ s s', I s → (s.tree.file (resolve root path)).isSome →
    Put (resolve root path) none s s' → I s') : Keeps I (discard root path) := by
  refine keeps_iff_ends.2 fun s hs => (discard_ends root path s).mono (fun _ s' h => ?_) fun _ _ h => h ▸ hs
  rcases h with rfl | ⟨hfile, h⟩
  · exact hs
  · exact hput s s' hs hfile h

end Keep

/-! ## Runs that stay in a place -/

/-- Files were touched in `H` only, and elsewhere they are as in `s₀`. -/
structure Confined (H : List Name → Prop) (s₀ s : Local) : Prop where
  touched : ∀ p ∈ s.touched, H p
  rest : ∀ q, ¬ H q → s.tree.file q = s₀.tree.file q

section Confined

variable {H : List Name → Prop} {s₀ s s' : Local} {root : List Name} {path : Text}

theorem Confined.same (h : Confined H s₀ s) (hs : Same s s') : Confined H s₀ s' :=
  ⟨by rw [hs.touched]; exact h.touched, fun q hq => (hs.file q).trans (h.rest q hq)⟩

theorem Confined.put (h : Confined H s₀ s) {p : List Name} {o : Option Bytes} (hs : Put p o s s') (hp : H p) :
    Confined H s₀ s' := by
  refine ⟨fun q hq => ?_, fun q hq => ?_⟩
  · rw [hs.touched, List.mem_append, List.mem_singleton] at hq
    rcases hq with hq | rfl
    · exact h.touched q hq
    · exact hp
  · rw [hs.file q]
    by_cases hqp : q = p
    · exact absurd (hqp ▸ hp) hq
    · rw [if_neg hqp]
      exact h.rest q hq

theorem confined_createDirAll (dir cs : List Name) : Keeps (Confined H s₀) (createDirAll dir cs) :=
  keeps_createDirAll (fun _ _ h hs => h.same hs) dir cs

theorem confined_write {content : Bytes} (h : H (resolve root path)) : Keeps (Confined H s₀) (write root path content) :=
  keeps_write fun _ _ hs hput => hs.put hput h

theorem confined_install {content : Bytes} (h : H (resolve root path)) : Keeps (Confined H s₀) (install root path content) :=
  keeps_install (fun _ _ hs hsame => hs.same hsame) fun _ _ hs hput => hs.put hput h

theorem confined_removeFile (h : H (resolve root path)) : Keeps (Confined H s₀) (removeFile root path) :=
  keeps_removeFile fun _ _ hs hput => hs.put hput h

theorem confined_discard (h : H (resolve root path) ∨ s₀.tree.file (resolve root path) = none) :
    Keeps (Confined H s₀) (discard root path) := by
  refine keeps_discard fun s s' hs hfile hput => ?_
  by_cases hH : H (resolve root path)
  · exact hs.put hput hH
  · rw [hs.rest _ hH, h.resolve_left hH] at hfile
    cases hfile

theorem mem_filesUnder {p q : List Name} {t : Tree} (h : q ∈ filesUnder p t) : p <+: q := by
  unfold filesUnder at h
  obtain ⟨⟨q', n⟩, hmem, rfl⟩ := List.mem_map.1 h
  have := (List.mem_filter.1 hmem).2
  rw [Bool.and_eq_true, List.isPrefixOf_iff_prefix] at this
  exact this.1

theorem confined_removeDirAll {p : List Name} (h : ∀ q, p <+: q → H q) : Keeps (Confined H s₀) (removeDirAll p) := by
  intro s hs
  unfold removeDirAll
  split
  · rename_i hp
    refine ⟨fun q hq => ?_, fun q hq => ?_⟩
    · rcases List.mem_append.1 hq with hq | hq
      · exact hs.touched q hq
      · exact h q (mem_filesUnder hq)
    · rw [← hs.rest q hq]
      unfold Tree.file
      dsimp only
      rw [Tree.get_prune, if_neg fun hpre => hq (h q hpre)]
  · exact hs

end Confined

/-- The files that were touched since then. -/
def touchedSince (s₀ s : Local) : List (List Name) := s.touched.drop s₀.touched.length

theorem touchedSince_same {s₀ s s' : Local} (h : Same s s') : touchedSince s₀ s' = touchedSince s₀ s := by
  unfold touchedSince
  rw [h.touched]

theorem mem_touchedSince_put {s₀ s s' : Local} {p q : List Name} {o : Option Bytes} (h : Put p o s s')
    (hq : q ∈ touchedSince s₀ s') : q ∈ touchedSince s₀ s ∨ q = p := by
  unfold touchedSince at hq ⊢
  rw [h.touched, List.drop_append, List.mem_append] at hq
  exact hq.imp_right fun hmem => List.mem_singleton.1 (List.mem_of_mem_drop hmem)

/-! ## What may happen to a file -/

/-- Files are created in `N`, get another content in `W` and are removed in `R`. -/
structure Framed (N W R : List Name → Prop) (s₀ s : Local) : Prop where
  creates : ∀ p, s₀.tree.file p = none → (s.tree.file p).isSome → N p
  changes : ∀ p c c', s₀.tree.file p = some c → s.tree.file p = some c' → c' ≠ c → W p
  removes : ∀ p c, s₀.tree.file p = some c → s.tree.file p = none → R p

section Framed

variable {N W R : List Name → Prop} {s₀ s s' : Local} {root : List Name} {path : Text}

theorem framed_refl (s : Local) : Framed N W R s s := by
  refine ⟨fun p hnone hsome => ?_, fun p c c' h h' hne => ?_, fun p c h hnone => ?_⟩
  · rw [hnone] at hsome
    cases hsome
  · rw [h] at h'
    exact absurd (Option.some.inj h').symm hne
  · rw [h] at hnone
    cases hnone

theorem Framed.same (h : Framed N W R s₀ s) (hs : Same s s') : Framed N W R s₀ s' := by
  refine ⟨fun p => ?_, fun p => ?_, fun p => ?_⟩ <;> rw [hs.file p]
  · exact h.creates p
  · exact h.changes p
  · exact h.removes p

/-- A file is written where that is allowed. -/
theorem Framed.put (h : Framed N W R s₀ s) {p : List Name} {c : Bytes} (hs : Put p (some c) s s')
    (hN : s₀.tree.file p = none → N p) (hW : (s₀.tree.file p).isSome → W p) : Framed N W R s₀ s' := by
  refine ⟨fun q => ?_, fun q c₀ c' => ?_, fun q => ?_⟩ <;> rw [hs.file q] <;> by_cases hq : q = p
  · rw [if_pos hq, hq]
    exact fun hnone _ => hN hnone
  · rw [if_neg hq]
    exact h.creates q
  · rw [if_pos hq, hq]
    intro hsome _ _
    apply hW
    rw [hsome]
    rfl
  · rw [if_neg hq]
    exact h.changes q c₀ c'
  · rw [if_pos hq]
    intro c _ he
    cases he
  · rw [if_neg hq]
    exact h.removes q

theorem Framed.drop (h : Framed N W R s₀ s) {p : List Name} (hs : Put p none s s') (hp : R p) : Framed N W R s₀ s' := by
  refine ⟨fun q => ?_, fun q c₀ c' => ?_, fun q c₀ => ?_⟩ <;> rw [hs.file q] <;> by_cases hq : q = p
  · rw [if_pos hq]
    intro _ he
    cases he
  · rw [if_neg hq]
    exact h.creates q
  · rw [if_pos hq]
    intro _ he
    cases he
  · rw [if_neg hq]
    exact h.changes q c₀ c'
  · rw [hq]
    exact fun _ _ => hp
  · rw [if_neg hq]
    exact h.removes q c₀

theorem framed_createDirAll (dir cs : List Name) : Keeps (Framed N W R s₀) (createDirAll dir cs) :=
  keeps_createDirAll (fun _ _ h hs => h.same hs) dir cs

theorem framed_write {content : Bytes} (hN : s₀.tree.file (resolve root path) = none → N (resolve root path))
    (hW : (s₀.tree.file (resolve root path)).isSome → W (resolve root path)) :
    Keeps (Framed N W R s₀) (write root path content) := keeps_write fun _ _ hs hput => hs.put hput hN hW

theorem framed_install {content : Bytes} (hN : s₀.tree.file (resolve root path) = none → N (resolve root path))
    (hW : (s₀.tree.file (resolve root path)).isSome → W (resolve root path)) :
    Keeps (Framed N W R s₀) (install root path content) := (framed_createDirAll _ _).bind fun _ => framed_write hN hW

theorem framed_discard (h : R (resolve root path)) : Keeps (Framed N W R s₀) (discard root path) :=
  keeps_discard fun _ _ hs _ hput => hs.drop hput h

end Framed

/-! ## What a run has touched -/

/-- Later on: directories are still there, and a file is another one only where it was touched. -/
structure Later (s s' : Local) : Prop where
  touched : s.touched <+: s'.touched
  dirs : ∀ q, s.tree.get q = some .dir → s'.tree.get q = some .dir
  files : ∀ q, s'.tree.file q = s.tree.file q ∨ q ∈ s'.touched

/-- The path leads to a file that is there. -/
structure LeadsToFile (root : List Name) (path : Text) (t : Tree) : Prop where
  follows : follow t (start root path) (components path) = some (resolve root path)
  file : (t.file (resolve root path)).isSome
  named : namesFile path = true

section Later

variable {s s' s'' : Local} {root : List Name} {path : Text}

theorem later_refl (s : Local) : Later s s := ⟨List.prefix_rfl, fun _ h => h, fun _ => .inl rfl⟩

theorem Later.mem (h : Later s s') {p : List Name} (hp : p ∈ s.touched) : p ∈ s'.touched := h.touched.subset hp

theorem Later.trans (h : Later s s') (h' : Later s' s'') : Later s s'' := by
  refine ⟨h.touched.trans h'.touched, fun q hq => h'.dirs q (h.dirs q hq), fun q => ?_⟩
  rcases h'.files q with hq' | hq'
  · rcases h.files q with hq | hq
    · exact .inl (hq'.trans hq)
    · exact .inr (h'.mem hq)
  · exact .inr hq'

theorem Dug.later (h : Dug s s') : Later s s' :=
  ⟨h.touched ▸ List.prefix_rfl, fun _ hq => h.dir hq, fun q => .inl (h.file q)⟩

theorem Put.later {p : List Name} {o : Option Bytes} (h : Put p o s s')
    (hdirs : ∀ q, s.tree.get q = some .dir → s'.tree.get q = some .dir) : Later s s' := by
  refine ⟨?_, hdirs, fun q => ?_⟩
  · rw [h.touched]
    exact List.prefix_append _ _
  · by_cases hq : q = p
    · rw [hq, h.touched]
      exact .inr (List.mem_append_right _ (List.mem_singleton.2 rfl))
    · exact .inl ((h.file q).trans (if_neg hq))

theorem write_later {content : Bytes} (s : Local) : Ends (write root path content) s
    (fun _ s' => Later s s' ∧ resolve root path ∈ s'.touched) (fun _ s' => Later s s') := by
  refine (write_ends root path content s).mono (fun _ s' h => ⟨h.1.put.later fun q hq => ?_, ?_⟩)
    fun _ s' h => h ▸ later_refl s
  · rw [h.1.get q]
    by_cases hp : q = resolve root path
    · rw [hp] at hq
      exact absurd hq h.2
    · rw [if_neg hp]
      exact hq
  · rw [h.1.touched]
    exact List.mem_append_right _ (List.mem_singleton.2 rfl)

theorem install_later {content : Bytes} (s : Local) : Ends (install root path content) s
    (fun _ s' => Later s s' ∧ resolve root path ∈ s'.touched) (fun _ s' => Later s s') :=
  (createDirAll_ends _ _ s).bind (fun _ _ h => h.later) fun _ s₁ h₁ =>
    (write_later s₁).mono (fun _ _ h => ⟨h₁.later.trans h.1, h.2⟩) fun _ _ h => h₁.later.trans h

theorem follow_mono {t t' : Tree} (h : ∀ q, t.get q = some .dir → t'.get q = some .dir) :
    ∀ {cs dir p : List Name}, follow t dir cs = some p → follow t' dir cs = some p
  | [], _, _, hf => hf
  | c :: cs, dir, p, hf => by
    rw [follow_cons] at hf ⊢
    by_cases hc : t.get dir = some .dir ∧ '\x00' ∉ c
    · rw [if_pos hc] at hf
      rw [if_pos ⟨h dir hc.1, hc.2⟩]
      exact follow_mono h hf
    · rw [if_neg hc] at hf
      cases hf

/-- A file that a path led to earlier is touched, or the path still leads to it. -/
theorem LeadsToFile.later (h : LeadsToFile root path s.tree) (hs : Later s s') :
    LeadsToFile root path s'.tree ∨ resolve root path ∈ s'.touched := by
  rcases hs.files (resolve root path) with hf | hf
  · exact .inl ⟨follow_mono hs.dirs h.follows, hf ▸ h.file, h.named⟩
  · exact .inr hf

theorem discard_of_leads (h : LeadsToFile root path s.tree) : ∃ s', discard root path s = (.ok ⟨⟩, s') ∧
    Removed (resolve root path) s s' := by
  obtain ⟨c, hc⟩ := Option.isSome_iff_exists.1 h.file
  have hget := Tree.file_eq_some.1 hc
  have hexists : fileExists root path s.tree = true := by
    unfold fileExists
    rw [h.follows]
    dsimp only
    rw [hget]
    exact h.named
  have hne : s.tree.get (resolve root path) ≠ some .dir ∧ (s.tree.get (resolve root path)).isSome := by
    rw [hget]
    exact ⟨(fun he => by cases he), rfl⟩
  have hrun : removeFile root path s =
      (.ok ⟨⟩, ⟨s.tree.remove _ hne.1, s.touched ++ [resolve root path]⟩) := by
    unfold removeFile
    rw [h.follows]
    exact dif_pos hne
  refine ⟨_, ?_, (removeFile_ends root path s).ok hrun⟩
  unfold discard
  rw [bind_of_ok (read_apply _ s), hexists]
  exact hrun

theorem discard_later (s : Local) : Ends (discard root path) s
    (fun _ s' => Later s s' ∧ (LeadsToFile root path s.tree → resolve root path ∈ s'.touched)) (fun _ s' => Later s s') := by
  have hlater : Ends (discard root path) s (fun _ s' => Later s s') (fun _ s' => Later s s') := by
    refine ends_bind (ends_read ?_)
    split
    · refine (removeFile_ends root path s).mono (fun _ s' h => h.put.later fun q hq => ?_) fun _ _ h => h ▸ later_refl s
      rw [h.get q]
      by_cases hp : q = resolve root path
      · have := h.was
        unfold Tree.file at this
        rw [← hp, hq] at this
        cases this
      · rw [if_neg hp]
        exact hq
    · exact ends_pure (later_refl s)
  by_cases hl : LeadsToFile root path s.tree
  · obtain ⟨s', hrun, hremoved⟩ := discard_of_leads hl
    refine ends_of_ok hrun ⟨hlater.ok hrun, fun _ => ?_⟩
    rw [hremoved.touched]
    exact List.mem_append_right _ (List.mem_singleton.2 rfl)
  · exact hlater.mono (fun _ _ h => ⟨h, fun h' => absurd h' hl⟩) fun _ _ h => h

theorem Later.touchedSince {s₀ : Local} (h : Later s s') {p : List Name} (hp : p ∈ touchedSince s₀ s) :
    p ∈ touchedSince s₀ s' := by
  obtain ⟨new, hnew⟩ := h.touched
  unfold LocalFs.touchedSince at hp ⊢
  rw [← hnew, List.drop_append]
  exact List.mem_append_left _ hp

theorem Put.touchedSince {s₀ : Local} {p : List Name} {o : Option Bytes} (h : Put p o s s') (hs : Later s₀ s) :
    p ∈ touchedSince s₀ s' := by
  unfold LocalFs.touchedSince
  rw [h.touched, List.drop_append_of_le_length hs.touched.length_le]
  exact List.mem_append_right _ (List.mem_singleton.2 rfl)

/-! A procedure that only goes on keeps `Later`. -/

theorem later_createDirAll (dir cs : List Name) : Keeps (Later s) (createDirAll dir cs) :=
  keeps_iff_ends.2 fun s₁ h₁ => (createDirAll_ends cs dir s₁).mono (fun _ _ h => h₁.trans h.later) fun _ _ h => h₁.trans h.later

theorem later_write (root : List Name) (path : Text) (content : Bytes) : Keeps (Later s) (write root path content) :=
  keeps_iff_ends.2 fun s₁ h₁ => (write_later s₁).mono (fun _ _ h => h₁.trans h.1) fun _ _ h => h₁.trans h

/-- A loop that only goes on, and does something at each element that no later step undoes. -/
theorem foldlM_later {ε α β : Type} {f : β → α → Proc Local ε β} {T : α → Local → Prop}
    (hmono : ∀ a s s', T a s → Later s s' → T a s') : ∀ {l : List α} {s₁ : Local} (b : β),
      (∀ a ∈ l, ∀ b s₂, Later s s₂ → Ends (f b a) s₂ (fun _ s' => Later s₂ s' ∧ T a s') (fun _ _ => True)) → Later s s₁ →
      Ends (l.foldlM f b) s₁ (fun _ s' => Later s₁ s' ∧ ∀ a ∈ l, T a s') (fun _ _ => True)
  | [], s₁, b, _, _ => ends_pure ⟨later_refl s₁, fun _ h => absurd h List.not_mem_nil⟩
  | a :: l, s₁, b, hstep, hs => by
    rw [List.foldlM_cons]
    refine (hstep a List.mem_cons_self b s₁ hs).bind (fun _ _ h => h) fun b' s₂ h₂ => ?_
    refine (foldlM_later hmono b' (fun x hx => hstep x (List.mem_cons_of_mem a hx)) (hs.trans h₂.1)).mono
      (fun _ s' h => ⟨h₂.1.trans h.1, fun x hx => ?_⟩) fun _ _ h => h
    rcases List.mem_cons.1 hx with rfl | hx
    · exact hmono x s₂ s' h₂.2 h.1
    · exact h.2 x hx

theorem forM_later {ε α : Type} {f : α → Proc Local ε PUnit} {T : α → Local → Prop}
    (hmono : ∀ a s s', T a s → Later s s' → T a s') : ∀ {l : List α} {s₁ : Local},
      (∀ a ∈ l, ∀ s₂, Later s s₂ → Ends (f a) s₂ (fun _ s' => Later s₂ s' ∧ T a s') (fun _ _ => True)) → Later s s₁ →
      Ends (l.forM f) s₁ (fun _ s' => Later s₁ s' ∧ ∀ a ∈ l, T a s') (fun _ _ => True)
  | [], s₁, _, _ => ends_pure ⟨later_refl s₁, fun _ h => absurd h List.not_mem_nil⟩
  | a :: l, s₁, hstep, hs => by
    refine Ends.bind (hstep a List.mem_cons_self s₁ hs) (fun _ _ h => h) fun _ s₂ h₂ => ?_
    refine (forM_later hmono (fun x hx => hstep x (List.mem_cons_of_mem a hx)) (hs.trans h₂.1)).mono
      (fun _ s' h => ⟨h₂.1.trans h.1, fun x hx => ?_⟩) fun _ _ h => h
    rcases List.mem_cons.1 hx with rfl | hx
    · exact hmono x s₂ s' h₂.2 h.1
    · exact h.2 x hx

end Later

end LocalFs
end Vai
