import Vai.PullFrame
import Vai.LocalPlain
/-!
# Unpack — a forced pull, file by file

`pull_force` reads the archive for its names, removes the files that are not among them, and reads the archive again to
unpack it.  The second read stops at the first entry that cannot be unpacked; what was unpacked before it stays
(`unpacked_files`).
-/
namespace Vai
namespace Remote

open Proc FilePath LocalFs

variable {env : ClientEnv} {adapter : RemoteAdapter} {root : List Name} {s s' : Local}

/-! ## Stale files -/

/-- No name has a NUL character, as in every file system. -/
def NulFree (t : Tree) : Prop := ∀ p c, t.file p = some c → ∀ name ∈ p, '\x00' ∉ name

/-- `remove_stale_local_files` removes what is there. -/
def isStale (root : List Name) (serverPaths : List Text) (p : List Name) : Bool :=
  root.isPrefixOf p && walked (p.drop root.length) && joinNames (p.drop root.length) ∉ serverPaths

theorem isStale_append {serverPaths : List Text} {rel : List Name} :
    isStale root serverPaths (root ++ rel) = (walked rel && joinNames rel ∉ serverPaths) := by
  unfold isStale
  rw [List.isPrefixOf_iff_prefix.2 (List.prefix_append root rel), List.drop_left, Bool.true_and]

theorem isStale_eq_true {serverPaths : List Text} {p : List Name} : isStale root serverPaths p = true ↔
    ∃ rel, p = root ++ rel ∧ walked rel = true ∧ joinNames rel ∉ serverPaths := by
  constructor
  · intro h
    have hpre : root <+: p := by
      unfold isStale at h
      rw [Bool.and_eq_true, Bool.and_eq_true, List.isPrefixOf_iff_prefix] at h
      exact h.1.1
    obtain ⟨rel, rfl⟩ := hpre
    rw [isStale_append, Bool.and_eq_true, decide_eq_true_iff] at h
    exact ⟨rel, rfl, h⟩
  · rintro ⟨rel, rfl, h⟩
    rw [isStale_append, Bool.and_eq_true, decide_eq_true_iff]
    exact h

theorem removeFile_joinNames {rel : List Name} {c : Bytes} (hfile : s.tree.file (root ++ rel) = some c)
    (hnul : ∀ name ∈ rel, '\x00' ∉ name) : Ends (removeFile root (joinNames rel)) s
      (fun _ s' => Put (root ++ rel) none s s') (fun _ _ => False) := by
  have hnames := Tree.isName_of_file hfile
  have hget := Tree.file_eq_some.1 hfile
  have hfollow : follow s.tree (start root (joinNames rel)) (components (joinNames rel)) = some (root ++ rel) := by
    unfold start
    rw [isAbsolute_joinNames hnames, components_joinNames hnames]
    refine follow_of_dirs (fun x hx => ⟨hnames x hx, hnul x hx⟩) fun a ha hne => ?_
    exact Tree.dir_of_prefix ((List.prefix_append_right_inj root).2 ha) (fun he => hne (List.append_cancel_left he))
      (by rw [hget]; rfl)
  have hthere : s.tree.get (root ++ rel) ≠ some .dir ∧ (s.tree.get (root ++ rel)).isSome := by
    rw [hget]
    exact ⟨(fun he => nomatch he), rfl⟩
  have hrun : removeFile root (joinNames rel) s =
      (.ok ⟨⟩, ⟨s.tree.remove _ hthere.1, s.touched ++ [root ++ rel]⟩) := by
    unfold removeFile
    rw [hfollow]
    exact dif_pos hthere
  have hremoved := (removeFile_ends root (joinNames rel) s).ok hrun
  rw [resolve_joinNames hnames] at hremoved
  exact ends_of_ok hrun hremoved.put

theorem staleRemovals_end (hnul : NulFree s.tree) {l : List (List Name × Bytes)} (hnodup : l.Nodup)
    (hl : ∀ q ∈ l, s.tree.file (root ++ q.1) = some q.2) :
    Ends ((l.map (fun q => joinNames q.1)).forM (fun path => mapErr RemoteError.io (removeFile root path))) s
      (fun _ s' => ∀ p, s'.tree.file p = if p ∈ l.map (fun q => root ++ q.1) then none else s.tree.file p)
      (fun _ _ => False) := by
  rw [List.forM_eq_forM, List.forM_map]
  refine ends_forM (fun pre s' => ∀ p, s'.tree.file p =
    if p ∈ pre.map (fun q => root ++ q.1) then none else s.tree.file p) l [] s (fun p => by simp) ?_
  intro pre q post s₁ hlist hs₁
  rw [List.nil_append] at hlist
  have hmem : q ∈ l := by rw [hlist]; simp
  have hpre : root ++ q.1 ∉ pre.map (fun q => root ++ q.1) := by
    intro h
    obtain ⟨q', hq', he⟩ := List.mem_map.1 h
    have hfst : q'.1 = q.1 := List.append_cancel_left he
    have hc := hl q' (by rw [hlist]; exact List.mem_append_left _ hq')
    rw [hfst, hl q hmem] at hc
    have heq : q' = q := Prod.ext hfst (Option.some.inj hc).symm
    rw [hlist, heq.symm] at hnodup
    exact (List.nodup_append.1 hnodup).2.2 q' hq' q' List.mem_cons_self rfl
  have hfile : s₁.tree.file (root ++ q.1) = some q.2 := by
    rw [hs₁, if_neg hpre]
    exact hl q hmem
  refine ends_mapErr ((removeFile_joinNames hfile fun name hname => ?_).mono (fun _ s₂ h p => ?_) fun _ _ h => h)
  · exact hnul _ _ (hl q hmem) name (List.mem_append_right _ hname)
  · rw [h.file p, hs₁ p, List.map_append, List.map_singleton]
    by_cases hp : p = root ++ q.1
    · simp [hp]
    · rw [if_neg hp]
      congr 1
      rw [List.mem_append, List.mem_singleton, or_iff_left hp]

/-- **The stale files go**, and nothing else. -/
theorem removeStale_ends (hnul : NulFree s.tree) (serverPaths : List Text) :
    Ends (removeStaleLocalFiles root serverPaths) s (fun _ s' => ∀ p, s'.tree.file p =
      if isStale root serverPaths p then none else s.tree.file p) (fun _ _ => False) := by
  refine ends_bind (ends_read ?_)
  refine (staleRemovals_end hnul ((nodup_filesBelow root s.tree).filter _) fun q hq => ?_).bind (fun _ _ h => h)
    fun _ s₁ h => ends_pure fun p => ?_
  · exact mem_filesBelow.1 (List.mem_filter.1 hq).1
  rw [h p]
  cases hfile : s.tree.file p with
  | none => simp
  | some c =>
    congr 1
    rw [eq_iff_iff, isStale_eq_true]
    constructor
    · intro hp
      obtain ⟨q, hq, rfl⟩ := List.mem_map.1 hp
      have hstale := (List.mem_filter.1 hq).2
      rw [Bool.and_eq_true, decide_eq_true_iff] at hstale
      exact ⟨q.1, rfl, hstale⟩
    · rintro ⟨rel, rfl, hstale⟩
      refine List.mem_map.2 ⟨(rel, c), List.mem_filter.2 ⟨mem_filesBelow.2 hfile, ?_⟩, rfl⟩
      rw [Bool.and_eq_true, decide_eq_true_iff]
      exact hstale

/-! ## Unpacking -/

/-- What an entry writes, when it is unpacked. -/
def unpacks (root : List Name) (entry : Except Text ArchiveEntry) : Option (List Name × Bytes) :=
  match entry with
  | .error _ => none
  | .ok entry =>
    match entry.path with
    | .error _ => none
    | .ok path => if entry.kind = .file then some (root ++ components path, entry.content) else none

/-- The entries before the first one that cannot be unpacked. -/
def unpackable (root : List Name) : List (Except Text ArchiveEntry) → Local → List (Except Text ArchiveEntry)
  | [], _ => []
  | entry :: l, s =>
    match extractEntry root [] entry s with
    | (.ok _, s') => entry :: unpackable root l s'
    | (.error _, _) => []

/-- What they write, the later ones winning. -/
def contents (root : List Name) (l : List (Except Text ArchiveEntry)) : FMap (List Name) Bytes :=
  FMap.ofList (l.filterMap (unpacks root))

theorem extractEntry_files (written : List Text) (entry : Except Text ArchiveEntry) (s : Local) :
    Ends (extractEntry root written entry) s
      (fun _ s' => ∀ p, s'.tree.file p = ((contents root [entry]).get p).or (s.tree.file p))
      (fun _ s' => ∀ p, s'.tree.file p = s.tree.file p) := by
  have hnone : ∀ e : Except Text ArchiveEntry, unpacks root e = none → ∀ p : List Name, (contents root [e]).get p = none := by
    intro e he p
    unfold contents
    rw [List.filterMap_cons, he]
    rfl
  unfold extractEntry
  cases entry with
  | error e => exact ends_fail fun _ => rfl
  | ok entry =>
    dsimp only
    by_cases hother : entry.kind = .other
    · rw [if_pos hother]
      refine ends_pure fun p => ?_
      rw [hnone _ (by unfold unpacks; dsimp only; split <;> simp [hother])]
      rfl
    rw [if_neg hother]
    cases hpath : entry.path with
    | error e => exact ends_fail fun _ => rfl
    | ok path =>
      dsimp only
      by_cases hsafe : unsafePath path = true
      · rw [if_pos hsafe]
        exact ends_fail fun _ => rfl
      rw [if_neg hsafe]
      have hresolve : resolve root path = root ++ components path := by
        unfold unsafePath at hsafe
        rw [Bool.or_eq_true, not_or, Bool.not_eq_true, decide_eq_true_iff] at hsafe
        exact resolve_of_plain hsafe.1 hsafe.2 root
      by_cases hdir : entry.kind = .dir
      · rw [if_pos hdir]
        refine ends_bind (ends_mapErr ((createDirAll_ends _ _ s).mono (fun _ s₁ h₁ => ends_pure fun p => ?_) fun _ _ h => h.file))
        rw [h₁.file p, hnone _ (by unfold unpacks; simp [hpath, hdir])]
        rfl
      rw [if_neg hdir]
      have hkind : entry.kind = .file := by
        cases hk : entry.kind with
        | file => rfl
        | dir => exact absurd hk hdir
        | other => exact absurd hk hother
      refine ends_bind (ends_mapErr ((createDirAll_ends _ _ s).mono (fun _ s₁ h₁ => ?_) fun _ _ h => h.file))
      refine ends_bind (ends_mapErr ((write_ends root path entry.content s₁).mono (fun _ s₂ h₂ => ends_pure fun p => ?_)
        fun _ s₂ h => ?_))
      · have hwrites : unpacks root (.ok entry) = some (root ++ components path, entry.content) := by
          unfold unpacks
          dsimp only
          rw [hpath]
          exact if_pos hkind
        rw [h₂.1.put.file p, hresolve]
        unfold contents
        rw [List.filterMap_cons, hwrites]
        show _ = ((FMap.ofList [(root ++ components path, entry.content)]).get p).or _
        unfold FMap.ofList
        rw [List.foldl_cons, List.foldl_nil, FMap.get_insert]
        by_cases hp : p = root ++ components path
        · rw [if_pos hp, if_pos hp]
          rfl
        · rw [if_neg hp, if_neg hp, h₁.file p]
          rfl
      · rw [h]
        exact h₁.file

theorem extractEntry_written (written : List Text) (entry : Except Text ArchiveEntry) (s : Local) :
    extractEntry root written entry s =
      ((extractEntry root [] entry s).1.map (fun l => written ++ l), (extractEntry root [] entry s).2) := by
  unfold extractEntry
  cases entry with
  | error e => rfl
  | ok entry =>
    dsimp only
    split
    · simp [Except.map, pure_apply]
    · cases entry.path with
      | error e => rfl
      | ok path =>
        dsimp only
        split
        · rfl
        · split
          · rw [bind_apply, bind_apply]
            rcases mapErr RemoteError.io (createDirAll root (components path)) s with ⟨_ | _, s₁⟩
            · rfl
            · simp [Except.map, pure_apply]
          · rw [bind_apply, bind_apply]
            rcases mapErr RemoteError.io (createDirAll root (components path).dropLast) s with ⟨_ | _, s₁⟩
            · rfl
            · dsimp only
              rw [bind_apply, bind_apply]
              rcases mapErr (fun _ => RemoteError.tarball ("cannot unpack '".toList ++ path ++ "'".toList))
                (write root path entry.content) s₁ with ⟨_ | _, s₂⟩
              · rfl
              · simp [Except.map, pure_apply]

theorem contents_cons (entry : Except Text ArchiveEntry) (l : List (Except Text ArchiveEntry)) (p : List Name) :
    (contents root (entry :: l)).get p = ((contents root l).get p).or ((contents root [entry]).get p) := by
  have happend : (entry :: l).filterMap (unpacks root) = [entry].filterMap (unpacks root) ++ l.filterMap (unpacks root) := by
    rw [← List.filterMap_append]
    rfl
  unfold contents
  rw [happend]
  unfold FMap.ofList
  rw [List.foldl_append, FMap.get_foldl_insert]
  rfl

/-- **What unpacking comes to**: the entries before the first one that cannot be unpacked, over the files that were
there. -/
theorem unpacked_files : ∀ (entries : List (Except Text ArchiveEntry)) (written : List Text) (s : Local),
    Ends (entries.foldlM (extractEntry root) written) s
      (fun _ s' => unpackable root entries s = entries ∧
        ∀ p, s'.tree.file p = ((contents root (unpackable root entries s)).get p).or (s.tree.file p))
      (fun _ s' => unpackable root entries s ≠ entries ∧
        ∀ p, s'.tree.file p = ((contents root (unpackable root entries s)).get p).or (s.tree.file p))
  | [], written, s => ends_pure ⟨rfl, fun p => rfl⟩
  | entry :: l, written, s => by
    have hentry := @extractEntry_files root [] entry s
    have hwritten := @extractEntry_written root written entry s
    rw [List.foldlM_cons]
    unfold unpackable
    rcases hrun : extractEntry root [] entry s with ⟨e | w, s₁⟩
    · rw [hrun] at hwritten
      refine ends_bind (ends_of_error hwritten ⟨fun h => (nomatch h), fun p => ?_⟩)
      rw [hentry.error hrun p]
      rfl
    · rw [hrun] at hwritten
      refine ends_bind_of_ok hwritten ((unpacked_files l _ s₁).mono (fun _ s' h => ⟨?_, fun p => ?_⟩)
        fun _ s' h => ⟨fun he => h.1 (List.cons.inj he).2, fun p => ?_⟩)
      · exact congrArg _ h.1
      all_goals
        dsimp only
        rw [h.2 p, hentry.ok hrun p, contents_cons entry (unpackable root l s₁)]
        cases (contents root (unpackable root l s₁)).get p <;> rfl

end Remote
end Vai
