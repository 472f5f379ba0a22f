import Vai.Chronicle
/-!
# PullSpec — what a pull and a historical download read

When nothing fails, a pull reports each path that the workspaces merged since then have an event for, as their last
event says (`filesPullHandler_spec`), and a download holds the blobs of the last hashes (`buildFileMapAtVersion_spec`).
-/
namespace Vai
namespace Handlers

open Proc Backend Replay

variable {env : Env} {b : Backend} {n : Nat}

/-! ## Queries -/

theorem orderById_filter (h : Numbered b) (q : Event → Bool) : orderById (b.events.filter q) = b.events.filter q :=
  List.Pairwise.insertionSort_eq ((h.sorted.filter q).imp fun h => Nat.le_of_lt h)

theorem queryByType_merges (h : Numbered b) :
    queryByType Fails.none "MergeCompleted".toList b = (.ok (mergeLog b), b) := by
  show (Except.ok (orderById (b.events.filter (fun e => e.kind.eventType = "MergeCompleted".toList))), b) = _
  rw [orderById_filter h]
  have : (fun e : Event => decide (e.kind.eventType = "MergeCompleted".toList)) = fun e => isMerge e.kind := by
    funext e
    rw [Bool.eq_iff_iff, decide_eq_true_eq, eventType_eq_merge]
  rw [this]
  rfl

theorem workspaceId_of_entry {e : Event} {a : LogEntry Uuid Path (Option Text)} (h : entryOf e = some a) :
    e.kind.workspaceId = some a.owner := by
  unfold entryOf at h
  split at h
  all_goals cases h
  all_goals simp only [EventKind.workspaceId, *]

/-- The file events of some workspaces. -/
def fileEvents (b : Backend) (ids : List Uuid) : List Event :=
  b.events.filter (fun e => (entryOf e).any (fun a => a.owner ∈ ids))

theorem querySinceIdFiltered_files (h : Numbered b) {ids : List Uuid} (hids : ids ≠ []) :
    querySinceIdFiltered Fails.none 0 fileEventTypes ids b = (.ok (fileEvents b ids), b) := by
  show (Except.ok (orderById (b.events.filter (fun e => 0 < e.id && e.kind.eventType ∈ fileEventTypes &&
    (ids.isEmpty || e.kind.workspaceId.any (· ∈ ids))))), b) = _
  rw [orderById_filter h]
  refine congrArg (fun l => (Except.ok l, b)) (List.filter_congr fun e he => ?_)
  have hpos : decide (0 < e.id) = true := decide_eq_true (h.bound e he).1
  have hempty : ids.isEmpty = false := by
    cases ids with
    | nil => exact absurd rfl hids
    | cons _ _ => rfl
  rw [hpos, hempty, Bool.true_and, Bool.false_or]
  have htype := eventType_mem_files e
  cases hent : entryOf e with
  | none =>
    rw [hent] at htype
    rw [decide_eq_false (fun hm => by cases htype.1 hm)]
    rfl
  | some a =>
    rw [hent] at htype
    rw [decide_eq_true (htype.2 rfl), workspaceId_of_entry hent]
    rfl

theorem mem_sortDedup {ids : List Uuid} {i : Uuid} : i ∈ sortDedup ids ↔ i ∈ ids := by
  unfold sortDedup
  rw [List.mem_dedup, List.mem_insertionSort]

/-- In a log in the order of its ids, a merge event is found under its id. -/
theorem workspaceOf_sorted {events : List Event} (h : events.Pairwise (fun e f => e.id < f.id)) {e : Event}
    (he : e ∈ events) (hm : isMerge e.kind = true) :
    workspaceOf (events.filter (fun e => isMerge e.kind)) e.id = e.kind.workspaceId := by
  have hmem : e ∈ events.filter (fun e => isMerge e.kind) := List.mem_filter.2 ⟨he, hm⟩
  have hnodup : (events.map Event.id).Nodup := List.pairwise_map.2 (h.imp fun h => Nat.ne_of_lt h)
  unfold workspaceOf
  cases hf : (events.filter (fun e => isMerge e.kind)).find? (fun f => f.id = e.id) with
  | none =>
    have := List.find?_eq_none.1 hf e hmem
    simp at this
  | some f =>
    have hid := List.find?_some hf
    rw [decide_eq_true_eq] at hid
    rw [List.inj_on_of_nodup_map hnodup (List.mem_of_mem_filter (List.mem_of_find?_eq_some hf)) he hid]
    rfl

theorem workspaceOf_mem (h : Numbered b) {e : Event} (he : e ∈ mergeLog b) :
    workspaceOf (mergeLog b) e.id = e.kind.workspaceId :=
  workspaceOf_sorted h.sorted (List.mem_filter.1 he).1 (List.mem_filter.1 he).2

theorem filterMap_workspaceOf (h : Numbered b) {l : List Event} (hl : ∀ e ∈ l, e ∈ mergeLog b) :
    (l.map Event.id).filterMap (workspaceOf (mergeLog b)) = l.filterMap (fun e => e.kind.workspaceId) := by
  rw [List.filterMap_map]
  exact List.filterMap_congr fun e he => workspaceOf_mem h (hl e he)

theorem filterMap_ne_nil {l : List Event} (hl : ∀ e ∈ l, e ∈ mergeLog b) (hne : l ≠ []) :
    l.filterMap (fun e => e.kind.workspaceId) ≠ [] := by
  cases l with
  | nil => exact absurd rfl hne
  | cons e l =>
    have hmerge := List.of_mem_filter (hl e List.mem_cons_self)
    have hsome : ∃ w, e.kind.workspaceId = some w := by
      unfold isMerge at hmerge
      cases hk : e.kind <;> rw [hk] at hmerge <;> first | exact ⟨_, rfl⟩ | cases hmerge
    obtain ⟨w, hw⟩ := hsome
    rw [List.filterMap_cons, hw]
    exact List.cons_ne_nil _ _

/-! ## Versions -/

theorem castVersion_versionName {v : VersionMeta} (h : v.versionId = versionName n) : castVersion v = some n := by
  unfold castVersion
  rw [h]
  exact Text.parseNat_ofNat n

theorem Chronicle.length_versions (h : Chronicle b) : b.versions.length = headNumber b := by
  have := congrArg List.length h.versions
  rwa [List.length_map, List.length_cons, List.length_mapIdx] at this

theorem Chronicle.version_at (h : Chronicle b) {i : Nat} (hi : i < b.versions.length) :
    b.versions[i].versionId = versionName (i + 1) := by
  have hlen := h.length_versions
  unfold headNumber at hlen
  have hat := congrArg (fun l => (l[i]?).map Prod.fst) h.versions
  simp only [List.getElem?_map, List.getElem?_eq_getElem hi, Option.map_some] at hat
  cases i with
  | zero => simpa using hat
  | succ k => simpa [show k < (mergeLog b).length by omega] using hat

theorem Chronicle.mergeEventIds (h : Chronicle b) :
    b.versions.map VersionMeta.mergeEventId = none :: (mergeLog b).map (fun e => some e.id) := by
  have hsnd := congrArg (List.map Prod.snd) h.versions
  have hidx : ((mergeLog b).mapIdx (fun k e => (versionName (k + 2), some e.id))).map Prod.snd =
      (mergeLog b).map (fun e => some e.id) := List.ext_getElem (by simp) fun i h₁ h₂ => by simp
  rw [List.map_map, List.map_cons, hidx] at hsnd
  exact hsnd

theorem listVersionsSince_drop (h : Chronicle b) (n : Nat) :
    listVersionsSince Fails.none n (headNumber b) b = (.ok (b.versions.drop n), b) := by
  have hcast : ∀ i (hi : i < b.versions.length), castVersion b.versions[i] = some (i + 1) := fun i hi =>
    castVersion_versionName (h.version_at hi)
  have hall : b.versions.all (fun v => (castVersion v).isSome) = true := by
    rw [List.all_eq_true]
    intro v hv
    obtain ⟨i, hi, rfl⟩ := List.mem_iff_getElem.1 hv
    rw [hcast]
    rfl
  have hdb : Backend.db Fails.none .listVersions b = (.ok (), b) := rfl
  unfold listVersionsSince
  rw [bind_of_ok hdb, bind_of_ok (read_apply _ b), hall, if_pos rfl, read_apply]
  refine congrArg (fun l => (Except.ok l, b)) ?_
  have hlen := h.length_versions
  have hfilter : b.versions.filter (fun v => (castVersion v).any (fun k => n < k && k ≤ headNumber b)) = b.versions.drop n := by
    conv => lhs; rw [← List.take_append_drop n b.versions]
    rw [List.filter_append, List.filter_eq_nil_iff.2, List.nil_append, List.filter_eq_self.2]
    · intro v hv
      obtain ⟨i, hi, rfl⟩ := List.mem_drop_iff_getElem.1 hv
      rw [hcast, Option.any_some, Bool.and_eq_true, decide_eq_true_eq, decide_eq_true_eq]
      omega
    · intro v hv
      obtain ⟨i, hi, rfl⟩ := List.mem_take_iff_getElem.1 hv
      rw [hcast, Option.any_some, Bool.and_eq_true, decide_eq_true_eq]
      omega
  rw [hfilter]
  refine List.Pairwise.insertionSort_eq (List.Pairwise.drop (List.pairwise_iff_getElem.2 fun i j hi hj hij => ?_))
  rw [hcast i hi, hcast j hj, Option.getD_some, Option.getD_some]
  omega

/-- The merge events of the versions after `v{n}`. -/
theorem Chronicle.mergeEventIds_drop (h : Chronicle b) (h₁ : 1 ≤ n) :
    (b.versions.drop n).filterMap VersionMeta.mergeEventId = ((mergeLog b).drop (n - 1)).map Event.id := by
  obtain ⟨k, rfl⟩ : ∃ k, n = k + 1 := ⟨n - 1, by omega⟩
  have hmap : ((b.versions.drop (k + 1)).map VersionMeta.mergeEventId).filterMap id =
      (b.versions.drop (k + 1)).filterMap VersionMeta.mergeEventId := by
    rw [List.filterMap_map]
    rfl
  rw [← hmap, List.map_drop, h.mergeEventIds, List.drop_succ_cons, ← List.map_drop, List.filterMap_map]
  exact congrFun List.filterMap_eq_map _

theorem Chronicle.mergeEventIds_take (h : Chronicle b) (h₁ : 1 ≤ n) :
    (b.versions.reverse.filter (fun v => parseVersionNumber v.versionId ≤ n)).filterMap VersionMeta.mergeEventId =
      (((mergeLog b).take (n - 1)).map Event.id).reverse := by
  obtain ⟨k, rfl⟩ : ∃ k, n = k + 1 := ⟨n - 1, by omega⟩
  have hfilter : b.versions.filter (fun v => parseVersionNumber v.versionId ≤ k + 1) = b.versions.take (k + 1) := by
    conv => lhs; rw [← List.take_append_drop (k + 1) b.versions]
    rw [List.filter_append, List.filter_eq_self.2, List.filter_eq_nil_iff.2, List.append_nil]
    · intro v hv
      obtain ⟨i, hi, rfl⟩ := List.mem_drop_iff_getElem.1 hv
      rw [h.version_at, parseVersionNumber_versionName, decide_eq_true_eq]
      omega
    · intro v hv
      obtain ⟨i, hi, rfl⟩ := List.mem_take_iff_getElem.1 hv
      rw [h.version_at, parseVersionNumber_versionName, decide_eq_true_eq]
      omega
  have hmap : ((b.versions.take (k + 1)).map VersionMeta.mergeEventId).filterMap id =
      (b.versions.take (k + 1)).filterMap VersionMeta.mergeEventId := by
    rw [List.filterMap_map]
    rfl
  rw [List.filter_reverse, List.filterMap_reverse, hfilter, ← hmap, List.map_take, h.mergeEventIds, List.take_succ_cons,
    ← List.map_take]
  refine congrArg List.reverse ?_
  rw [List.filterMap_cons, List.filterMap_map]
  exact congrFun List.filterMap_eq_map _

/-! ## A pull -/

/-- What a pull reports of a path, from the last word on it. -/
inductive Tells : Option (Option Text) → Option ChangeState → Prop where
  | same : Tells none none
  | removed : Tells (some none) (some .removed)
  | added (hash : Text) : Tells (some (some hash)) (some .added)
  | modified (hash : Text) : Tells (some (some hash)) (some .modified)

theorem foldChange_step (m : FMap Path ChangeState) (e : Event) (a : LogEntry Uuid Path (Option Text))
    (he : entryOf e = some a) : (∀ p, p ≠ a.key → (foldChange m e).get p = m.get p) ∧
      Tells (some a.value) ((foldChange m e).get a.key) := by
  obtain ⟨id, kind⟩ := e
  cases kind with
  | fileAdded w p hash =>
    cases he
    exact ⟨fun q hq => by simp [foldChange, FMap.get_insert, hq], by simp [foldChange, FMap.get_insert, Tells.added]⟩
  | fileModified w p old hash =>
    cases he
    dsimp only [foldChange]
    split
    · rename_i hadded
      exact ⟨fun _ _ => rfl, by rw [hadded]; exact .added _⟩
    · exact ⟨fun q hq => by simp [FMap.get_insert, hq], by simp [FMap.get_insert, Tells.modified]⟩
  | fileRemoved w p =>
    cases he
    exact ⟨fun q hq => by simp [foldChange, FMap.get_insert, hq], by simp [foldChange, FMap.get_insert, Tells.removed]⟩
  | _ => cases he

theorem tells_changes (b : Backend) (ids : List Uuid) (p : Path) :
    Tells (latest ids p (fileLog b)) (((fileEvents b ids).foldl foldChange ∅).get p) :=
  get_replayed .same foldChange_step ids p b.events

/-- The entry of a path in the response. -/
def entryFor (b : Backend) (changes : FMap Path ChangeState) (p : Path) : Option PullFileEntry :=
  (changes.get p).map fun state => ⟨p, state, if state = .removed then none else b.current p⟩

theorem get_none (i : Nat) (key : Text) (b : Backend) : ∃ r, Backend.get Fails.none i key b = (r, b) ∧
    r.toOption = b.store.get key := by
  have hfiles : Backend.files Fails.none i (.get key) b = (.ok (), b) := rfl
  unfold Backend.get
  rw [bind_of_ok hfiles, bind_of_ok (read_apply _ b)]
  cases b.store.get key <;> exact ⟨_, rfl, rfl⟩

theorem attempt_get_none (i : Nat) (key : Text) (b : Backend) : ∃ r,
    attempt (mapErr ApiError.ofStorage (Backend.get Fails.none i key)) b = (.ok r, b) ∧ r.toOption = b.store.get key := by
  obtain ⟨r, hr, ho⟩ := get_none i key b
  refine ⟨r.mapError ApiError.ofStorage, ?_, ?_⟩
  · rw [attempt_apply]
    unfold mapErr
    rw [hr]
    cases r <;> rfl
  · rw [← ho]
    cases r <;> rfl

theorem pullEntry_apply (changes : FMap Path ChangeState) (q : Path × Nat) (b : Backend) :
    pullEntry Fails.none changes q b = (.ok (entryFor b changes q.1), b) := by
  have hread : ∀ state, state ≠ .removed → (do
      let content ← attempt (mapErr ApiError.ofStorage (Backend.get Fails.none q.2 (currentKey q.1)))
      pure (some (⟨q.1, state, content.toOption⟩ : PullFileEntry)) : Proc Backend ApiError _) b =
        (.ok (some ⟨q.1, state, if state = .removed then none else b.current q.1⟩), b) := by
    intro state hs
    obtain ⟨r, hr, ho⟩ := attempt_get_none q.2 (currentKey q.1) b
    rw [bind_of_ok hr, ho, if_neg hs]
    rfl
  unfold pullEntry entryFor
  cases changes.get q.1 with
  | none => rfl
  | some state =>
    cases state with
    | removed => rfl
    | added => exact hread .added (by decide)
    | modified => exact hread .modified (by decide)

theorem pullEntries_apply (changes : FMap Path ChangeState) (b : Backend) : ∀ (l : List (Path × Nat))
    (files : List PullFileEntry), l.foldlM (pullEntries Fails.none changes) files b =
      (.ok (files ++ (l.map Prod.fst).filterMap (entryFor b changes)), b)
  | [], files => by
    rw [List.map_nil, List.filterMap_nil, List.append_nil]
    rfl
  | q :: l, files => by
    have hq : pullEntries Fails.none changes files q b = (.ok (files ++ (entryFor b changes q.1).toList), b) := by
      unfold pullEntries
      rw [bind_of_ok (pullEntry_apply changes q b)]
      rfl
    rw [List.foldlM_cons, bind_of_ok hq, pullEntries_apply changes b l, List.append_assoc, List.map_cons,
      List.filterMap_cons]
    cases entryFor b changes q.1 <;> rfl

/-- The files of a response: each path once, as the last word of the merged workspaces says, and all paths they have a
word on. -/
structure Reported (b : Backend) (ids : List Uuid) (files : List PullFileEntry) : Prop where
  nodup : (files.map PullFileEntry.path).Nodup
  told : ∀ f ∈ files, Tells (latest ids f.path (fileLog b)) (some f.changeType) ∧
    f.content = if f.changeType = .removed then none else b.current f.path
  listed : ∀ p, latest ids p (fileLog b) ≠ none → ∃ f ∈ files, f.path = p

theorem reported_nil (b : Backend) : Reported b [] [] := by
  exact ⟨.nil, fun _ h => absurd h List.not_mem_nil, fun p h => absurd (latest_no_owners p _) h⟩

theorem reported_entries (env : Env) (b : Backend) {ids ids' : List Uuid} (hids : ∀ i, i ∈ ids ↔ i ∈ ids')
    {changes : FMap Path ChangeState} (hc : changes = (fileEvents b ids).foldl foldChange ∅) :
    Reported b ids' (((env.hashOrder changes.keys).filterMap (entryFor b changes)).insertionSort
      (fun f g => f.path ≤ g.path)) := by
  have htells : ∀ p, Tells (latest ids' p (fileLog b)) (changes.get p) := fun p => by
    rw [← latest_congr hids, hc]
    exact tells_changes b ids p
  have hperm := List.perm_insertionSort (fun f g : PullFileEntry => f.path ≤ g.path)
    ((env.hashOrder changes.keys).filterMap (entryFor b changes))
  constructor
  · refine (hperm.map _).nodup_iff.2 ?_
    have hpath : ((env.hashOrder changes.keys).filterMap (entryFor b changes)).map PullFileEntry.path =
        env.hashOrder changes.keys := by
      rw [List.map_filterMap]
      conv => rhs; rw [← List.filterMap_some (l := env.hashOrder changes.keys)]
      refine List.filterMap_congr fun p hp => ?_
      rw [Env.mem_hashOrder, FMap.mem_keys] at hp
      obtain ⟨state, hs⟩ := Option.isSome_iff_exists.1 hp
      unfold entryFor
      rw [hs]
      rfl
    rw [hpath]
    exact (env.hashOrderPerm _).nodup_iff.2 changes.keys_nodup
  · intro f hf
    obtain ⟨p, -, hp⟩ := List.mem_filterMap.1 (hperm.mem_iff.1 hf)
    obtain ⟨state, hs, rfl⟩ := Option.map_eq_some_iff.1 hp
    exact ⟨hs ▸ htells p, rfl⟩
  · intro p hp
    have hsome : ∃ state, changes.get p = some state := by
      have := htells p
      cases hg : changes.get p with
      | some state => exact ⟨state, rfl⟩
      | none =>
        rw [hg] at this
        generalize latest ids' p (fileLog b) = o at this hp
        cases this
        exact absurd rfl hp
    obtain ⟨state, hs⟩ := hsome
    refine ⟨⟨p, state, if state = .removed then none else b.current p⟩, hperm.mem_iff.2 (List.mem_filterMap.2 ⟨p, ?_, ?_⟩), rfl⟩
    · rw [Env.mem_hashOrder, FMap.mem_keys, hs]
      rfl
    · unfold entryFor
      rw [hs]
      rfl

/-- **A pull** since a version of the repository reports what the workspaces merged since then have done. -/
theorem filesPullHandler_spec (env : Env) (h : Chronicle b) (h₁ : 1 ≤ n) (hn : n ≤ headNumber b) :
    ∃ files, filesPullHandler Fails.none env (versionName n) b =
      (.ok ⟨versionName n, versionName (headNumber b), files⟩, b) ∧ Reported b (mergedSince b n) files := by
  have hhead : attempt (mapErr ApiError.ofStorage (readHead Fails.none)) b =
      (.ok (.ok (some (versionName (headNumber b)))), b) := by
    rw [attempt_apply]
    show (Except.ok (Except.ok b.head), b) = _
    rw [h.head]
  unfold filesPullHandler
  rw [bind_of_ok hhead]
  dsimp only
  rw [parseVersionNumber_versionName, parseVersionNumber_versionName]
  by_cases hle : headNumber b ≤ n
  · obtain rfl : n = headNumber b := le_antisymm hn hle
    rw [if_pos le_rfl, mergedSince_head]
    exact ⟨[], rfl, reported_nil b⟩
  rw [if_neg hle]
  have hnewer : mapErr ApiError.ofStorage (listVersionsSince Fails.none n (headNumber b)) b =
      (.ok (b.versions.drop n), b) := by
    unfold mapErr
    rw [listVersionsSince_drop h]
  have hmerges : mapErr ApiError.ofStorage (queryByType Fails.none "MergeCompleted".toList) b = (.ok (mergeLog b), b) := by
    unfold mapErr
    rw [queryByType_merges h.numbered]
  have hsub : ∀ e ∈ (mergeLog b).drop (n - 1), e ∈ mergeLog b := fun e he => List.mem_of_mem_drop he
  have hdrop : (mergeLog b).drop (n - 1) ≠ [] := by
    rw [Ne, List.drop_eq_nil_iff]
    unfold headNumber at hle
    omega
  rw [bind_of_ok hnewer, h.mergeEventIds_drop h₁]
  rw [if_neg (by simpa using hdrop), bind_of_ok hmerges]
  rw [filterMap_workspaceOf h.numbered hsub]
  have hids : ∀ i, i ∈ sortDedup (mergedSince b n) ↔ i ∈ mergedSince b n := fun i => mem_sortDedup
  have hne : sortDedup (mergedSince b n) ≠ [] := by
    obtain ⟨i, hi⟩ := List.exists_mem_of_ne_nil _ (filterMap_ne_nil hsub hdrop)
    exact List.ne_nil_of_mem (mem_sortDedup.2 hi)
  have hevents : mapErr ApiError.ofStorage (querySinceIdFiltered Fails.none 0 fileEventTypes
      (sortDedup (mergedSince b n))) b = (.ok (fileEvents b (sortDedup (mergedSince b n))), b) := by
    unfold mapErr
    rw [querySinceIdFiltered_files h.numbered hne]
  refine ⟨_, ?_, reported_entries env b hids rfl⟩
  refine (bind_of_ok hevents _).trans ?_
  rw [bind_of_ok (pullEntries_apply _ b _ []), List.nil_append, List.zipIdx_map_fst]
  rfl

/-! ## What a client makes of it -/

theorem applyEntry_apply (tree : Path → Option Bytes) (f : PullFileEntry) (p : Path) : applyEntry tree f p =
    if p = f.path then if f.changeType = .removed then none else f.content.or (tree p) else tree p := by
  obtain ⟨path, state, content⟩ := f
  by_cases hp : p = path
  · subst p
    rw [if_pos rfl]
    cases state <;> cases content <;> simp [applyEntry]
  · rw [if_neg hp]
    cases state <;> cases content <;> simp [applyEntry, hp]

theorem applyPull_of_not_mem {p : Path} : ∀ {files : List PullFileEntry} {tree : Path → Option Bytes},
    (∀ f ∈ files, f.path ≠ p) → applyPull files tree p = tree p
  | [], _, _ => rfl
  | f :: files, tree, h => by
    refine (applyPull_of_not_mem fun g hg => h g (List.mem_cons_of_mem _ hg)).trans ?_
    rw [applyEntry_apply, if_neg (fun he => h f List.mem_cons_self he.symm)]

theorem applyPull_of_mem {f : PullFileEntry} : ∀ {files : List PullFileEntry} {tree : Path → Option Bytes},
    (files.map PullFileEntry.path).Nodup → f ∈ files → applyPull files tree f.path = applyEntry tree f f.path
  | g :: files, tree, hd, hf => by
    rw [List.map_cons, List.nodup_cons] at hd
    rcases List.mem_cons.1 hf with rfl | hf
    · show applyPull files (applyEntry tree f) f.path = _
      apply applyPull_of_not_mem
      intro g hg he
      apply hd.1
      rw [← he]
      exact List.mem_map_of_mem hg
    · have hne : f.path ≠ g.path := fun he => hd.1 (by rw [← he]; exact List.mem_map_of_mem hf)
      refine (applyPull_of_mem hd.2 hf).trans ?_
      rw [applyEntry_apply, applyEntry_apply tree f, applyEntry_apply tree g, if_neg hne]

theorem applyPull_reported {ids : List Uuid} {files : List PullFileEntry} (h : Reported b ids files)
    (tree : Path → Option Bytes) (p : Path) : applyPull files tree p = match latest ids p (fileLog b) with
      | none => tree p
      | some none => none
      | some (some _) => (b.current p).or (tree p) := by
  by_cases hl : latest ids p (fileLog b) = none
  · rw [hl]
    refine applyPull_of_not_mem fun f hf he => ?_
    have := (h.told f hf).1
    rw [he, hl] at this
    cases this
  · obtain ⟨f, hf, rfl⟩ := h.listed p hl
    obtain ⟨htells, hcontent⟩ := h.told f hf
    rw [applyPull_of_mem h.nodup hf, applyEntry_apply, if_pos rfl, hcontent]
    generalize latest ids f.path (fileLog b) = o at htells
    cases hs : f.changeType with
    | removed =>
      rw [hs] at htells
      cases htells
      rfl
    | added =>
      rw [hs] at htells
      cases htells
      rfl
    | modified =>
      rw [hs] at htells
      cases htells
      rfl

/-! ## A historical download -/

theorem foldHash_step (m : FMap Path Text) (e : Event) (a : LogEntry Uuid Path (Option Text)) (he : entryOf e = some a) :
    (∀ p, p ≠ a.key → (foldHash m e).get p = m.get p) ∧ (foldHash m e).get a.key = (some a.value).join := by
  unfold foldHash
  unfold entryOf at he
  split at he
  · cases he
    exact ⟨fun p hp => by simp [*, FMap.get_insert], by simp [*, FMap.get_insert]⟩
  · cases he
    exact ⟨fun p hp => by simp [*, FMap.get_insert], by simp [*, FMap.get_insert]⟩
  · cases he
    exact ⟨fun p hp => by simp [*, FMap.get_erase], by simp [*, FMap.get_erase]⟩
  · cases he

theorem get_hashes (b : Backend) (ids : List Uuid) (p : Path) :
    ((fileEvents b ids).foldl foldHash ∅).get p = (latest ids p (fileLog b)).join :=
  get_replayed (R := fun o h => h = o.join) (FMap.get_empty p) foldHash_step ids p b.events

theorem fetchBlob_apply (hashes : FMap Path Text) (files : FMap Path Bytes) (q : Path × Nat) (b : Backend) :
    ∃ files', fetchBlob Fails.none hashes files q b = (.ok files', b) ∧ ∀ p, files'.get p =
      if p = q.1 then ((hashes.get p).bind b.blob).or (files.get p) else files.get p := by
  unfold fetchBlob
  cases hh : hashes.get q.1 with
  | none =>
    refine ⟨files, rfl, fun p => ?_⟩
    by_cases hp : p = q.1
    · rw [if_pos hp, hp, hh, Option.bind_none, Option.none_or]
    · rw [if_neg hp]
  | some hash =>
    obtain ⟨r, hr, ho⟩ := attempt_get_none q.2 (blobKey hash) b
    have hblob : b.blob hash = r.toOption := ho.symm
    dsimp only
    cases r with
    | error e =>
      refine ⟨files, bind_of_ok hr _, fun p => ?_⟩
      by_cases hp : p = q.1
      · rw [if_pos hp, hp, hh, Option.bind_some, hblob]
        rfl
      · rw [if_neg hp]
    | ok content =>
      refine ⟨files.insert q.1 content, bind_of_ok hr _, fun p => ?_⟩
      rw [FMap.get_insert]
      by_cases hp : p = q.1
      · rw [if_pos hp, if_pos hp, hp, hh, Option.bind_some, hblob]
        rfl
      · rw [if_neg hp, if_neg hp]

theorem fetchBlobs_apply (hashes : FMap Path Text) (b : Backend) : ∀ (l : List (Path × Nat)) (files : FMap Path Bytes),
    ∃ files', l.foldlM (fetchBlob Fails.none hashes) files b = (.ok files', b) ∧ ∀ p, files'.get p =
      if p ∈ l.map Prod.fst then ((hashes.get p).bind b.blob).or (files.get p) else files.get p
  | [], files => ⟨files, rfl, fun p => by simp⟩
  | q :: l, files => by
    obtain ⟨files₁, hq, hget₁⟩ := fetchBlob_apply hashes files q b
    obtain ⟨files₂, hl, hget₂⟩ := fetchBlobs_apply hashes b l files₁
    refine ⟨files₂, by rw [List.foldlM_cons, bind_of_ok hq, hl], fun p => ?_⟩
    rw [hget₂, hget₁]
    by_cases hp : p = q.1 <;> by_cases hm : p ∈ l.map Prod.fst <;> simp [hp, hm, ← Option.or_assoc]

/-- **A download** of a version holds, for each path, the blob of the last hash that the workspaces merged up to the
version have given it. -/
theorem buildFileMapAtVersion_spec (env : Env) (h : Chronicle b) (h₁ : 1 ≤ n) :
    ∃ files, buildFileMapAtVersion Fails.none env n b = (.ok files, b) ∧
      ∀ p, files.get p = (latest (mergedUpTo b n) p (fileLog b)).join.bind b.blob := by
  have hall : mapErr ApiError.ofStorage (listVersions Fails.none) b = (.ok b.versions.reverse, b) := rfl
  have hmerges : mapErr ApiError.ofStorage (queryByType Fails.none "MergeCompleted".toList) b = (.ok (mergeLog b), b) := by
    unfold mapErr
    rw [queryByType_merges h.numbered]
  have hsub : ∀ e ∈ ((mergeLog b).take (n - 1)).reverse, e ∈ mergeLog b := fun e he =>
    List.mem_of_mem_take (List.mem_reverse.1 he)
  unfold buildFileMapAtVersion
  rw [bind_of_ok hall, h.mergeEventIds_take h₁]
  by_cases hnil : (mergeLog b).take (n - 1) = []
  · rw [if_pos (by simp [hnil])]
    refine ⟨∅, rfl, fun p => ?_⟩
    unfold mergedUpTo
    rw [hnil, List.filterMap_nil, latest_no_owners]
    exact FMap.get_empty p
  rw [if_neg (by simpa using hnil), bind_of_ok hmerges, ← List.map_reverse, filterMap_workspaceOf h.numbered hsub]
  have hids : ∀ i, i ∈ sortDedup ((((mergeLog b).take (n - 1)).reverse).filterMap (fun e => e.kind.workspaceId)) ↔
      i ∈ mergedUpTo b n := by
    intro i
    rw [mem_sortDedup, List.filterMap_reverse, List.mem_reverse]
    rfl
  generalize hgen : sortDedup ((((mergeLog b).take (n - 1)).reverse).filterMap (fun e => e.kind.workspaceId)) = ids at hids
  have hne : ids ≠ [] := by
    obtain ⟨i, hi⟩ := List.exists_mem_of_ne_nil _ (filterMap_ne_nil hsub (by simpa using hnil))
    rw [← hgen]
    exact List.ne_nil_of_mem (mem_sortDedup.2 hi)
  have hevents : mapErr ApiError.ofStorage (querySinceIdFiltered Fails.none 0 fileEventTypes ids) b =
      (.ok (fileEvents b ids), b) := by
    unfold mapErr
    rw [querySinceIdFiltered_files h.numbered hne]
  have horder : orderById (fileEvents b ids) = fileEvents b ids := orderById_filter h.numbered _
  obtain ⟨files, hrun, hget⟩ := fetchBlobs_apply ((fileEvents b ids).foldl foldHash ∅) b
    (env.hashOrder ((fileEvents b ids).foldl foldHash ∅).keys).zipIdx ∅
  refine ⟨files, (bind_of_ok hevents _).trans (by rw [horder]; exact hrun), fun p => ?_⟩
  rw [hget, get_hashes, latest_congr hids, FMap.get_empty, Option.or_none]
  split
  · rfl
  · rename_i hnone
    rw [List.zipIdx_map_fst, Env.mem_hashOrder, FMap.mem_keys, get_hashes, latest_congr hids,
      Option.not_isSome_iff_eq_none] at hnone
    rw [hnone, Option.bind_none]

end Handlers
end Vai
