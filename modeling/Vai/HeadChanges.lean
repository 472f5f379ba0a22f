import Vai.History
import Vai.Steps
/-!
# HeadChanges — what HEAD has changed since a version

`collect_head_changed_files` reads the pre-change snapshots of the versions after a base version; the first snapshot of a
path has its content there.  A story is a run of submits and rollbacks with the tree of every version it made.

A version's snapshot has the content of the tree before it (`Told.snapshot`), but not of every path that the version
changed: a submit saves none for a path that it creates, one for a path that it writes as it was, and a rollback saves
none at all.  The answer is exact in every state of a story exactly when no step does any of this
(`Story.answers_exactly_iff`).
-/
namespace Vai
namespace Merge

open Proc Steps

/-! ## Stories -/

inductive Act where
  | edit
  | submit (m : WorkspaceMeta) (D : List Path)
  | rollback (id : Text) (entityFilter : Option Text)

abbrev Trees := Nat → Path → Option Bytes

/-- One step: an edit of workspaces, a submit or a rollback that went through. -/
inductive Does (env : Env) : Act → World Disk → World Disk → Prop where
  | edit {w w' : World Disk} (hhead : w'.vai.head = w.vai.head) (hver : w'.vai.versions = w.vai.versions)
      (hbase : w'.fs.base = w.fs.base) (hsnap : w'.fs.snapshot = w.fs.snapshot) : Does env .edit w w'
  | submit {w w' : World Disk} {m : WorkspaceMeta} {D : List Path} {r : SubmitResult} (ha : w.vai.IsActive m)
      (hs : submitWithFs env (diskMergeFs env m.id) m D w = (.ok r, w')) : Does env (.submit m D) w w'
  | rollback {w w' : World Disk} {id : Text} {entityFilter : Option Text} {r : Version.RollbackResult}
      (hs : Version.rollback env id entityFilter w = (.ok r, w')) : Does env (.rollback id entityFilter) w w'

/-- The trees after a step: a new version has the tree that the step left. -/
def Trees.after (T : Trees) (w w' : World Disk) : Trees := fun k =>
  if w.vai.maxVersion < k ∧ k ≤ w'.vai.maxVersion then w'.fs.base.get else T k

/-- A run from `repo::init`, and the trees of its versions. -/
inductive Story (env : Env) : List (Turn Act (World Disk)) → World Disk → Trees → Prop where
  | init (fs : Disk) (repoId : Uuid) (name : Text) (graph : GraphSnapshot) (ops : Nat)
      (hfresh : ∀ n p, 1 < n → (fs.snapshot (versionName n)).get p = none) :
      Story env [] { fs, vai := VaiDir.init repoId name graph, ops } fun _ => fs.base.get
  | next {l : List (Turn Act (World Disk))} {w w' : World Disk} {T : Trees} (h : Story env l w T) (a : Act)
      (hs : Does env a w w') : Story env (l ++ [⟨a, w⟩]) w' (T.after w w')

/-- **Exactness**: from whichever version, the keys are the paths that a later version has changed, each with its content
at that version, empty where it did not exist. -/
def Exact (w : World Disk) (T : Trees) : Prop :=
  ∀ (e : Env) (ws : Uuid) (B : Nat), 1 ≤ B → B ≤ w.vai.maxVersion → ∀ r w',
    collectHeadChangedFiles e (diskMergeFs e ws) (versionName B) w = (.ok r, w') → ∀ p,
      ((r.get p).isSome ↔ ∃ k, B < k ∧ k ≤ w.vai.maxVersion ∧ T k p ≠ T (k - 1) p) ∧
        ∀ c, r.get p = some c → c = (T B p).getD []

/-- The steps after which the answer is exact: every path that a submit lists gets another content, or none, if it exists,
and stays absent if it does not; a rollback changes no file. -/
def Act.Meets (env : Env) : Act → World Disk → Prop
  | .edit, _ => True
  | .submit m D, w => ∀ p, Changed (w.fs.files m.id) D p →
      ((w.fs.base.get p).isSome ↔ tree env m (w.fs.files m.id) D w.vai p ≠ w.fs.base.get p)
  | .rollback id entityFilter, w => ∀ m, w.vai.versions.get id = some m → ∀ p,
      Version.restored w id m entityFilter p = w.fs.base.get p

/-! ## What a story has saved -/

/-- The snapshots of version `k` are those of the paths that it changed. -/
def Covered (w : World Disk) (T : Trees) (k : Nat) : Prop :=
  ∀ p, ((w.fs.snapshot (versionName k)).get p).isSome ↔ T k p ≠ T (k - 1) p

structure Told (w : World Disk) (T : Trees) : Prop where
  version : AtVersion w w.vai.maxVersion
  pos : 1 ≤ w.vai.maxVersion
  now : T w.vai.maxVersion = w.fs.base.get
  snapshot : ∀ k, 1 < k → k ≤ w.vai.maxVersion → ∀ p c, (w.fs.snapshot (versionName k)).get p = some c → T (k - 1) p = some c

variable {env : Env} {w w' : World Disk} {T : Trees}

/-- What a step has made of the versions and the snapshots. -/
structure Stepped (env : Env) (a : Act) (w w' : World Disk) : Prop where
  head : w'.vai.head = versionName w'.vai.maxVersion
  kept : ∀ n p, n ≤ w.vai.maxVersion → (w'.fs.snapshot (versionName n)).get p = (w.fs.snapshot (versionName n)).get p
  fresh : ∀ n p, w'.vai.maxVersion < n → (w'.fs.snapshot (versionName n)).get p = none
  moved : w'.vai.maxVersion = w.vai.maxVersion ∧ w'.fs.base.get = w.fs.base.get ∧ a.Meets env w ∨
    w'.vai.maxVersion = w.vai.maxVersion + 1 ∧
      (∀ p c, (w'.fs.snapshot (versionName w'.vai.maxVersion)).get p = some c → w.fs.base.get p = some c) ∧
      (a.Meets env w ↔ ∀ p, ((w'.fs.snapshot (versionName w'.vai.maxVersion)).get p).isSome ↔
        w'.fs.base.get p ≠ w.fs.base.get p)

theorem Does.stepped {a : Act} (h : Does env a w w') (hw : AtVersion w w.vai.maxVersion) : Stepped env a w w' := by
  cases h with
  | edit hhead hver hbase hsnap =>
    have hmax : w'.vai.maxVersion = w.vai.maxVersion := by unfold VaiDir.maxVersion VaiDir.listVersions; rw [hver]
    refine ⟨by rw [hhead, hw.head, hmax], fun n p _ => by rw [hsnap], fun n p hn => ?_, .inl ⟨hmax, by rw [hbase], trivial⟩⟩
    rw [hsnap]
    exact hw.fresh n p (by omega)
  | @submit _ _ m D r ha hs =>
    have hl := submitWithFs_landed ha hs
    have hmax := hl.maxVersion
    refine ⟨by rw [hl.head, hmax], fun n p hn => ?_, fun n p hn => ?_, .inr ⟨hmax, fun p c hp => ?_, ?_⟩⟩
    · rw [hl.snapshot, if_neg (by omega)]
    · rw [hl.snapshot, if_neg (by omega)]
      exact hw.fresh n p (by omega)
    · rw [hmax, hl.snapshot] at hp
      split at hp
      · exact hp
      · rw [hw.fresh _ _ (Nat.lt_succ_self _)] at hp
        cases hp
    · have hsnap : ∀ p, ((w'.fs.snapshot (versionName w'.vai.maxVersion)).get p).isSome ↔
          Changed (w.fs.files m.id) D p ∧ (w.fs.base.get p).isSome := fun p => by
        rw [hmax, hl.snapshot, hw.fresh _ _ (Nat.lt_succ_self _)]
        have hch : Changed (w.fs.files m.id) D p ↔
            ((w.fs.overlay m.id).get p).isSome ∨ p ∈ D ∧ (w.fs.base.get p).isSome := Iff.rfl
        rw [hch]
        by_cases hb : (w.fs.base.get p).isSome
        · by_cases hd : p ∈ D ∨ ((w.fs.overlay m.id).get p).isSome
          · rw [if_pos ⟨rfl, hd, hb⟩]
            simp only [hb, and_true, true_iff]
            exact hd.symm
          · rw [if_neg fun h => hd h.2.1]
            simp only [hb, and_true, Option.isSome_none, Bool.false_eq_true, false_iff]
            exact fun h => hd h.symm
        · rw [if_neg fun h => hb h.2.2]
          simp [hb]
      -- what the diff does not list stays
      have hrest : ∀ p, ¬ Changed (w.fs.files m.id) D p → tree env m (w.fs.files m.id) D w.vai p = w.fs.base.get p := by
        intro p hp
        have hov : ¬ (w.fs.files m.id (.overlay p)).isSome := fun h => hp (.inl h)
        unfold tree
        by_cases hpD : p ∈ D
        · rw [if_pos hpD]
          exact (Option.not_isSome_iff_eq_none.1 fun h => hp (.inr ⟨hpD, h⟩)).symm
        · rw [if_neg hpD, if_neg hov]
          rfl
      simp only [hsnap, hl.base]
      constructor
      · intro h p
        by_cases hp : Changed (w.fs.files m.id) D p
        · simp only [hp, true_and]
          exact h p hp
        · simp [hp, hrest p hp]
      · intro h p hp
        have := h p
        simpa only [hp, true_and] using this
  | @rollback _ _ id entityFilter r hs =>
    have hdir := Version.rollback_dir hs
    have hver : w'.vai.versions = w.vai.versions.insert w.vai.nextVersionId (Version.rollbackRecord id w.vai) := by
      rw [hdir]
      rfl
    have hmax := VaiDir.maxVersion_insert (m := Version.rollbackRecord id w.vai) rfl w'.vai hver
    obtain ⟨m, hm⟩ : ∃ m, w.vai.versions.get id = some m := by
      unfold Version.rollback at hs
      obtain ⟨changes, w₁, hget, -⟩ := bind_eq_ok.1 hs
      unfold Version.getVersionChanges at hget
      obtain ⟨m, w₂, hm', -⟩ := bind_eq_ok.1 hget
      have hok := (onVai_ok hm').1
      cases hv : w.vai.versions.get id with
      | some m => exact ⟨m, rfl⟩
      | none =>
        rw [VaiDir.getVersion, hv] at hok
        cases hok
    obtain ⟨-, -, hsnap, hbase⟩ := (Version.rollback_spec hm entityFilter).ok hs
    have hnone : ∀ p, (w'.fs.snapshot (versionName w'.vai.maxVersion)).get p = none := fun p => by
      rw [hsnap, hmax]
      exact hw.fresh _ p (Nat.lt_succ_self _)
    refine ⟨by rw [hmax, hdir]; rfl, fun n p _ => by rw [hsnap], fun n p hn => ?_, .inr ⟨hmax, fun p c hp => ?_, ?_⟩⟩
    · rw [hsnap]
      exact hw.fresh n p (by omega)
    · rw [hnone] at hp
      cases hp
    · simp only [hnone, hbase, Option.isSome_none, Bool.false_eq_true, false_iff, not_not]
      constructor
      · exact fun h p => h m hm p
      · intro h m' hm' p
        rw [hm] at hm'
        cases hm'
        exact h p

theorem Trees.after_of_le {k : Nat} (h : k ≤ w.vai.maxVersion) : T.after w w' k = T k := by
  unfold Trees.after
  rw [if_neg (by omega)]

theorem Trees.after_new (hmax : w'.vai.maxVersion = w.vai.maxVersion + 1) :
    T.after w w' w'.vai.maxVersion = w'.fs.base.get := by
  unfold Trees.after
  rw [if_pos (by omega)]

theorem Does.told {a : Act} (h : Does env a w w') (hT : Told w T) : Told w' (T.after w w') := by
  have hs := h.stepped hT.version
  have hpos := hT.pos
  refine ⟨⟨hs.head, rfl, hs.fresh⟩, ?_, ?_, fun k h1 hk p c hp => ?_⟩
  · rcases hs.moved with ⟨hmax, -, -⟩ | ⟨hmax, -, -⟩ <;> omega
  · rcases hs.moved with ⟨hmax, hbase, -⟩ | ⟨hmax, -, -⟩
    · rw [hmax, Trees.after_of_le le_rfl, hT.now, hbase]
    · exact Trees.after_new hmax
  · by_cases hold : k ≤ w.vai.maxVersion
    · rw [hs.kept k p hold] at hp
      rw [Trees.after_of_le (by omega)]
      exact hT.snapshot k h1 hold p c hp
    · rcases hs.moved with ⟨hmax, -, -⟩ | ⟨hmax, hsaved, -⟩
      · omega
      · obtain rfl : k = w'.vai.maxVersion := by omega
        rw [Trees.after_of_le (by omega), hmax, Nat.add_sub_cancel, hT.now]
        exact hsaved p c hp

theorem Story.told {l : List (Turn Act (World Disk))} (h : Story env l w T) : Told w T := by
  induction h with
  | init fs repoId name graph ops hfresh =>
    have hmax : (VaiDir.init repoId name graph).maxVersion = 1 := (numbered_init repoId name graph).maxVersion
    refine ⟨⟨by rw [hmax]; rfl, rfl, fun n p hn => hfresh n p ?_⟩, by rw [hmax], rfl, fun k h1 hk => ?_⟩
    · exact lt_of_eq_of_lt hmax.symm hn
    · exact absurd (lt_of_lt_of_le h1 (le_of_le_of_eq hk hmax)) (lt_irrefl _)
  | next _ a hs ih => exact hs.told ih

/-! ## When the answer is exact -/

theorem Exact.congr {T T' : Trees} (h : ∀ k ≤ w.vai.maxVersion, T k = T' k) : Exact w T ↔ Exact w T' := by
  have hone : ∀ {T T' : Trees}, (∀ k ≤ w.vai.maxVersion, T k = T' k) → Exact w T → Exact w T' := by
    intro T T' h he e ws B h1 hB r w' hr p
    obtain ⟨hkeys, hvals⟩ := he e ws B h1 hB r w' hr p
    rw [h B hB] at hvals
    refine ⟨hkeys.trans (exists_congr fun k => and_congr_right fun _ => and_congr_right fun hk => ?_), hvals⟩
    rw [h k hk, h (k - 1) (by omega)]
  exact ⟨hone h, hone fun k hk => (h k hk).symm⟩

/-- Snapshots of what each version changed make the answer exact. -/
theorem Told.exact (hT : Told w T) (hc : ∀ k, 1 < k → k ≤ w.vai.maxVersion → Covered w T k) : Exact w T := by
  intro e ws B h1 hB r w' hr p
  have hspec := ((collectHeadChangedFiles_spec (disk_contract e ws w.fs) (Disk.rep_self ws w.fs) (fun _ _ _ => trivial)
    (versionName B)).ok hr).2.2 p
  rw [hT.version.head, parseVersionNum_versionName, parseVersionNum_versionName] at hspec
  have hsnap : ∀ k, w.fs.files ws (.snapshot k p) = (w.fs.snapshot (versionName k)).get p := fun _ => rfl
  -- up to the first snapshot nothing changes
  have hsame : ∀ k, B ≤ k → k ≤ w.vai.maxVersion → (∀ j, B < j → j ≤ k → (w.fs.snapshot (versionName j)).get p = none) →
      T k p = T B p := by
    intro k hBk
    induction k, hBk using Nat.le_induction with
    | base => exact fun _ _ => rfl
    | succ k hBk ih =>
      intro hk hnone
      have hlast : T (k + 1) p = T (k + 1 - 1) p := by
        by_contra hne
        have := (hc (k + 1) (by omega) hk p).2 hne
        rw [hnone (k + 1) (by omega) le_rfl] at this
        cases this
      rw [hlast]
      exact ih (by omega) fun j h2 hj => hnone j h2 (by omega)
  constructor
  · rw [hspec, headChanged, List.findSome?_isSome_iff]
    constructor
    · rintro ⟨k, hk, hs⟩
      rw [List.mem_range'_1] at hk
      exact ⟨k, by omega, by omega, (hc k (by omega) (by omega) p).1 hs⟩
    · rintro ⟨k, h2, hk, hne⟩
      exact ⟨k, List.mem_range'_1.2 ⟨by omega, by omega⟩, (hc k (by omega) hk p).2 hne⟩
  · intro c hcp
    rw [hspec, headChanged] at hcp
    obtain ⟨before, k, after, hrange, hk, hnone⟩ := List.findSome?_eq_some_iff.1 hcp
    rw [hsnap] at hk
    have hmem : k ∈ List.range' (B + 1) (w.vai.maxVersion - B) := by rw [hrange]; simp
    rw [List.mem_range'_1] at hmem
    have hval := hT.snapshot k (by omega) (by omega) p c hk
    rw [hsame (k - 1) (by omega) (by omega) fun j h2 hj => ?_] at hval
    · rw [hval]
      rfl
    · have hj' : j ∈ List.range' (B + 1) (w.vai.maxVersion - B) := List.mem_range'_1.2 ⟨by omega, by omega⟩
      rw [hrange] at hj'
      rcases List.mem_append.1 hj' with hj' | hj'
      · exact hnone j hj'
      · -- the range is in order, so that `j` is not behind `k`
        have hsorted : (before ++ k :: after).Pairwise (· < ·) := hrange ▸ List.pairwise_lt_range'
        rcases List.mem_cons.1 hj' with rfl | hj'
        · omega
        · have := (List.pairwise_cons.1 (List.pairwise_append.1 hsorted).2.1).1 j hj'
          omega

/-- An exact answer, from the version before the last, is the snapshot of the last. -/
theorem Told.covered (hT : Told w T) (he : Exact w T) (hn : 1 < w.vai.maxVersion) : Covered w T w.vai.maxVersion := by
  intro p
  have hspec := @collectHeadChangedFiles_spec _ Env.plain _ _ _ _ _ (disk_contract Env.plain 0 w.fs) _ (Disk.rep_self 0 w.fs)
    (fun _ _ _ => trivial) (versionName (w.vai.maxVersion - 1))
  obtain ⟨r, w', hr, -, -, hget⟩ := hspec.exists_ok fun e w' hbad => by
    rcases hbad with ⟨_, h⟩ | ⟨_, h⟩ | ⟨_, h⟩ <;> cases h
  obtain ⟨hkeys, -⟩ := he Env.plain 0 (w.vai.maxVersion - 1) (by omega) (by omega) r w' hr p
  rw [hget p, hT.version.head, parseVersionNum_versionName, parseVersionNum_versionName, headChanged,
    show w.vai.maxVersion - (w.vai.maxVersion - 1) = 1 by omega, List.range'_one,
    show w.vai.maxVersion - 1 + 1 = w.vai.maxVersion by omega] at hkeys
  have hone : [w.vai.maxVersion].findSome? (fun n => w.fs.files 0 (.snapshot n p)) =
      (w.fs.snapshot (versionName w.vai.maxVersion)).get p := by
    rw [List.findSome?_singleton]
    rfl
  rw [hone] at hkeys
  rw [hkeys]
  constructor
  · rintro ⟨k, h1, hk, hne⟩
    obtain rfl : k = w.vai.maxVersion := by omega
    exact hne
  · exact fun hne => ⟨_, by omega, le_rfl, hne⟩

/-- A step meets its condition when the version it makes, if any, has its snapshots. -/
theorem Does.meets_iff {a : Act} (h : Does env a w w') (hT : Told w T) :
    a.Meets env w ↔ ∀ k, w.vai.maxVersion < k → k ≤ w'.vai.maxVersion → Covered w' (T.after w w') k := by
  have hs := h.stepped hT.version
  rcases hs.moved with ⟨hmax, -, hm⟩ | ⟨hmax, -, hm⟩
  · exact ⟨fun _ k h1 hk => absurd hk (by omega), fun _ => hm⟩
  · have hnew : ∀ p, (T.after w w') w'.vai.maxVersion p = w'.fs.base.get p := fun p => by rw [Trees.after_new hmax]
    have hold : ∀ p, (T.after w w') (w'.vai.maxVersion - 1) p = w.fs.base.get p := fun p => by
      rw [hmax, Nat.add_sub_cancel, Trees.after_of_le le_rfl, hT.now]
    rw [hm]
    constructor
    · intro hc k h1 hk
      obtain rfl : k = w'.vai.maxVersion := by omega
      intro p
      rw [hnew, hold]
      exact hc p
    · intro hc p
      have := hc w'.vai.maxVersion (by omega) le_rfl p
      rwa [hnew, hold] at this

theorem Does.covered_iff {a : Act} (h : Does env a w w') (hT : Told w T) {k : Nat} (hk : k ≤ w.vai.maxVersion) :
    Covered w' (T.after w w') k ↔ Covered w T k := by
  have hs := h.stepped hT.version
  unfold Covered
  rw [Trees.after_of_le hk, Trees.after_of_le (by omega)]
  exact forall_congr' fun p => by rw [hs.kept k p hk]

theorem Does.max_le {a : Act} (h : Does env a w w') (hT : Told w T) : w.vai.maxVersion ≤ w'.vai.maxVersion := by
  rcases (h.stepped hT.version).moved with ⟨hmax, -, -⟩ | ⟨hmax, -, -⟩ <;> omega

variable {l : List (Turn Act (World Disk))}

theorem Story.meets_iff (h : Story env l w T) :
    (∀ t ∈ l, t.action.Meets env t.before) ↔ ∀ k, 1 < k → k ≤ w.vai.maxVersion → Covered w T k := by
  induction h with
  | init fs repoId name graph ops hfresh =>
    refine ⟨fun _ k h1 hk => ?_, fun _ t ht => absurd ht List.not_mem_nil⟩
    exact absurd (lt_of_lt_of_le h1 (hk.trans_eq (numbered_init repoId name graph).maxVersion)) (lt_irrefl _)
  | @next l w w' T hstory a hs ih =>
    have hT := hstory.told
    have hpos := hT.pos
    have hle := hs.max_le hT
    rw [List.forall_mem_append, ih, List.forall_mem_singleton]
    dsimp only
    rw [hs.meets_iff hT]
    constructor
    · rintro ⟨hbefore, hnew⟩ k h1 hk
      by_cases hold : k ≤ w.vai.maxVersion
      · exact (hs.covered_iff hT hold).2 (hbefore k h1 hold)
      · exact hnew k (by omega) hk
    · intro hall
      exact ⟨fun k h1 hk => (hs.covered_iff hT hk).1 (hall k h1 (by omega)), fun k h1 hk => hall k (by omega) hk⟩

/-- What comes before a step is a story, of the same trees. -/
theorem Story.earlier (h : Story env l w T) : ∀ t ∈ l, ∃ l₁ T₁, Story env l₁ t.before T₁ ∧ (∀ s ∈ l₁, s ∈ l) ∧
    t.before.vai.maxVersion ≤ w.vai.maxVersion ∧ ∀ k ≤ t.before.vai.maxVersion, T k = T₁ k := by
  induction h with
  | init => exact fun t ht => absurd ht List.not_mem_nil
  | @next l w w' T hstory a hs ih =>
    have hle := hs.max_le hstory.told
    intro t ht
    rcases List.mem_append.1 ht with ht | ht
    · obtain ⟨l₁, T₁, h₁, hsub, hmax, hsame⟩ := ih t ht
      refine ⟨l₁, T₁, h₁, fun s hs => List.mem_append_left _ (hsub s hs), hmax.trans hle, fun k hk => ?_⟩
      rw [Trees.after_of_le (hk.trans hmax), hsame k hk]
    · rw [List.mem_singleton.1 ht]
      exact ⟨l, T, hstory, fun s hs => List.mem_append_left _ hs, hle, fun k hk => Trees.after_of_le hk⟩

/-- **When `collect_head_changed_files` is exact all the way**: in the stories whose steps all meet their condition, and in
no other. -/
theorem Story.answers_exactly_iff (h : Story env l w T) :
    (∀ t ∈ l, t.action.Meets env t.before) ↔ (∀ t ∈ l, Exact t.before T) ∧ Exact w T := by
  constructor
  · intro hmeets
    refine ⟨fun t ht => ?_, h.told.exact (h.meets_iff.1 hmeets)⟩
    obtain ⟨l₁, T₁, h₁, hsub, -, hsame⟩ := h.earlier t ht
    exact (Exact.congr hsame).2 (h₁.told.exact (h₁.meets_iff.1 fun s hs => hmeets s (hsub s hs)))
  · induction h with
    | init => exact fun _ t ht => absurd ht List.not_mem_nil
    | @next l w w' T hstory a hs ih =>
      rintro ⟨hbefore, hnow⟩
      have hT := hstory.told
      have hpos := hT.pos
      rw [List.forall_mem_append, List.forall_mem_singleton] at hbefore ⊢
      have hT' := hs.told hT
      refine ⟨ih ⟨fun t ht => ?_, (Exact.congr fun k hk => Trees.after_of_le hk).1 hbefore.2⟩, ?_⟩
      · obtain ⟨-, -, -, -, hmax, -⟩ := hstory.earlier t ht
        exact (Exact.congr fun k hk => Trees.after_of_le (hk.trans hmax)).1 (hbefore.1 t ht)
      · refine (hs.meets_iff hT).2 fun k h1 hk => ?_
        rcases (hs.stepped hT.version).moved with ⟨hmax, -, -⟩ | ⟨hmax, -, -⟩
        · omega
        · obtain rfl : k = w'.vai.maxVersion := by omega
          exact hT'.covered hnow (by omega)

/-! ## A file changed, and changed back -/

theorem does_submit {m : WorkspaceMeta} {D : List Path} (ha : w.vai.IsActive m)
    (hok : (submitWithFs env (diskMergeFs env m.id) m D w).1.isOk) :
    Does env (.submit m D) w (submitWithFs env (diskMergeFs env m.id) m D w).2 := by
  rcases hr : submitWithFs env (diskMergeFs env m.id) m D w with ⟨e | r, w'⟩
  · rw [hr] at hok
    cases hok
  · exact .submit ha hr

theorem does_rollback {id : Text} {entityFilter : Option Text} (hok : (Version.rollback env id entityFilter w).1.isOk) :
    Does env (.rollback id entityFilter) w (Version.rollback env id entityFilter w).2 := by
  rcases hr : Version.rollback env id entityFilter w with ⟨e | r, w'⟩
  · rw [hr] at hok
    cases hok
  · exact .rollback hr

/-- Workspace 1 has written `a` anew. -/
def rewriteStart : World Disk := pairStart [(['a'], [1])] [(['a'], [2])] []

def rewriteInit : World Disk := { fs := rewriteStart.fs, vai := VaiDir.init 0 [] ∅, ops := 0 }

def rewritten : World Disk := (submitWithFs Env.plain (diskMergeFs Env.plain 1) (.fresh 1 1) [] rewriteStart).2

def rewrittenBack : World Disk := (Version.rollback Env.plain (versionName 2) none rewritten).2

def rewriteTrees : Trees :=
  (Trees.after (fun _ => rewriteStart.fs.base.get) rewriteInit rewriteStart).after rewriteStart rewritten

theorem story_rewritten :
    Story Env.plain [⟨.edit, rewriteInit⟩, ⟨.submit (.fresh 1 1) [], rewriteStart⟩] rewritten rewriteTrees := by
  have hstart : Story Env.plain [] rewriteInit fun _ => rewriteStart.fs.base.get :=
    .init rewriteStart.fs 0 [] ∅ 0 fun _ _ _ => rfl
  have hedit : Does Env.plain .edit rewriteInit rewriteStart := .edit rfl rfl rfl rfl
  have hsubmit : Does Env.plain (.submit (.fresh 1 1) []) rewriteStart rewritten :=
    does_submit (pairStart_active _ _ _) (by decide +kernel)
  exact (hstart.next _ hedit).next _ hsubmit

/-- The submit changes the one file that it lists. -/
theorem Story.answers_exactly_iff_rewritten : Exact rewritten rewriteTrees := by
  refine (story_rewritten.answers_exactly_iff.1 fun t ht => ?_).2
  rcases List.mem_cons.1 ht with rfl | ht
  · trivial
  · rw [List.mem_singleton.1 ht]
    intro p hp
    rcases hp with hp | hp
    · obtain ⟨c, hc⟩ := Option.isSome_iff_exists.1 hp
      have hmem : (p, c) ∈ [((['a'] : Path), ([2] : Bytes))] := FMap.get_ofList_mem hc
      obtain ⟨rfl, -⟩ := Prod.mk.inj (List.mem_singleton.1 hmem)
      decide +kernel
    · exact absurd hp.1 List.not_mem_nil

/-- Version 3 has changed `a` back, and has saved nothing of it: from `v2` the answer is empty. -/
theorem rollback_is_not_collected :
    (∃ l T, Story Env.plain l rewrittenBack T ∧ T 2 ['a'] = some [2] ∧ T 3 ['a'] = some [1]) ∧
      rewrittenBack.vai.head = versionName 3 ∧
      (collectHeadChangedFiles Env.plain (diskMergeFs Env.plain 1) (versionName 2) rewrittenBack).1.toOption.map FMap.pairs =
        some [] := by
  have hback : Does Env.plain (.rollback (versionName 2) none) rewritten rewrittenBack := does_rollback (by decide +kernel)
  refine ⟨⟨_, _, story_rewritten.next _ hback, ?_, ?_⟩, ?_, ?_⟩
  · decide +kernel
  · decide +kernel
  · decide +kernel
  · decide +kernel

end Merge
end Vai
