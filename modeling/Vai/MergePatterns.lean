import Vai.Data
import Vai.Proc
import Vai.Rows
/-!
# MergePatterns — the merge pattern library (`merge_patterns/mod.rs`)

The two tables of `.vai/merge_patterns.db`: a row for each pattern, a row for each resolution.  A resolution raises the
counters of its pattern and appends its row, a rollback lowers the success count and marks a row; the flag of
auto-resolution is written again at every change, unless a human has disabled the pattern.

`statistics_exact`: after any calls the counters are the counts of the rows, and the flag says what it should.

SQLite takes the first row that fits where a query has no order.  Times are left out.
-/
namespace Vai

inductive PatternType where
  | twoAgentsAddImports | renameWithStaleReference | twoAgentsModifySameBody | twoAgentsModifySameStruct
  | twoAgentsAddMethods | concurrentTextualModification | generic
deriving DecidableEq, Repr

def PatternType.asStr : PatternType → Text
  | .twoAgentsAddImports => "two_agents_add_imports".toList
  | .renameWithStaleReference => "rename_with_stale_reference".toList
  | .twoAgentsModifySameBody => "two_agents_modify_same_body".toList
  | .twoAgentsModifySameStruct => "two_agents_modify_same_struct".toList
  | .twoAgentsAddMethods => "two_agents_add_methods".toList
  | .concurrentTextualModification => "concurrent_textual_modification".toList
  | .generic => "generic".toList

def PatternType.description : PatternType → Text
  | .twoAgentsAddImports => "Two agents add imports to the same file".toList
  | .renameWithStaleReference => "One agent renames an identifier, another adds usage of old name".toList
  | .twoAgentsModifySameBody => "Two agents modify the same function body differently".toList
  | .twoAgentsModifySameStruct => "Two agents modify the same struct definition".toList
  | .twoAgentsAddMethods => "Two agents add methods to the same impl block".toList
  | .concurrentTextualModification => "Concurrent line-level modifications to the same file region".toList
  | .generic => "Generic unclassified merge conflict".toList

structure MergePattern where
  id : Nat
  patternType : PatternType
  patternHash : Text
  description : Text
  instanceCount : Int
  successCount : Int
  autoResolutionEnabled : Bool
  disabledByHuman : Bool
deriving DecidableEq, Repr

structure ResolutionInstance where
  id : Nat
  patternId : Nat
  conflictId : Uuid
  workspaceId : Uuid
  strategy : Text
  wasAutoResolved : Bool
  rolledBack : Bool
deriving DecidableEq, Repr

namespace MergePattern

/-- Exact, where the code has an `f64`. -/
def successRate (p : MergePattern) : ℚ := if p.instanceCount = 0 then 1 else (p.successCount : ℚ) / p.instanceCount

def meetsPromotionCriteria (p : MergePattern) : Bool :=
  !p.disabledByHuman && p.instanceCount > 10 && (9 / 10 : ℚ) ≤ p.successRate

theorem meetsPromotionCriteria_iff (p : MergePattern) : p.meetsPromotionCriteria = true ↔
    p.disabledByHuman = false ∧ 10 < p.instanceCount ∧ 9 * p.instanceCount ≤ 10 * p.successCount := by
  unfold meetsPromotionCriteria successRate
  simp only [Bool.and_eq_true, Bool.not_eq_true', gt_iff_lt, decide_eq_true_eq, and_assoc]
  refine and_congr_right fun _ => and_congr_right fun hcount => ?_
  have hpos : (0 : ℚ) < p.instanceCount := by exact_mod_cast (by omega : 0 < p.instanceCount)
  rw [if_neg (by omega), div_le_div_iff₀ (by norm_num) hpos, mul_comm (p.successCount : ℚ)]
  exact_mod_cast Iff.rfl

end MergePattern

structure MergePatternStore where
  patterns : List MergePattern
  instances : List ResolutionInstance
  /-- The sequences of the two tables. -/
  nextPattern : Nat
  nextInstance : Nat
deriving DecidableEq

inductive MergePatternError where
  | notFound (id : Nat)
deriving DecidableEq, Repr

namespace MergePatternStore

open Proc Rows

def empty : MergePatternStore := ⟨[], [], 1, 1⟩

/-! ## Classification

`to_lowercase` is the standard library's, the digest SHA-256 in hexadecimal. -/

variable (toLowercase : Text → Text) (sha256Hex : Bytes → Text)

def classify (record : ConflictRecord) : PatternType :=
  let desc := toLowercase record.description
  let has (word : String) : Bool := Text.containsText desc word.toList
  if record.mergeLevel = 1 then .concurrentTextualModification
  else if has "rename" || has "stale" || has "old name" then .renameWithStaleReference
  else if has "import" || has "use statement" || has "use decl" then .twoAgentsAddImports
  else if has "struct" || has "field" then .twoAgentsModifySameStruct
  else if has "method" || has "impl" || has "associated" then .twoAgentsAddMethods
  else if record.mergeLevel = 3 || has "function" || has "body" || has "fn " then .twoAgentsModifySameBody
  else .generic

def computeHash (patternType : PatternType) (mergeLevel : Nat) : Text :=
  sha256Hex (Text.intoBytes patternType.asStr ++ [UInt8.ofNat mergeLevel])

/-! ## The calls -/

abbrev Call := Proc MergePatternStore MergePatternError

def findByHash (hash : Text) (s : MergePatternStore) : Option MergePattern := row MergePattern.patternHash hash s.patterns

def getPattern (id : Nat) : Call MergePattern := do
  match ← Proc.read (fun s => row MergePattern.id id s.patterns) with
  | some p => pure p
  | none => fail (.notFound id)

def setPattern (id : Nat) (f : MergePattern → MergePattern) : Call Unit :=
  modify fun s => { s with patterns := update MergePattern.id id f s.patterns }

/-- A human override takes precedence. -/
def updatePromotion (id : Nat) : Call Unit := do
  let p ← getPattern id
  if p.disabledByHuman then pure ()
  else setPattern id fun q => { q with autoResolutionEnabled := p.meetsPromotionCriteria }

def raise (q : MergePattern) : MergePattern :=
  { q with instanceCount := q.instanceCount + 1, successCount := q.successCount + 1 }

/-- The row of the pattern, raised or new. -/
def upsertPattern (record : ConflictRecord) : Call Nat := do
  let patternType := classify toLowercase record
  let hash := computeHash sha256Hex patternType record.mergeLevel
  match ← Proc.read (findByHash hash) with
  | some p =>
    setPattern p.id raise
    pure p.id
  | none =>
    let id ← Proc.read nextPattern
    modify fun s => { s with
      patterns := s.patterns ++ [⟨id, patternType, hash, patternType.description, 1, 1, false, false⟩]
      nextPattern := id + 1 }
    pure id

def insertInstance (patternId : Nat) (record : ConflictRecord) (strategy : Text) (wasAutoResolved : Bool) : Call Unit :=
  modify fun s => { s with
    instances := s.instances ++
      [⟨s.nextInstance, patternId, record.conflictId, record.workspaceId, strategy, wasAutoResolved, false⟩]
    nextInstance := s.nextInstance + 1 }

def recordResolution (record : ConflictRecord) (strategy : Text) (wasAutoResolved : Bool) : Call MergePattern := do
  let patternId ← upsertPattern toLowercase sha256Hex record
  insertInstance patternId record strategy wasAutoResolved
  updatePromotion patternId
  getPattern patternId

/-- The resolution that a rollback of the conflict takes back. -/
def resolution (conflictId : Uuid) (s : MergePatternStore) : Option ResolutionInstance :=
  s.instances.find? fun i => i.conflictId = conflictId && !i.rolledBack

/-- With the floor at 0. -/
def lower (q : MergePattern) : MergePattern := { q with successCount := max 0 (q.successCount - 1) }

def rollBack (i : ResolutionInstance) : ResolutionInstance := { i with rolledBack := true }

def recordRollback (conflictId : Uuid) : Call (Option MergePattern) := do
  match ← Proc.read (resolution conflictId) with
  | none => pure none
  | some i =>
    modify fun s => { s with instances := update ResolutionInstance.id i.id rollBack s.instances }
    setPattern i.patternId lower
    updatePromotion i.patternId
    some <$> getPattern i.patternId

def disablePattern (id : Nat) : Call MergePattern := do
  if ← Proc.read (fun s => (row MergePattern.id id s.patterns).isNone) then fail (.notFound id)
  else
    setPattern id fun q => { q with disabledByHuman := true, autoResolutionEnabled := false }
    getPattern id

def enablePattern (id : Nat) : Call MergePattern := do
  if ← Proc.read (fun s => (row MergePattern.id id s.patterns).isNone) then fail (.notFound id)
  else
    setPattern id fun q => { q with disabledByHuman := false }
    updatePromotion id
    getPattern id

inductive Op where
  | recordResolution (record : ConflictRecord) (strategy : Text) (wasAutoResolved : Bool)
  | recordRollback (conflictId : Uuid)
  | disablePattern (id : Nat)
  | enablePattern (id : Nat)

/-- What a call leaves; it may have answered with an error. -/
def perform (s : MergePatternStore) : Op → MergePatternStore
  | .recordResolution record strategy auto => (recordResolution toLowercase sha256Hex record strategy auto s).2
  | .recordRollback conflictId => (recordRollback conflictId s).2
  | .disablePattern id => (disablePattern id s).2
  | .enablePattern id => (enablePattern id s).2

/-! ## The counts of the rows -/

/-- The resolutions of a pattern. -/
def recorded (id : Nat) (instances : List ResolutionInstance) : Nat := instances.countP fun i => i.patternId = id

/-- Those that no rollback has taken back. -/
def standing (id : Nat) (instances : List ResolutionInstance) : Nat :=
  instances.countP fun i => i.patternId = id && !i.rolledBack

theorem standing_le_recorded (id : Nat) (instances : List ResolutionInstance) :
    standing id instances ≤ recorded id instances := by
  refine List.countP_mono_left fun i _ h => ?_
  simp only [Bool.and_eq_true] at h
  exact h.1

theorem recorded_append (id : Nat) (instances : List ResolutionInstance) (i : ResolutionInstance) :
    recorded id (instances ++ [i]) = recorded id instances + if i.patternId = id then 1 else 0 := by
  simp [recorded, List.countP_append, List.countP_singleton]

theorem standing_append (id : Nat) (instances : List ResolutionInstance) {i : ResolutionInstance}
    (hi : i.rolledBack = false) :
    standing id (instances ++ [i]) = standing id instances + if i.patternId = id then 1 else 0 := by
  simp [standing, List.countP_append, List.countP_singleton, hi]

section Marked

variable {instances : List ResolutionInstance} (hkeys : (instances.map ResolutionInstance.id).Nodup)
  {i : ResolutionInstance} (hi : i ∈ instances)
include hkeys hi

theorem recorded_rollBack (id : Nat) :
    recorded id (update ResolutionInstance.id i.id rollBack instances) = recorded id instances := by
  have h := countP_update hkeys hi rollBack fun j => j.patternId = id
  exact Nat.add_right_cancel h

theorem standing_rollBack (hstands : i.rolledBack = false) (id : Nat) :
    standing id (update ResolutionInstance.id i.id rollBack instances) + (if i.patternId = id then 1 else 0) =
      standing id instances := by
  have h := countP_update hkeys hi rollBack fun j => j.patternId = id && !j.rolledBack
  simpa [standing, rollBack, hstands] using h

end Marked

/-! ## The invariant -/

/-- Rows under their keys, and the counters of each pattern are the counts of its rows. -/
structure Tables (s : MergePatternStore) : Prop where
  keys : (s.patterns.map MergePattern.id).Nodup
  below : ∀ p ∈ s.patterns, p.id < s.nextPattern
  instanceKeys : (s.instances.map ResolutionInstance.id).Nodup
  instanceBelow : ∀ i ∈ s.instances, i.id < s.nextInstance
  owned : ∀ i ∈ s.instances, ∃ p ∈ s.patterns, p.id = i.patternId
  counted : ∀ p ∈ s.patterns, p.instanceCount = recorded p.id s.instances ∧ p.successCount = standing p.id s.instances

def Flagged (s : MergePatternStore) : Prop := ∀ p ∈ s.patterns, p.autoResolutionEnabled = p.meetsPromotionCriteria

/-- Every pattern but one is flagged, and that one is not if it is disabled. -/
def FlaggedBut (id : Nat) (s : MergePatternStore) : Prop :=
  ∀ p ∈ s.patterns, (p.id ≠ id → p.autoResolutionEnabled = p.meetsPromotionCriteria) ∧
    (p.disabledByHuman = true → p.autoResolutionEnabled = false)

variable {s : MergePatternStore}

theorem Flagged.but (h : Flagged s) (id : Nat) : FlaggedBut id s := by
  intro p hp
  refine ⟨fun _ => h p hp, fun hdisabled => ?_⟩
  simp [h p hp, MergePattern.meetsPromotionCriteria, hdisabled]

/-- An update of a pattern that leaves its id and its counters. -/
theorem Tables.setPattern (h : Tables s) (id : Nat) {f : MergePattern → MergePattern}
    (hf : ∀ q, (f q).id = q.id ∧ (f q).instanceCount = q.instanceCount ∧ (f q).successCount = q.successCount) :
    Tables { s with patterns := update MergePattern.id id f s.patterns } where
  keys := by
    rw [map_key_update fun q => (hf q).1]
    exact h.keys
  below := by
    intro p hp
    rcases mem_update.1 hp with ⟨hp, -⟩ | ⟨q, hq, -, rfl⟩
    · exact h.below p hp
    · rw [(hf q).1]
      exact h.below q hq
  instanceKeys := h.instanceKeys
  instanceBelow := h.instanceBelow
  owned := by
    intro i hi
    obtain ⟨p, hp, hid⟩ := h.owned i hi
    by_cases hk : p.id = id
    · exact ⟨f p, mem_update.2 (Or.inr ⟨p, hp, hk, rfl⟩), (hf p).1.trans hid⟩
    · exact ⟨p, mem_update.2 (Or.inl ⟨hp, hk⟩), hid⟩
  counted := by
    intro p hp
    rcases mem_update.1 hp with ⟨hp, -⟩ | ⟨q, hq, -, rfl⟩
    · exact h.counted p hp
    · rw [(hf q).1, (hf q).2.1, (hf q).2.2]
      exact h.counted q hq

/-! ## Promotion -/

/-- What `update_promotion` makes of a row. -/
def promote (q : MergePattern) : MergePattern :=
  if q.disabledByHuman then q else { q with autoResolutionEnabled := q.meetsPromotionCriteria }

theorem promote_keeps (q : MergePattern) :
    (promote q).id = q.id ∧ (promote q).instanceCount = q.instanceCount ∧ (promote q).successCount = q.successCount := by
  unfold promote
  split <;> exact ⟨rfl, rfl, rfl⟩

theorem meets_promote (q : MergePattern) : (promote q).meetsPromotionCriteria = q.meetsPromotionCriteria := by
  unfold promote
  split <;> rfl

theorem getPattern_state (id : Nat) (s : MergePatternStore) : (getPattern id s).2 = s := by
  unfold getPattern
  rw [bind_apply, read_apply]
  dsimp only
  cases row MergePattern.id id s.patterns <;> rfl

theorem some_getPattern_state (id : Nat) (s : MergePatternStore) : ((some <$> getPattern id : Call _) s).2 = s := by
  show ((getPattern id >>= fun p => pure (some p)) s).2 = s
  have hstate := getPattern_state id s
  rw [bind_apply]
  cases hget : getPattern id s with
  | mk a s' =>
    rw [hget] at hstate
    cases a <;> exact hstate

theorem updatePromotion_state (hkeys : (s.patterns.map MergePattern.id).Nodup) (id : Nat) :
    (updatePromotion id s).2 = { s with patterns := update MergePattern.id id promote s.patterns } := by
  unfold updatePromotion getPattern
  rw [bind_apply, bind_apply, read_apply]
  dsimp only
  cases hrow : row MergePattern.id id s.patterns with
  | none =>
    have hnone : update MergePattern.id id promote s.patterns = s.patterns :=
      updateWhere_of_none promote fun p hp => by simpa using row_eq_none.1 hrow p hp
    rw [hnone]
    rfl
  | some p =>
    have hp := mem_of_row hrow
    have hid := key_of_row hrow
    -- the row that the flag was computed from is the only one that is written
    have honly : ∀ q ∈ s.patterns, q.id = id → q = p := fun q hq hk => eq_of_key hkeys hq hp (hk.trans hid.symm)
    by_cases hdisabled : p.disabledByHuman = true
    · have hsame : update MergePattern.id id promote s.patterns = s.patterns := by
        unfold update updateWhere
        conv_rhs => rw [← List.map_id s.patterns]
        refine List.map_congr_left fun q hq => ?_
        by_cases hk : q.id = id
        · simp [honly q hq hk, hid, promote, hdisabled]
        · simp [hk]
      simp [hdisabled, hsame]
    · have hsame : update MergePattern.id id (fun q => { q with autoResolutionEnabled := p.meetsPromotionCriteria })
          s.patterns = update MergePattern.id id promote s.patterns := by
        refine List.map_congr_left fun q hq => ?_
        by_cases hk : q.id = id
        · simp [honly q hq hk, hid, promote, hdisabled]
        · simp [hk]
      simp [hdisabled, MergePatternStore.setPattern, hsame]

theorem flagged_promote {id : Nat} (h : FlaggedBut id s) :
    Flagged { s with patterns := update MergePattern.id id promote s.patterns } := by
  intro p hp
  rcases mem_update.1 hp with ⟨hp, hk⟩ | ⟨q, hq, -, rfl⟩
  · exact (h p hp).1 hk
  · rw [meets_promote]
    unfold promote
    split
    · rename_i hdisabled
      rw [(h q hq).2 hdisabled]
      simp [MergePattern.meetsPromotionCriteria, hdisabled]
    · rfl

/-- What the library keeps. -/
structure Sound (s : MergePatternStore) : Prop where
  tables : Tables s
  flagged : Flagged s

theorem sound_empty : Sound empty where
  tables := by constructor <;> simp [empty]
  flagged := by simp [Flagged, empty]

theorem Tables.promoted {id : Nat} (h : Tables s) (hbut : FlaggedBut id s) : Sound (updatePromotion id s).2 := by
  rw [updatePromotion_state h.keys]
  exact ⟨h.setPattern id promote_keeps, flagged_promote hbut⟩

/-! ## The calls keep it -/

/-- The row of a resolution, beside the patterns with the counters of its own raised. -/
theorem Sound.resolved (h : Sound s) {patterns : List MergePattern} {next owner : Nat} {i : ResolutionInstance}
    (hid : i.id = s.nextInstance) (howner : i.patternId = owner) (hstands : i.rolledBack = false)
    (hkeys : (patterns.map MergePattern.id).Nodup) (hbelow : ∀ p ∈ patterns, p.id < next)
    (hkept : ∀ p ∈ s.patterns, ∃ q ∈ patterns, q.id = p.id) (howned : ∃ q ∈ patterns, q.id = owner)
    (hrows : ∀ q ∈ patterns, (q ∈ s.patterns ∧ q.id ≠ owner) ∨
      (q.id = owner ∧ q.instanceCount = recorded owner s.instances + 1 ∧
        q.successCount = standing owner s.instances + 1 ∧ (q.disabledByHuman = true → q.autoResolutionEnabled = false))) :
    Sound (updatePromotion owner ⟨patterns, s.instances ++ [i], next, s.nextInstance + 1⟩).2 := by
  refine Tables.promoted ⟨hkeys, hbelow, ?_, ?_, ?_, ?_⟩ ?_
  · rw [List.map_append, List.nodup_append]
    refine ⟨h.tables.instanceKeys, by simp, ?_⟩
    intro a ha b hb
    obtain ⟨j, hj, rfl⟩ := List.mem_map.1 ha
    have := h.tables.instanceBelow j hj
    simp only [List.map_cons, List.map_nil, List.mem_singleton] at hb
    omega
  · intro j hj
    rcases List.mem_append.1 hj with hj | hj
    · exact (h.tables.instanceBelow j hj).trans (Nat.lt_succ_self _)
    · rw [List.mem_singleton.1 hj, hid]
      exact Nat.lt_succ_self _
  · intro j hj
    rcases List.mem_append.1 hj with hj | hj
    · obtain ⟨p, hp, hpid⟩ := h.tables.owned j hj
      obtain ⟨q, hq, hqid⟩ := hkept p hp
      exact ⟨q, hq, hqid.trans hpid⟩
    · rw [List.mem_singleton.1 hj, howner]
      exact howned
  · intro q hq
    dsimp only
    rw [recorded_append, standing_append _ _ hstands, howner]
    rcases hrows q hq with ⟨hq, hne⟩ | ⟨hqid, hcount, hsuccess, -⟩
    · simpa [Ne.symm hne] using h.tables.counted q hq
    · simp [hqid, hcount, hsuccess]
  · intro q hq
    rcases hrows q hq with ⟨hq, -⟩ | ⟨hqid, -, -, hquiet⟩
    · exact ⟨fun _ => h.flagged q hq, ((h.flagged.but owner) q hq).2⟩
    · exact ⟨fun hne => absurd hqid hne, hquiet⟩

theorem Tables.unowned (h : Tables s) : recorded s.nextPattern s.instances = 0 := by
  refine List.countP_eq_zero.2 fun i hi => ?_
  obtain ⟨p, hp, hid⟩ := h.owned i hi
  have := h.below p hp
  simp only [decide_eq_true_eq]
  omega

theorem Sound.raised (h : Sound s) {p : MergePattern} (hp : p ∈ s.patterns) {i : ResolutionInstance}
    (hid : i.id = s.nextInstance) (howner : i.patternId = p.id) (hstands : i.rolledBack = false) :
    Sound (updatePromotion p.id
      ⟨update MergePattern.id p.id raise s.patterns, s.instances ++ [i], s.nextPattern, s.nextInstance + 1⟩).2 := by
  have hrow : raise p ∈ update MergePattern.id p.id raise s.patterns := mem_update.2 (Or.inr ⟨p, hp, rfl, rfl⟩)
  refine h.resolved hid howner hstands ?_ ?_ ?_ ⟨raise p, hrow, rfl⟩ ?_
  · rw [map_key_update (f := raise) fun _ => rfl]
    exact h.tables.keys
  · intro q hq
    rcases mem_update.1 hq with ⟨hq, -⟩ | ⟨q', hq', -, rfl⟩
    · exact h.tables.below q hq
    · exact h.tables.below q' hq'
  · intro q hq
    by_cases hk : q.id = p.id
    · exact ⟨raise p, hrow, hk.symm⟩
    · exact ⟨q, mem_update.2 (Or.inl ⟨hq, hk⟩), rfl⟩
  · intro q hq
    rcases mem_update.1 hq with hq | ⟨q', hq', hk, rfl⟩
    · exact Or.inl hq
    · obtain rfl := eq_of_key h.tables.keys hq' hp hk
      obtain ⟨hcount, hsuccess⟩ := h.tables.counted q' hp
      exact Or.inr ⟨rfl, by simp [raise, hcount], by simp [raise, hsuccess], ((h.flagged.but q'.id) q' hp).2⟩

theorem Sound.started (h : Sound s) {p : MergePattern} (hpid : p.id = s.nextPattern) (hcount : p.instanceCount = 1)
    (hsuccess : p.successCount = 1) (hflag : p.autoResolutionEnabled = false) {i : ResolutionInstance}
    (hid : i.id = s.nextInstance) (howner : i.patternId = p.id) (hstands : i.rolledBack = false) :
    Sound (updatePromotion p.id ⟨s.patterns ++ [p], s.instances ++ [i], s.nextPattern + 1, s.nextInstance + 1⟩).2 := by
  have hnone : recorded p.id s.instances = 0 := hpid ▸ h.tables.unowned
  have hzero : standing p.id s.instances = 0 := Nat.le_zero.1 ((standing_le_recorded _ _).trans hnone.le)
  have hfresh : ∀ q ∈ s.patterns, q.id ≠ p.id := fun q hq => by
    have := h.tables.below q hq
    omega
  refine h.resolved hid howner hstands ?_ ?_ ?_ ⟨p, List.mem_append_right _ (List.mem_singleton_self p), rfl⟩ ?_
  · rw [List.map_append, List.nodup_append]
    refine ⟨h.tables.keys, by simp, ?_⟩
    intro a ha b hb
    obtain ⟨q, hq, rfl⟩ := List.mem_map.1 ha
    simp only [List.map_cons, List.map_nil, List.mem_singleton] at hb
    exact hb ▸ hfresh q hq
  · intro q hq
    rcases List.mem_append.1 hq with hq | hq
    · exact (h.tables.below q hq).trans (Nat.lt_succ_self _)
    · rw [List.mem_singleton.1 hq, hpid]
      exact Nat.lt_succ_self _
  · exact fun q hq => ⟨q, List.mem_append_left _ hq, rfl⟩
  · intro q hq
    rcases List.mem_append.1 hq with hq | hq
    · exact Or.inl ⟨hq, hfresh q hq⟩
    · rw [List.mem_singleton.1 hq]
      exact Or.inr ⟨rfl, by simp [hcount, hnone], by simp [hsuccess, hzero], fun _ => hflag⟩

theorem state_bind_of_reads {α : Type} (m : Call Unit) {r : Call α} (hr : ∀ s, (r s).2 = s) (s : MergePatternStore) :
    ((m >>= fun _ => r) s).2 = (m s).2 := by
  rw [bind_apply]
  cases hm : m s with
  | mk a s' =>
    cases a with
    | ok a => exact hr s'
    | error e => rfl

theorem sound_recordResolution (h : Sound s) (record : ConflictRecord) (strategy : Text) (wasAutoResolved : Bool) :
    Sound (recordResolution toLowercase sha256Hex record strategy wasAutoResolved s).2 := by
  let i (owner : Nat) : ResolutionInstance :=
    ⟨s.nextInstance, owner, record.conflictId, record.workspaceId, strategy, wasAutoResolved, false⟩
  unfold recordResolution upsertPattern
  rw [bind_apply, bind_apply, read_apply]
  dsimp only
  cases hfound : findByHash (computeHash sha256Hex (classify toLowercase record) record.mergeLevel) s with
  | some p =>
    show Sound ((updatePromotion p.id >>= fun _ => getPattern p.id)
      ⟨update MergePattern.id p.id raise s.patterns, s.instances ++ [i p.id], s.nextPattern, s.nextInstance + 1⟩).2
    rw [state_bind_of_reads _ (getPattern_state _)]
    exact h.raised (mem_of_row hfound) rfl rfl rfl
  | none =>
    let p : MergePattern := ⟨s.nextPattern, classify toLowercase record,
      computeHash sha256Hex (classify toLowercase record) record.mergeLevel, (classify toLowercase record).description,
      1, 1, false, false⟩
    show Sound ((updatePromotion p.id >>= fun _ => getPattern p.id)
      ⟨s.patterns ++ [p], s.instances ++ [i p.id], s.nextPattern + 1, s.nextInstance + 1⟩).2
    rw [state_bind_of_reads _ (getPattern_state _)]
    exact h.started rfl rfl rfl rfl rfl rfl rfl

/-! ## Rollbacks and overrides -/

theorem resolution_some {c : Uuid} {i : ResolutionInstance} (h : resolution c s = some i) :
    i ∈ s.instances ∧ i.conflictId = c ∧ i.rolledBack = false := by
  have hi := List.find?_some h
  simp only [Bool.and_eq_true, decide_eq_true_eq, Bool.not_eq_true'] at hi
  exact ⟨List.mem_of_find?_eq_some h, hi⟩

/-- The row that a rollback takes back is counted: the floor is above nothing. -/
theorem Tables.floor (h : Tables s) {i : ResolutionInstance} (hi : i ∈ s.instances) (hstands : i.rolledBack = false)
    {p : MergePattern} (hp : p ∈ s.patterns) (hid : p.id = i.patternId) : 1 ≤ p.successCount := by
  rw [(h.counted p hp).2]
  have hpos : 0 < standing p.id s.instances := List.countP_pos_iff.2 ⟨i, hi, by simp [hid, hstands]⟩
  omega

theorem Sound.lowered (h : Sound s) {i : ResolutionInstance} (hi : i ∈ s.instances) (hstands : i.rolledBack = false) :
    Sound (updatePromotion i.patternId { s with
      patterns := update MergePattern.id i.patternId lower s.patterns
      instances := update ResolutionInstance.id i.id rollBack s.instances }).2 := by
  refine Tables.promoted ⟨?_, ?_, ?_, ?_, ?_, ?_⟩ ?_
  · rw [map_key_update (f := lower) fun _ => rfl]
    exact h.tables.keys
  · intro q hq
    rcases mem_update.1 hq with ⟨hq, -⟩ | ⟨q', hq', -, rfl⟩
    · exact h.tables.below q hq
    · exact h.tables.below q' hq'
  · rw [map_key_update (f := rollBack) fun _ => rfl]
    exact h.tables.instanceKeys
  · intro j hj
    rcases mem_update.1 hj with ⟨hj, -⟩ | ⟨j', hj', -, rfl⟩
    · exact h.tables.instanceBelow j hj
    · exact h.tables.instanceBelow j' hj'
  · have hkept : ∀ k, (∃ p ∈ s.patterns, p.id = k) → ∃ p ∈ update MergePattern.id i.patternId lower s.patterns, p.id = k := by
      rintro k ⟨p, hp, rfl⟩
      by_cases hk : p.id = i.patternId
      · exact ⟨lower p, mem_update.2 (Or.inr ⟨p, hp, hk, rfl⟩), rfl⟩
      · exact ⟨p, mem_update.2 (Or.inl ⟨hp, hk⟩), rfl⟩
    intro j hj
    rcases mem_update.1 hj with ⟨hj, -⟩ | ⟨j', hj', -, rfl⟩
    · exact hkept _ (h.tables.owned j hj)
    · exact hkept _ (h.tables.owned j' hj')
  · intro q hq
    dsimp only
    have hstanding := standing_rollBack h.tables.instanceKeys hi hstands q.id
    rw [recorded_rollBack h.tables.instanceKeys hi]
    rcases mem_update.1 hq with ⟨hq, hne⟩ | ⟨q', hq', hk, rfl⟩
    · rw [if_neg (Ne.symm hne)] at hstanding
      simpa [← hstanding] using h.tables.counted q hq
    · have hfloor := h.tables.floor hi hstands hq' hk
      obtain ⟨hcount, hsuccess⟩ := h.tables.counted q' hq'
      have hid : (lower q').id = q'.id := rfl
      rw [hid, if_pos hk.symm] at hstanding
      refine ⟨hcount, ?_⟩
      simp only [lower]
      omega
  · intro q hq
    rcases mem_update.1 hq with ⟨hq, -⟩ | ⟨q', hq', hk, rfl⟩
    · exact ⟨fun _ => h.flagged q hq, ((h.flagged.but i.patternId) q hq).2⟩
    · exact ⟨fun hne => absurd hk hne, ((h.flagged.but i.patternId) q' hq').2⟩

theorem recordRollback_none {c : Uuid} (h : resolution c s = none) : recordRollback c s = (.ok none, s) := by
  unfold recordRollback
  rw [bind_apply, read_apply, h]
  rfl

theorem sound_recordRollback (h : Sound s) (c : Uuid) : Sound (recordRollback c s).2 := by
  cases hres : resolution c s with
  | none =>
    rw [recordRollback_none hres]
    exact h
  | some i =>
    obtain ⟨hi, -, hstands⟩ := resolution_some hres
    have hsound := h.lowered hi hstands
    unfold recordRollback
    rw [bind_apply, read_apply, hres]
    show Sound ((updatePromotion i.patternId >>= fun _ => some <$> getPattern i.patternId) { s with
      patterns := update MergePattern.id i.patternId lower s.patterns
      instances := update ResolutionInstance.id i.id rollBack s.instances }).2
    rw [state_bind_of_reads _ (some_getPattern_state _)]
    exact hsound

theorem sound_disablePattern (h : Sound s) (id : Nat) : Sound (disablePattern id s).2 := by
  unfold disablePattern
  rw [bind_apply, read_apply]
  dsimp only
  split
  · exact h
  · rw [state_bind_of_reads _ (getPattern_state _)]
    refine ⟨h.tables.setPattern id fun q => ⟨rfl, rfl, rfl⟩, fun p hp => ?_⟩
    rcases mem_update.1 hp with ⟨hp, -⟩ | ⟨q, -, -, rfl⟩
    · exact h.flagged p hp
    · simp [MergePattern.meetsPromotionCriteria]

theorem sound_enablePattern (h : Sound s) (id : Nat) : Sound (enablePattern id s).2 := by
  unfold enablePattern
  rw [bind_apply, read_apply]
  dsimp only
  split
  · exact h
  · show Sound ((updatePromotion id >>= fun _ => getPattern id)
      { s with patterns := update MergePattern.id id (fun q => { q with disabledByHuman := false }) s.patterns }).2
    rw [state_bind_of_reads _ (getPattern_state _)]
    have htables := h.tables.setPattern id (f := fun q => { q with disabledByHuman := false }) fun _ => ⟨rfl, rfl, rfl⟩
    refine htables.promoted fun p hp => ?_
    rcases mem_update.1 hp with ⟨hp, -⟩ | ⟨q, -, hk, rfl⟩
    · exact (h.flagged.but id) p hp
    · exact ⟨fun hne => absurd hk hne, fun hdisabled => by simp at hdisabled⟩

theorem sound_perform (h : Sound s) (op : Op) : Sound (perform toLowercase sha256Hex s op) := by
  cases op with
  | recordResolution record strategy auto => exact sound_recordResolution toLowercase sha256Hex h record strategy auto
  | recordRollback c => exact sound_recordRollback h c
  | disablePattern id => exact sound_disablePattern h id
  | enablePattern id => exact sound_enablePattern h id

/-- The library after some calls on a new one. -/
def run (ops : List Op) : MergePatternStore := ops.foldl (perform toLowercase sha256Hex) empty

theorem sound_run (ops : List Op) : Sound (run toLowercase sha256Hex ops) :=
  List.foldlRecOn ops _ sound_empty fun _ h op _ => sound_perform toLowercase sha256Hex h op

/-- **The statistics are the counts of the rows**, after any calls in any order. -/
theorem statistics_exact (ops : List Op) :
    (∀ p ∈ (run toLowercase sha256Hex ops).patterns,
      p.instanceCount = recorded p.id (run toLowercase sha256Hex ops).instances ∧
      p.successCount = standing p.id (run toLowercase sha256Hex ops).instances ∧
      0 ≤ p.successCount ∧ p.successCount ≤ p.instanceCount ∧
      (p.autoResolutionEnabled = true ↔
        p.disabledByHuman = false ∧ 10 < p.instanceCount ∧ 9 * p.instanceCount ≤ 10 * p.successCount)) ∧
    (∀ i ∈ (run toLowercase sha256Hex ops).instances, i.rolledBack = false →
      ∀ p ∈ (run toLowercase sha256Hex ops).patterns, p.id = i.patternId → 0 ≤ p.successCount - 1) ∧
    ∀ c, (∀ i ∈ (run toLowercase sha256Hex ops).instances, i.conflictId = c → i.rolledBack = true) →
      recordRollback c (run toLowercase sha256Hex ops) = (.ok none, run toLowercase sha256Hex ops) := by
  have h := sound_run toLowercase sha256Hex ops
  refine ⟨fun p hp => ?_, fun i hi hstands p hp hid => ?_, fun c hc => ?_⟩
  · obtain ⟨hcount, hsuccess⟩ := h.tables.counted p hp
    have hle := standing_le_recorded p.id (run toLowercase sha256Hex ops).instances
    exact ⟨hcount, hsuccess, by omega, by omega, by rw [h.flagged p hp, MergePattern.meetsPromotionCriteria_iff]⟩
  · have := h.tables.floor hi hstands hp hid
    omega
  · refine recordRollback_none (List.find?_eq_none.2 fun i hi => ?_)
    by_cases hconflict : i.conflictId = c
    · simp [hc i hi hconflict]
    · simp [hconflict]

end MergePatternStore
end Vai
