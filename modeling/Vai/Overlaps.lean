import Vai.Isolation
/-!
# Overlaps — what the conflict engine reports

`classify_overlap` tests its criteria one after the other and takes the first that holds, where its comment asks for the
worst: `classifyOverlap_worst_iff` says for which scopes the two are the same.  `updateScope_tracks` follows the engine
through any calls: an update reports exactly the workspaces that it shares a file with.
-/
namespace Vai
namespace Overlaps

open WorkQueue (sort_eq_nil classifyOverlap_none_iff ends_classifyOverlap nodup_allScopes updateScope_fst)

/-! ## The levels -/

/-- What one scope writes and the other reaches, and does not write. -/
def referential (a b : WorkspaceScope) : Finset Text :=
  (a.writeEntities.filter fun x => x ∈ b.blastRadius ∧ x ∉ b.writeEntities) ∪
    b.writeEntities.filter fun x => x ∈ a.blastRadius ∧ x ∉ a.writeEntities

/-- The criterion of a level. -/
def Criterion (a b : WorkspaceScope) : OverlapLevel → Prop
  | .critical => 1 < (a.writeEntities ∩ b.writeEntities).card
  | .high => (referential a b).Nonempty
  | .medium => (a.writeEntities ∩ b.writeEntities).card = 1
  | .low => (a.writeFiles ∩ b.writeFiles).Nonempty
  | .none => True

/-- The highest level whose criterion holds. -/
structure Worst (a b : WorkspaceScope) (level : OverlapLevel) : Prop where
  holds : Criterion a b level
  highest : ∀ l, Criterion a b l → l.rank ≤ level.rank

/-- What a classification is to be. -/
structure Classified (idA idB : Uuid) (a b : WorkspaceScope) : Prop where
  worst : Worst a b (classifyOverlap idA idB a b).level
  level : (classifyOverlap idB idA b a).level = (classifyOverlap idA idB a b).level
  files : (classifyOverlap idB idA b a).overlappingFiles = (classifyOverlap idA idB a b).overlappingFiles
  entities : (classifyOverlap idB idA b a).overlappingEntities = (classifyOverlap idA idB a b).overlappingEntities
  once : (classifyOverlap idA idB a b).overlappingEntities.Nodup

section Levels

variable {idA idB : Uuid} {a b : WorkspaceScope}

theorem referential_comm : referential b a = referential a b := Finset.union_comm _ _

/-- The level, by what is shared. -/
def levelOf (shared : Nat) (referential files : Finset Text) : OverlapLevel :=
  if 1 < shared then .critical
  else if 0 < shared then .medium
  else if referential.Nonempty then .high
  else if files.Nonempty then .low
  else .none

/-- What a result lists, by its level. -/
def listed (level : OverlapLevel) (shared referential : Finset Text) : Finset Text :=
  if level = .critical ∨ level = .medium then shared
  else if level = .high then referential
  else ∅

theorem sort_ne_nil {s : Finset Text} : s.sort (· ≤ ·) ≠ [] ↔ s.Nonempty :=
  (not_congr sort_eq_nil).trans Finset.nonempty_iff_ne_empty.symm

/-- **The classification depends on the two scopes through three sets**, which are the same either way. -/
theorem classifyOverlap_eq : (classifyOverlap idA idB a b).level =
      levelOf (a.writeEntities ∩ b.writeEntities).card (referential a b) (a.writeFiles ∩ b.writeFiles) ∧
    (classifyOverlap idA idB a b).overlappingFiles = (a.writeFiles ∩ b.writeFiles).sort (· ≤ ·) ∧
    (classifyOverlap idA idB a b).overlappingEntities =
      (listed (classifyOverlap idA idB a b).level (a.writeEntities ∩ b.writeEntities) (referential a b)).sort (· ≤ ·) := by
  have hpos : 0 < (a.writeEntities ∩ b.writeEntities).card ↔ (a.writeEntities ∩ b.writeEntities).sort (· ≤ ·) ≠ [] :=
    Finset.card_pos.trans sort_ne_nil.symm
  have href : (referential a b).Nonempty ↔ (referential a b).sort (· ≤ ·) ≠ [] := sort_ne_nil.symm
  have hfiles : (a.writeFiles ∩ b.writeFiles).Nonempty ↔ (a.writeFiles ∩ b.writeFiles).sort (· ≤ ·) ≠ [] := sort_ne_nil.symm
  unfold classifyOverlap levelOf
  dsimp only
  rw [Finset.length_sort, if_congr hpos rfl rfl, if_congr href rfl rfl, if_congr hfiles rfl rfl]
  unfold referential at *
  split
  · exact ⟨rfl, rfl, rfl⟩
  · split
    · exact ⟨rfl, rfl, rfl⟩
    · split
      · exact ⟨rfl, rfl, rfl⟩
      · split
        · exact ⟨rfl, rfl, (Finset.sort_empty _).symm⟩
        · rename_i hnone
          exact ⟨rfl, (not_not.1 hnone).symm, (Finset.sort_empty _).symm⟩

theorem classifyOverlap_level : (classifyOverlap idA idB a b).level =
    levelOf (a.writeEntities ∩ b.writeEntities).card (referential a b) (a.writeFiles ∩ b.writeFiles) := classifyOverlap_eq.1

/-- The first criterion that holds is the highest, unless one entity is shared and others are reached. -/
theorem worst_levelOf_iff : Worst a b (classifyOverlap idA idB a b).level ↔
    ¬ ((a.writeEntities ∩ b.writeEntities).card = 1 ∧ (referential a b).Nonempty) := by
  rw [classifyOverlap_level]
  constructor
  · intro h hone
    have hlevel : levelOf (a.writeEntities ∩ b.writeEntities).card (referential a b) (a.writeFiles ∩ b.writeFiles) = .medium := by
      unfold levelOf
      rw [if_neg (by omega), if_pos (by omega)]
    have hhigh := h.highest .high hone.2
    rw [hlevel] at hhigh
    exact absurd hhigh (by decide)
  · intro h
    unfold levelOf
    split
    · rename_i hmany
      exact ⟨hmany, fun l _ => by cases l <;> decide⟩
    · rename_i hmany
      split
      · rename_i hsome
        have hone : (a.writeEntities ∩ b.writeEntities).card = 1 := by omega
        refine ⟨hone, fun l hl => ?_⟩
        cases l with
        | critical => exact absurd hl hmany
        | high => exact absurd ⟨hone, hl⟩ h
        | medium | low | none => decide
      · rename_i hsome
        have hnone : ¬ (a.writeEntities ∩ b.writeEntities).card = 1 := by omega
        split
        · rename_i hreach
          refine ⟨hreach, fun l hl => ?_⟩
          cases l with
          | critical => exact absurd hl hmany
          | high | medium | low | none => decide
        · rename_i hreach
          split
          · rename_i hfiles
            refine ⟨hfiles, fun l hl => ?_⟩
            cases l with
            | critical => exact absurd hl hmany
            | high => exact absurd hl hreach
            | medium => exact absurd hl hnone
            | low | none => decide
          · rename_i hfiles
            refine ⟨trivial, fun l hl => ?_⟩
            cases l with
            | critical => exact absurd hl hmany
            | high => exact absurd hl hreach
            | medium => exact absurd hl hnone
            | low => exact absurd hl hfiles
            | none => decide

/-- **When the classification is the worst level that applies** (the rest holds of all scopes): exactly when the scopes do
not share one entity while one of them writes another that the other reaches. -/
theorem classifyOverlap_worst_iff : Classified idA idB a b ↔
    ¬ ((a.writeEntities ∩ b.writeEntities).card = 1 ∧ (referential a b).Nonempty) := by
  constructor
  · intro h
    exact worst_levelOf_iff.1 h.worst
  · intro h
    have hback := @classifyOverlap_eq idB idA b a
    have hthis := @classifyOverlap_eq idA idB a b
    rw [Finset.inter_comm b.writeEntities, Finset.inter_comm b.writeFiles, referential_comm] at hback
    have hlevel := hback.1.trans hthis.1.symm
    refine ⟨worst_levelOf_iff.2 h, hlevel, hback.2.1.trans hthis.2.1.symm, ?_, ?_⟩
    · rw [hback.2.2, hlevel]
      exact hthis.2.2.symm
    · rw [hthis.2.2]
      exact Finset.sort_nodup _ _

end Levels

/-- One writes `parse` and `render`, the other writes `parse` and calls `render`. -/
def parseAndRender : WorkspaceScope where
  intent := "format".toList
  writeFiles := {"src/format.rs".toList}
  writeEntities := {"parse".toList, "render".toList}
  blastRadius := {"parse".toList, "render".toList}

def parseOnly : WorkspaceScope := { parseAndRender with writeEntities := {"parse".toList} }

/-- The classification says medium where a higher level applies. -/
theorem shared_entity_hides_reference : (classifyOverlap 1 2 parseAndRender parseOnly).level = .medium ∧
    Criterion parseAndRender parseOnly .high ∧ OverlapLevel.medium.rank < OverlapLevel.high.rank ∧
    ¬ Classified 1 2 parseAndRender parseOnly := by
  have hone : (parseAndRender.writeEntities ∩ parseOnly.writeEntities).card = 1 := by decide +kernel
  have hreach : (referential parseAndRender parseOnly).Nonempty :=
    ⟨"render".toList, by decide +kernel⟩
  refine ⟨?_, hreach, by decide, fun h => ?_⟩
  · rw [classifyOverlap_level]
    unfold levelOf
    rw [if_neg (by omega), if_pos (by omega)]
  · have hhigh := h.worst.highest .high hreach
    rw [classifyOverlap_level] at hhigh
    unfold levelOf at hhigh
    rw [if_neg (by omega), if_pos (by omega)] at hhigh
    revert hhigh
    decide

/-! ## The engine through any calls -/

inductive Call where
  | updateScope (id : Uuid) (intent : Text) (paths : List Path)
  | removeWorkspace (id : Uuid)
deriving DecidableEq, Repr

def Call.workspace : Call → Uuid
  | updateScope id _ _ => id
  | removeWorkspace id => id

/-- The path list that a call leaves for its workspace. -/
def Call.paths : Call → Option (List Path)
  | updateScope _ _ paths => some paths
  | removeWorkspace _ => none

def Call.apply (engine : ConflictEngine) : Call → ConflictEngine
  | updateScope id intent paths => (engine.updateScope id intent paths).2
  | removeWorkspace id => engine.removeWorkspace id

/-- The engine after these calls on a new one. -/
def engineOf (calls : List Call) : ConflictEngine := calls.foldl Call.apply ∅

/-- The latest path list of a workspace that was updated since its last removal. -/
def latest (calls : List Call) (id : Uuid) : Option (List Path) :=
  (calls.reverse.find? fun c => c.workspace = id).bind Call.paths

theorem latest_concat (calls : List Call) (c : Call) (id : Uuid) :
    latest (calls ++ [c]) id = if c.workspace = id then c.paths else latest calls id := by
  unfold latest
  rw [List.reverse_append, List.reverse_singleton, List.singleton_append, List.find?_cons]
  by_cases h : c.workspace = id
  · rw [if_pos h, decide_eq_true h]
    rfl
  · rw [if_neg h, decide_eq_false h]

/-- The scope has these files, and no entities. -/
def Tracks (paths : List Path) (s : WorkspaceScope) : Prop :=
  s.writeFiles = paths.toFinset ∧ s.writeEntities = ∅ ∧ s.blastRadius = ∅

/-- What an update of `w` reports. -/
def report (calls : List Call) (w : Uuid) (intent : Text) (paths : List Path) : List OverlapResult :=
  ((engineOf calls).updateScope w intent paths).1

/-- The report is of the workspaces that share a file. -/
structure Exact (calls : List Call) (w : Uuid) (paths : List Path) (results : List OverlapResult) : Prop where
  one : ∀ id q, id ≠ w → latest calls id = some q → (∃ p ∈ paths, p ∈ q) →
    ∃ r, results.filter (fun r => r.otherWorkspace = id) = [r] ∧
      r.overlappingFiles = (paths.toFinset ∩ q.toFinset).sort (· ≤ ·)
  others : ∀ r ∈ results, r.otherWorkspace ≠ w ∧ ∃ q, latest calls r.otherWorkspace = some q ∧ ∃ p ∈ paths, p ∈ q
  ordered : results.Pairwise fun r r' => r'.level.rank ≤ r.level.rank

/-- What the engine has of a workspace is its latest path list. -/
def Tracked (calls : List Call) (engine : ConflictEngine) : Prop := ∀ id,
  (FMap.get engine id = none ∧ latest calls id = none) ∨
    ∃ s paths, FMap.get engine id = some s ∧ latest calls id = some paths ∧ Tracks paths s

section Engine

variable {calls : List Call} {engine : ConflictEngine}

theorem Tracked.withFiles (h : Tracked calls engine) (id : Uuid) (intent : Text) (paths : List Path) :
    Tracks paths (engine.withFiles id intent paths) := by
  unfold ConflictEngine.withFiles
  rcases h id with ⟨hget, -⟩ | ⟨s, _, hget, -, -, hwrites, hreaches⟩
  · rw [hget]
    exact ⟨rfl, rfl, rfl⟩
  · rw [hget]
    exact ⟨rfl, hwrites, hreaches⟩

/-- **Every call keeps the engine at the latest path lists.** -/
theorem Tracked.apply (h : Tracked calls engine) (c : Call) : Tracked (calls ++ [c]) (c.apply engine) := by
  intro id
  rw [latest_concat]
  cases c with
  | updateScope w intent paths =>
    have hget : FMap.get ((Call.updateScope w intent paths).apply engine) id =
        if id = w then some (engine.withFiles w intent paths) else FMap.get engine id := FMap.get_insert _ _ _ _
    by_cases hw : w = id
    · subst hw
      have heq : (Call.updateScope w intent paths).workspace = w := rfl
      rw [hget, if_pos rfl, if_pos heq]
      exact .inr ⟨_, paths, rfl, rfl, h.withFiles w intent paths⟩
    · have hne : ¬ (Call.updateScope w intent paths).workspace = id := hw
      rw [hget, if_neg fun hid => hw hid.symm, if_neg hne]
      exact h id
  | removeWorkspace w =>
    have hget : FMap.get ((Call.removeWorkspace w).apply engine) id = if id = w then none else FMap.get engine id :=
      FMap.get_erase _ _ _
    by_cases hw : w = id
    · subst hw
      have heq : (Call.removeWorkspace w).workspace = w := rfl
      rw [hget, if_pos rfl, if_pos heq]
      exact .inl ⟨rfl, rfl⟩
    · have hne : ¬ (Call.removeWorkspace w).workspace = id := hw
      rw [hget, if_neg fun hid => hw hid.symm, if_neg hne]
      exact h id

theorem tracked_engineOf (calls : List Call) : Tracked calls (engineOf calls) := by
  induction calls using List.reverseRecOn with
  | nil => exact fun id => .inl ⟨FMap.get_empty _, rfl⟩
  | append_singleton calls c ih =>
    unfold engineOf
    rw [List.foldl_append]
    exact ih.apply c

theorem Tracks.overlap_iff {idA idB : Uuid} {p q : List Path} {a b : WorkspaceScope} (ha : Tracks p a) (hb : Tracks q b) :
    (classifyOverlap idA idB a b).level ≠ .none ↔ ∃ x ∈ p, x ∈ q := by
  rw [Ne, classifyOverlap_none_iff]
  unfold WorkQueue.Apart
  rw [ha.1, hb.1, ha.2.1, hb.2.1, Finset.disjoint_left]
  simp

theorem mem_overlapping {e : ConflictEngine} {id w : Uuid} {updated s : WorkspaceScope} :
    (id, s) ∈ WorkQueue.overlapping e w updated ↔
      FMap.get e id = some s ∧ (classifyOverlap w id updated s).level ≠ .none ∧ id ≠ w := by
  unfold WorkQueue.overlapping
  rw [List.mem_filter, ConflictEngine.mem_allScopes, Bool.and_eq_true, decide_eq_true_iff, decide_eq_true_iff]

theorem filter_overlapping {e : ConflictEngine} {id w : Uuid} {updated s : WorkspaceScope}
    (h : (id, s) ∈ WorkQueue.overlapping e w updated) :
    (WorkQueue.overlapping e w updated).filter (fun p => p.1 = id) = [(id, s)] := by
  have hnodup : ((WorkQueue.overlapping e w updated).filter fun p => p.1 = id).Nodup :=
    ((nodup_allScopes e).filter _).filter _
  refine List.perm_singleton.1 ((List.perm_ext_iff_of_nodup hnodup (List.nodup_singleton _)).2 fun p => ?_)
  obtain ⟨id', s'⟩ := p
  rw [List.mem_filter, List.mem_singleton, decide_eq_true_iff]
  constructor
  · rintro ⟨hp, rfl⟩
    have hget := (mem_overlapping.1 hp).1
    rw [(mem_overlapping.1 h).1] at hget
    rw [Option.some.inj hget]
  · intro hp
    cases hp
    exact ⟨h, rfl⟩

/-- **Overlap tracking is exact**: after any calls, an update reports each other workspace once whose latest path list
shares a file, with the files that they share, and none else. -/
theorem updateScope_tracks (calls : List Call) (w : Uuid) (intent : Text) (paths : List Path) :
    Exact calls w paths (report calls w intent paths) := by
  have htracked := tracked_engineOf calls
  have hupdated := htracked.withFiles w intent paths
  have hreport : report calls w intent paths = _ := updateScope_fst (engineOf calls) w intent paths
  constructor
  · intro id q hne hlatest hshare
    rcases htracked id with ⟨-, hnone⟩ | ⟨s, q', hget, hlatest', htracks⟩
    · rw [hlatest] at hnone
      cases hnone
    rw [hlatest] at hlatest'
    cases hlatest'
    have hmem : (id, s) ∈ WorkQueue.overlapping (engineOf calls) w ((engineOf calls).withFiles w intent paths) :=
      mem_overlapping.2 ⟨hget, (hupdated.overlap_iff htracks).2 hshare, hne⟩
    refine ⟨classifyOverlap w id ((engineOf calls).withFiles w intent paths) s, ?_, ?_⟩
    · have hperm := (List.perm_insertionSort (fun r r' : OverlapResult => r'.level.rank ≤ r.level.rank)
        ((WorkQueue.overlapping (engineOf calls) w ((engineOf calls).withFiles w intent paths)).map fun p =>
          classifyOverlap w p.1 ((engineOf calls).withFiles w intent paths) p.2)).filter fun r => r.otherWorkspace = id
      rw [← hreport, List.filter_map] at hperm
      have hother : ((fun r : OverlapResult => decide (r.otherWorkspace = id)) ∘ fun p : Uuid × WorkspaceScope =>
          classifyOverlap w p.1 ((engineOf calls).withFiles w intent paths) p.2) = fun p => decide (p.1 = id) := by
        funext p
        exact congrArg (fun x => decide (x = id)) (ends_classifyOverlap _ _ _ _).2
      rw [hother, filter_overlapping hmem] at hperm
      exact List.perm_singleton.1 hperm
    · rw [classifyOverlap_eq.2.1, hupdated.1, htracks.1]
  · intro r hr
    rw [hreport, List.mem_insertionSort, List.mem_map] at hr
    obtain ⟨p, hp, rfl⟩ := hr
    obtain ⟨id, s⟩ := p
    obtain ⟨hget, hlevel, hne⟩ := mem_overlapping.1 hp
    rw [(ends_classifyOverlap _ _ _ _).2]
    refine ⟨hne, ?_⟩
    rcases htracked id with ⟨hnone, -⟩ | ⟨s', q, hget', hlatest, htracks⟩
    · rw [hget] at hnone
      cases hnone
    · rw [hget] at hget'
      cases hget'
      exact ⟨q, hlatest, (hupdated.overlap_iff htracks).1 hlevel⟩
  · rw [hreport]
    have : Std.Total fun r r' : OverlapResult => r'.level.rank ≤ r.level.rank := ⟨fun r r' => le_total r'.level.rank r.level.rank⟩
    have : IsTrans OverlapResult fun r r' => r'.level.rank ≤ r.level.rank := ⟨fun _ _ _ h h' => le_trans h' h⟩
    exact List.pairwise_insertionSort _ _

end Engine

end Overlaps
end Vai
