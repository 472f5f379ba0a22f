import Vai.Hunks
/-!
# TryMerge — merging one file

`try_merge_file` of `merge/mod.rs` and the entity level below it: `changed_entity_ids`,
`merge_by_entity_substitution` and `detect_referential_conflicts`.  An id-keyed hash map of entities is read through
`byId`, the last entity with the id winning; a hash set of ids is a list, iterated in the order `Env.hashOrder` gives it.

The results the engine rests on: the analysis of a file never answers with an empty list of conflicts, every conflict it
answers with is of that file and workspace (`tryMergeFile_conflicts`), and the conflict ids already taken have no
influence on what it merges (`tryMergeFile_merged`).
-/
namespace Vai
namespace Merge

/-! ## Entities changed between two versions of a file -/

/-- The entity an id-keyed map of `ents` holds for `id`. -/
def byId (ents : List Entity) (id : Text) : Option Entity := ents.reverse.find? (fun e => e.id = id)

def ids (ents : List Entity) : List Text := (ents.map Entity.id).dedup

/-- The bytes of an entity's span, its end cut at the end of the file. -/
def span (content : Bytes) (e : Entity) : Option Bytes := slice content e.byteRange.1 (min e.byteRange.2 content.length)

def changedEntityIds (baseEnts : List Entity) (baseContent : Bytes) (modifiedEnts : List Entity)
    (modifiedContent : Bytes) : List Text :=
  (ids modifiedEnts).filter (fun id =>
    match byId baseEnts id, byId modifiedEnts id with
    | some b, some m => (span baseContent b).getD [] ≠ (span modifiedContent m).getD []
    | _, _ => true) ++
  (ids baseEnts).filter (fun id => id ∉ ids modifiedEnts)

/-! ## Entity substitution -/

/-- `Vec::splice`, which panics (`none`) on a range that is not inside the buffer. -/
def spliceBytes (buf : Bytes) (start stop : Nat) (replacement : Bytes) : Option Bytes :=
  if start ≤ stop ∧ stop ≤ buf.length then some (buf.take start ++ replacement ++ buf.drop stop) else none

/-- The replacements in HEAD, one for each changed entity both sides have; `none` when a span cannot be read. -/
def collectReplacements (head workspace : Bytes) (headEnts wsEnts : List Entity) :
    List Text → Option (List (Nat × Nat × Bytes))
  | [] => some []
  | id :: l =>
    match byId wsEnts id with
    | none => collectReplacements head workspace headEnts wsEnts l
    | some wsEnt => do
      let wsBytes ← span workspace wsEnt
      let rest ← collectReplacements head workspace headEnts wsEnts l
      match byId headEnts id with
      | some h => some ((h.byteRange.1, min h.byteRange.2 head.length, wsBytes) :: rest)
      | none => some rest

/-- Append the changed entities that HEAD does not have, each ended by a newline. -/
def appendNew (workspace : Bytes) (headEnts wsEnts : List Entity) : List Text → Bool → Bytes → Option Bytes
  | [], _, result => some result
  | id :: l, appended, result =>
    if (byId headEnts id).isSome then appendNew workspace headEnts wsEnts l appended result
    else
      match byId wsEnts id with
      | none => appendNew workspace headEnts wsEnts l appended result
      | some wsEnt => do
        let wsBytes ← span workspace wsEnt
        let result := if !appended && !endsWithNewline result then result ++ [10] else result
        let result := result ++ wsBytes
        let result := if !endsWithNewline result then result ++ [10] else result
        appendNew workspace headEnts wsEnts l true result

/-- The outer `none` is a panic of `splice`; the inner one the `None` of the source. -/
def mergeByEntitySubstitution (env : Env) (head workspace : Bytes) (headEnts wsEnts : List Entity)
    (wsChangedIds : List Text) : Option (Option Bytes) :=
  let order := env.hashOrder wsChangedIds
  match collectReplacements head workspace headEnts wsEnts order with
  | none => some none
  | some replacements =>
    let sorted := replacements.insertionSort (fun a b => a.1 ≥ b.1)
    match sorted.foldlM (fun buf r => spliceBytes buf r.1 r.2.1 r.2.2) head with
    | none => none
    | some result => some (appendNew workspace headEnts wsEnts order false result)

/-! ## Referential conflicts -/

def makeConflict (filePath : Path) (workspaceId : Uuid) (entityIds : List Text) (description : Text)
    (severity : ConflictSeverity) (mergeLevel : Nat) (conflictId : Uuid) : ConflictRecord :=
  { conflictId, workspaceId, filePath, entityIds, description, severity, mergeLevel, resolved := false }

/-- Push a conflict with the next fresh id; `n` ids have been taken by the files before this one. -/
def pushConflict (env : Env) (n : Nat) (acc : List ConflictRecord) (mk : Uuid → ConflictRecord) :
    List ConflictRecord := acc ++ [mk (env.newUuid (n + acc.length))]

section Detect

variable (env : Env) (n : Nat) (filePath : Path) (workspaceId : Uuid) (base head : Bytes)
variable (baseEnts headEnts wsEnts : List Entity)

/-- Check 1: the same entity modified by both sides. -/
def conflictBothModified (acc : List ConflictRecord) (id : Text) : List ConflictRecord :=
  let name := match (baseEnts.find? (fun e => e.id = id)).or (headEnts.find? (fun e => e.id = id)) with
    | some e => e.qualifiedName
    | none => "unknown".toList
  pushConflict env n acc (makeConflict filePath workspaceId [id]
    ("Entity `".toList ++ name ++ "` was modified by both workspace and HEAD — manual resolution required".toList)
    .high 3)

def wsRemoved : List Entity := baseEnts.filter (fun e => e.id ∉ ids wsEnts)

def headChangedIt (removed : Entity) : Bool :=
  removed.id ∉ ids headEnts || headEnts.any (fun he =>
    he.id = removed.id && (span base removed).getD [] ≠ (span head he).getD [])

/-- Check 2: an entity removed in the workspace and changed by HEAD. -/
def conflictRemovedModified (acc : List ConflictRecord) (removed : Entity) : List ConflictRecord :=
  if headChangedIt base head headEnts removed then
    pushConflict env n acc (makeConflict filePath workspaceId [removed.id]
      ("Entity `".toList ++ removed.qualifiedName ++
        "` removed in workspace but modified in HEAD — cannot auto-merge".toList) .high 3)
  else acc

/-- Check 3: an entity removed in the workspace whose name HEAD still contains. -/
def conflictStaleName (headStr : Text) (acc : List ConflictRecord) (removed : Entity) : List ConflictRecord :=
  if acc.any (fun c => removed.id ∈ c.entityIds) then acc
  else if removed.name ≠ [] ∧ Text.containsText headStr removed.name then
    pushConflict env n acc (makeConflict filePath workspaceId [removed.id]
      ("Entity `".toList ++ removed.name ++ ("` removed/renamed in workspace but old name " ++
        "still referenced in HEAD — possible stale call site").toList) .medium 3)
  else acc

def detectReferentialConflicts (overlappingIds : List Text) : List ConflictRecord :=
  let removed := wsRemoved baseEnts wsEnts
  let conflicts := (env.hashOrder overlappingIds).foldl
    (conflictBothModified env n filePath workspaceId baseEnts headEnts) []
  let conflicts := removed.foldl (conflictRemovedModified env n filePath workspaceId base head headEnts) conflicts
  let conflicts := match Text.fromUtf8 head with
    | some headStr => removed.foldl (conflictStaleName env n filePath workspaceId headStr) conflicts
    | none => conflicts
  if conflicts.isEmpty then
    pushConflict env n conflicts (makeConflict filePath workspaceId []
      ("Overlapping changes in `".toList ++ filePath ++ "` could not be auto-merged".toList) .high 3)
  else conflicts

end Detect

/-! ## One file -/

inductive FileMergeResult where
  | autoMerged (merged : Bytes) (level : Nat)
  | conflicts (records : List ConflictRecord)
  deriving DecidableEq, Repr

/-- The merged content, `none` for conflicts. -/
def FileMergeResult.merged : FileMergeResult → Option Bytes
  | .autoMerged m _ => some m
  | .conflicts _ => none

def isRustPath (p : Path) : Bool := ".rs".toList.isSuffixOf p

/-- Levels 2 and 3, on the parsed entities of the three versions. -/
def mergeEntities (env : Env) (n : Nat) (filePath : Path) (base head workspace : Bytes) (workspaceId : Uuid)
    (baseEnts headEnts wsEnts : List Entity) : Option FileMergeResult :=
  let headChangedIds := changedEntityIds baseEnts base headEnts head
  let wsChangedIds := changedEntityIds baseEnts base wsEnts workspace
  let overlap := headChangedIds.filter (· ∈ wsChangedIds)
  let conflicts := FileMergeResult.conflicts
    (detectReferentialConflicts env n filePath workspaceId base head baseEnts headEnts wsEnts overlap)
  if overlap.isEmpty then
    match mergeByEntitySubstitution env head workspace headEnts wsEnts wsChangedIds with
    | none => none
    | some (some merged) => some (.autoMerged merged 2)
    | some none => some conflicts
  else some conflicts

/-- `try_merge_file`; `n` counts the conflict ids already handed out.  `none` is a panic. -/
def tryMergeFile (env : Env) (n : Nat) (filePath : Path) (base head workspace : Bytes) (workspaceId : Uuid) :
    Option FileMergeResult :=
  let baseLines := splitLines base
  let headHunks := computeHunks baseLines (splitLines head)
  let wsHunks := computeHunks baseLines (splitLines workspace)
  let textual := FileMergeResult.conflicts
    (pushConflict env n [] (makeConflict filePath workspaceId []
      ("Overlapping text changes in `".toList ++ filePath ++ ['`']) .medium 1))
  if !hunksOverlap headHunks wsHunks then
    (applyTwoHunkSets baseLines head workspace headHunks wsHunks).map (FileMergeResult.autoMerged · 1)
  else if isRustPath filePath then
    match env.parseRustSource filePath base, env.parseRustSource filePath head,
        env.parseRustSource filePath workspace with
    | .ok (baseEnts, _), .ok (headEnts, _), .ok (wsEnts, _) =>
      mergeEntities env n filePath base head workspace workspaceId baseEnts headEnts wsEnts
    | _, _, _ => some textual
  else some textual

/-! ## The conflicts of a file -/

theorem pushConflict_ne_nil (env : Env) (n : Nat) (acc : List ConflictRecord) (mk : Uuid → ConflictRecord) :
    pushConflict env n acc mk ≠ [] := by
  simp [pushConflict]

theorem detectReferentialConflicts_ne_nil (env : Env) (n : Nat) (filePath : Path) (workspaceId : Uuid)
    (base head : Bytes) (baseEnts headEnts wsEnts : List Entity) (overlap : List Text) :
    detectReferentialConflicts env n filePath workspaceId base head baseEnts headEnts wsEnts overlap ≠ [] := by
  unfold detectReferentialConflicts
  simp only
  generalize (match Text.fromUtf8 head with
    | some headStr => (wsRemoved baseEnts wsEnts).foldl (conflictStaleName env n filePath workspaceId headStr) _
    | none => _) = conflicts
  split
  · exact pushConflict_ne_nil env n _ _
  · rename_i h
    intro hn
    exact h (List.isEmpty_iff.2 hn)

/-- Every record of a list is about this file and this workspace. -/
def About (filePath : Path) (workspaceId : Uuid) (cs : List ConflictRecord) : Prop :=
  ∀ c ∈ cs, c.filePath = filePath ∧ c.workspaceId = workspaceId

theorem about_nil (p : Path) (w : Uuid) : About p w [] := fun _ hc => absurd hc List.not_mem_nil

theorem about_push {env : Env} {n : Nat} {p : Path} {w : Uuid} {acc : List ConflictRecord} (h : About p w acc)
    (ids : List Text) (d : Text) (sev : ConflictSeverity) (l : Nat) :
    About p w (pushConflict env n acc (makeConflict p w ids d sev l)) := by
  intro c hc
  rcases List.mem_append.1 hc with hc | hc
  · exact h c hc
  · rw [List.mem_singleton.1 hc]
    exact ⟨rfl, rfl⟩

theorem about_foldl {α : Type} {p : Path} {w : Uuid} {f : List ConflictRecord → α → List ConflictRecord}
    (hf : ∀ acc a, About p w acc → About p w (f acc a)) :
    ∀ (l : List α) (acc : List ConflictRecord), About p w acc → About p w (l.foldl f acc)
  | [], _, h => h
  | a :: l, acc, h => about_foldl hf l (f acc a) (hf acc a h)

theorem about_detectReferentialConflicts (env : Env) (n : Nat) (p : Path) (w : Uuid) (base head : Bytes)
    (baseEnts headEnts wsEnts : List Entity) (overlap : List Text) :
    About p w (detectReferentialConflicts env n p w base head baseEnts headEnts wsEnts overlap) := by
  have h1 : About p w ((env.hashOrder overlap).foldl (conflictBothModified env n p w baseEnts headEnts) []) :=
    about_foldl (fun acc id h => about_push h _ _ _ _) _ _ (about_nil p w)
  have h2 := about_foldl (f := conflictRemovedModified env n p w base head headEnts) (fun acc e h => by
    unfold conflictRemovedModified
    split
    · exact about_push h _ _ _ _
    · exact h) (wsRemoved baseEnts wsEnts) _ h1
  have h3 : ∀ s, About p w ((wsRemoved baseEnts wsEnts).foldl (conflictStaleName env n p w s)
      ((wsRemoved baseEnts wsEnts).foldl (conflictRemovedModified env n p w base head headEnts)
        ((env.hashOrder overlap).foldl (conflictBothModified env n p w baseEnts headEnts) []))) := fun s =>
    about_foldl (fun acc e h => by
      unfold conflictStaleName
      split
      · exact h
      · split
        · exact about_push h _ _ _ _
        · exact h) _ _ h2
  unfold detectReferentialConflicts
  cases Text.fromUtf8 head with
  | none =>
    simp only
    split
    · exact about_push h2 _ _ _ _
    · exact h2
  | some s =>
    simp only
    split
    · exact about_push (h3 s) _ _ _ _
    · exact h3 s

/-- What `try_merge_file` answers, case by case: level 1, the entity levels, or a textual conflict. -/
theorem tryMergeFile_cases (env : Env) (n : Nat) (p : Path) (base head ws : Bytes) (w : Uuid) :
    (∃ r : Option Bytes, tryMergeFile env n p base head ws w = r.map (FileMergeResult.autoMerged · 1)) ∨
    (∃ bs hs ss, tryMergeFile env n p base head ws w = mergeEntities env n p base head ws w bs hs ss) ∨
    tryMergeFile env n p base head ws w = some (.conflicts (pushConflict env n [] (makeConflict p w []
      ("Overlapping text changes in `".toList ++ p ++ ['`']) .medium 1))) := by
  unfold tryMergeFile
  simp only
  split
  · exact .inl ⟨_, rfl⟩
  · split
    · split
      · exact .inr (.inl ⟨_, _, _, rfl⟩)
      · exact .inr (.inr rfl)
    · exact .inr (.inr rfl)

theorem mergeEntities_conflicts {env : Env} {n : Nat} {p : Path} {base head ws : Bytes} {w : Uuid}
    {bs hs ss : List Entity} {cs : List ConflictRecord}
    (h : mergeEntities env n p base head ws w bs hs ss = some (.conflicts cs)) :
    ∃ overlap, cs = detectReferentialConflicts env n p w base head bs hs ss overlap := by
  unfold mergeEntities at h
  simp only at h
  split at h
  · split at h
    · cases h
    · cases h
    · exact ⟨_, by simpa using h.symm⟩
  · exact ⟨_, by simpa using h.symm⟩

/-- **A file that is not merged contributes at least one conflict, and only conflicts of its own.** -/
theorem tryMergeFile_conflicts {env : Env} {n : Nat} {p : Path} {base head ws : Bytes} {w : Uuid}
    {cs : List ConflictRecord} (h : tryMergeFile env n p base head ws w = some (.conflicts cs)) :
    cs ≠ [] ∧ About p w cs := by
  rcases tryMergeFile_cases env n p base head ws w with ⟨r, hr⟩ | ⟨bs, hs, ss, hr⟩ | hr
  · rw [hr] at h
    cases r <;> simp at h
  · rw [hr] at h
    obtain ⟨overlap, rfl⟩ := mergeEntities_conflicts h
    exact ⟨detectReferentialConflicts_ne_nil env n p w base head bs hs ss overlap,
      about_detectReferentialConflicts env n p w base head bs hs ss overlap⟩
  · rw [hr] at h
    simp only [Option.some.injEq, FileMergeResult.conflicts.injEq] at h
    subst h
    exact ⟨pushConflict_ne_nil env n _ _, about_push (about_nil p w) _ _ _ _⟩

theorem mergeEntities_merged (env : Env) (n n' : Nat) (p : Path) (base head ws : Bytes) (w : Uuid)
    (bs hs ss : List Entity) :
    (mergeEntities env n p base head ws w bs hs ss).map FileMergeResult.merged =
      (mergeEntities env n' p base head ws w bs hs ss).map FileMergeResult.merged := by
  unfold mergeEntities
  simp only
  split
  · split <;> rfl
  · rfl

theorem tryMergeFile_merged (env : Env) (n n' : Nat) (p : Path) (base head ws : Bytes) (w : Uuid) :
    (tryMergeFile env n p base head ws w).map FileMergeResult.merged =
      (tryMergeFile env n' p base head ws w).map FileMergeResult.merged := by
  unfold tryMergeFile
  simp only
  split
  · rfl
  · split
    · split
      · exact mergeEntities_merged ..
      · rfl
    · rfl

end Merge
end Vai
