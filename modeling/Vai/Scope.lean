import Vai.Graph
import Vai.Issue
/-!
# Scope — what an issue is predicted to touch, and what it overlaps with

`predict_scope` of `work_queue/mod.rs` with the queries of `graph/mod.rs` that it makes, and `ConflictEngine` of
`conflict/mod.rs`.  `reachable_entities` goes through the ids level by level, as its queue does; the relationships that it
also returns are left out, no caller here reads them.

`all_scopes` is in no order in particular: it is taken in the order of the workspace ids.
-/
namespace Vai

open IssueDir (Unicode)

/-- SQLite's `LIKE`, the pattern first: it has no escapes, and ASCII letters match in either case. -/
def sqliteLike : Text → Text → Bool
  | [], s => s.isEmpty
  | '%' :: p, s => s.tails.any (sqliteLike p)
  | '_' :: p, s => !s.isEmpty && sqliteLike p s.tail
  | c :: p, s => s.head?.any (fun d => d.toLower = c.toLower) && sqliteLike p s.tail

/-! ## What SQLite refuses

A `LIKE` fails at the first row that it is put to where its pattern has more bytes than `SQLITE_MAX_LIKE_PATTERN_LENGTH`,
and a statement with more parameters than `SQLITE_MAX_VARIABLE_NUMBER` is not prepared. -/

def maxLikePatternLength : Nat := 50000

def maxVariableNumber : Nat := 32766

namespace GraphSnapshot

/-- `ORDER BY file_path, line_start`. -/
def ordered (es : List Entity) : List Entity :=
  es.insertionSort fun a b => a.filePath < b.filePath ∨ (a.filePath = b.filePath ∧ a.lineRange.1 ≤ b.lineRange.1)

/-- The rows of the entities that pass a test. -/
def select (g : GraphSnapshot) (p : Entity → Bool) : List Entity := ordered ((g.entities.pairs.map Prod.snd).filter p)

/-- The rows for which a test with `LIKE pattern` holds. -/
def selectLike (g : GraphSnapshot) (pattern : Text) (p : Entity → Bool) : Except GraphError (List Entity) :=
  if g.entities.pairs ≠ [] ∧ maxLikePatternLength < (Text.intoBytes pattern).length then
    .error (.database "LIKE or GLOB pattern too complex".toList)
  else .ok (g.select p)

def containing (pattern : Text) : Text := '%' :: pattern ++ ['%']

def searchEntitiesByName (g : GraphSnapshot) (pattern : Text) : Except GraphError (List Entity) :=
  g.selectLike (containing pattern) fun e => sqliteLike (containing pattern) e.name

/-- One parameter for each id. -/
def getEntitiesByIds (g : GraphSnapshot) (ids : List Text) : Except GraphError (List Entity) :=
  if ids = [] then .ok []
  else if maxVariableNumber < ids.length then .error (.database "too many SQL variables".toList)
  else .ok (g.select fun e => e.id ∈ ids)

/-- The other ends of the relationships of an entity. -/
def neighbours (g : GraphSnapshot) (id : Text) : List Text :=
  ((g.relationships.pairs.map Prod.snd).filter fun r => r.fromEntity = id || r.toEntity = id).map fun r =>
    if r.fromEntity = id then r.toEntity else r.fromEntity

/-- The ids within `hops` of `level`, which are among those seen. -/
def reach (g : GraphSnapshot) : Nat → List Text → List Text → List Text
  | 0, seen, _ => seen
  | hops + 1, seen, level =>
    let next := ((level.flatMap g.neighbours).filter (· ∉ seen)).eraseDups
    g.reach hops (seen ++ next) next

def reachableEntities (g : GraphSnapshot) (seeds : List Text) (maxHops : Nat) : Except GraphError (List Entity) :=
  g.getEntitiesByIds (g.reach maxHops seeds.eraseDups seeds.eraseDups)

end GraphSnapshot

/-! ## Prediction -/

inductive PredictionConfidence where
  | high | medium | low
deriving DecidableEq, Repr

structure PredictedEntity where
  id : Text
  name : Text
  filePath : Path
  confidence : PredictionConfidence
deriving DecidableEq, Repr

structure ScopePrediction where
  entities : List PredictedEntity
  files : List Path
  blastRadius : Nat
deriving DecidableEq, Repr

def ScopePrediction.empty : ScopePrediction := ⟨[], [], 0⟩

/-- Words excluded from keyword extraction. -/
def keywordStopWords : List Text :=
  ["a", "an", "and", "are", "as", "at", "be", "by", "do", "for", "from", "has", "he", "in", "is", "it", "its", "not", "of",
   "on", "or", "so", "that", "the", "to", "up", "use", "was", "were", "will", "with"].map String.toList

section Predict

variable (unicode : Unicode)

def extractKeywords (text : Text) : List Text :=
  (((text.splitOnP fun c => !unicode.isAlphanumeric c && c ≠ '_').map unicode.toLowercase).filter fun t =>
    3 ≤ (Text.intoBytes t).length && t ∉ keywordStopWords).eraseDups

/-- The entities whose ids have not been seen, each once. -/
def unseen : List Text → List Entity → List Entity
  | _, [] => []
  | seen, e :: es => if e.id ∈ seen then unseen seen es else e :: unseen (e.id :: seen) es

def predicted (confidence : PredictionConfidence) (e : Entity) : PredictedEntity := ⟨e.id, e.name, e.filePath, confidence⟩

/-- The prediction from the direct matches: with the stored entities one hop from them, then those up to two hops from
both. -/
def graded (g : GraphSnapshot) (direct : List Entity) : Except GraphError ScopePrediction := do
  let directIds := direct.map Entity.id
  let medium := unseen directIds (← g.reachableEntities directIds 1)
  let allIds := directIds ++ medium.map Entity.id
  let low := (← g.reachableEntities allIds 2).filter fun e => e.id ∉ allIds
  let entities := direct.map (predicted .high) ++ medium.map (predicted .medium) ++ low.map (predicted .low)
  pure ⟨entities, (entities.map PredictedEntity.filePath).eraseDups, entities.length⟩

/-- There is no graph before a source file has been parsed. -/
def predictScope (graph : Option GraphSnapshot) (text : Text) : Except GraphError ScopePrediction := match graph with
  | none => pure .empty
  | some g => do
    let found ← (extractKeywords unicode text).mapM g.searchEntitiesByName
    graded g (unseen [] found.flatten)

end Predict

/-! ## The conflict engine -/

/-- The scopes of the workspaces, of every repository. -/
abbrev ConflictEngine := FMap Uuid WorkspaceScope

/-- The prediction meets what a workspace writes or reaches. -/
def ScopePrediction.meets (p : ScopePrediction) (s : WorkspaceScope) : Bool :=
  p.files.any (· ∈ s.writeFiles) || p.entities.any (fun e => e.id ∈ s.blastRadius)

inductive OverlapLevel where
  | none | low | medium | high | critical
deriving DecidableEq, Repr

namespace OverlapLevel

def asStr : OverlapLevel → Text
  | .none => "none".toList
  | .low => "low".toList
  | .medium => "medium".toList
  | .high => "high".toList
  | .critical => "critical".toList

def rank : OverlapLevel → Nat
  | .none => 0
  | .low => 1
  | .medium => 2
  | .high => 3
  | .critical => 4

end OverlapLevel

structure OverlapResult where
  level : OverlapLevel
  yourWorkspace : Uuid
  otherWorkspace : Uuid
  otherIntent : Text
  overlappingFiles : List Path
  overlappingEntities : List Text
  recommendation : Text
deriving DecidableEq

def recommend (before between after : String) (id : Uuid) (intent : Text) : Text :=
  before.toList ++ Text.ofNat id ++ between.toList ++ intent ++ after.toList

def classifyOverlap (idA idB : Uuid) (a b : WorkspaceScope) : OverlapResult :=
  let files := (a.writeFiles ∩ b.writeFiles).sort (· ≤ ·)
  let shared := (a.writeEntities ∩ b.writeEntities).sort (· ≤ ·)
  let referential := ((a.writeEntities.filter fun x => x ∈ b.blastRadius ∧ x ∉ b.writeEntities) ∪
    b.writeEntities.filter fun x => x ∈ a.blastRadius ∧ x ∉ a.writeEntities).sort (· ≤ ·)
  if 1 < shared.length then
    ⟨.critical, idA, idB, b.intent, files, shared,
      recommend "Multiple entities are modified in both your workspace and workspace '" "' (intent: "
        "). Coordinate before submitting to avoid severe conflicts." idB b.intent⟩
  else if shared ≠ [] then
    ⟨.medium, idA, idB, b.intent, files, shared,
      recommend "You and workspace '" "' (intent: "
        ") are modifying the same entity. Consider submitting in sequence to avoid merge conflicts." idB b.intent⟩
  else if referential ≠ [] then
    ⟨.high, idA, idB, b.intent, files, referential,
      recommend "Your changes affect entities that workspace '" "' (intent: "
        ") depends on. Review the dependency chain before submitting." idB b.intent⟩
  else if files ≠ [] then
    ⟨.low, idA, idB, b.intent, files, [],
      recommend "Both you and workspace '" "' (intent: "
        ") have modified the same file(s) but different entities. Verify there are no unintended overwrites." idB b.intent⟩
  else ⟨.none, idA, idB, b.intent, [], [], []⟩

namespace ConflictEngine

def allScopes (engine : ConflictEngine) : List (Uuid × WorkspaceScope) :=
  engine.pairs.insertionSort fun p q => p.1 ≤ q.1

/-- The scope of a workspace whose files are those at `paths`. -/
def withFiles (engine : ConflictEngine) (id : Uuid) (intent : Text) (paths : List Path) : WorkspaceScope :=
  { (FMap.get engine id).getD ⟨intent, ∅, ∅, ∅⟩ with intent := intent, writeFiles := paths.toFinset }

def updateScope (engine : ConflictEngine) (id : Uuid) (intent : Text) (paths : List Path) :
    List OverlapResult × ConflictEngine :=
  let updated := engine.withFiles id intent paths
  let others := engine.allScopes.filter fun p => p.1 ≠ id
  (((others.map fun p => classifyOverlap id p.1 updated p.2).filter fun r => r.level ≠ .none).insertionSort fun r r' =>
      r'.level.rank ≤ r.level.rank,
    engine.insert id updated)

def removeWorkspace (engine : ConflictEngine) (id : Uuid) : ConflictEngine := engine.erase id

theorem mem_allScopes {engine : ConflictEngine} {id : Uuid} {s : WorkspaceScope} :
    (id, s) ∈ engine.allScopes ↔ FMap.get engine id = some s := by
  unfold allScopes
  rw [List.mem_insertionSort]
  exact FMap.mem_pairs

end ConflictEngine
end Vai
