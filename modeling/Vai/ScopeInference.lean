import Vai.GraphDistance
import Vai.Sorting
/-!
# ScopeInference — what an intent is predicted to touch (`scope_inference/mod.rs`, `scope_history/mod.rs`)

`infer` matches the terms of the intent against the graph and goes on along the relationships; `infer_with_history` raises
and adds what earlier intents with the same terms touched.  Hash maps are listed in the order of `Env.hashOrder`; the
records of the history come as `Sorting.RowOrder` gives them.

A weight is an `f64`: `F64` is what the weights need of one.  The time of the inference is left out.
-/
namespace Vai

open IssueDir (Unicode)

namespace GraphSnapshot

/-- SQLite's `lower`, which knows ASCII only. -/
def sqliteLower (t : Text) : Text := t.map Char.toLower

def broad (unicode : Unicode) (term : Text) : Text := containing (unicode.toLowercase term)

def searchEntitiesBroad (unicode : Unicode) (g : GraphSnapshot) (term : Text) : Except GraphError (List Entity) :=
  g.selectLike (broad unicode term) fun e =>
    sqliteLike (broad unicode term) (sqliteLower e.name) || sqliteLike (broad unicode term) (sqliteLower e.qualifiedName) ||
      sqliteLike (broad unicode term) (sqliteLower e.filePath)

end GraphSnapshot

inductive ConfidenceLevel where
  | low | medium | high
deriving DecidableEq, Repr

def ConfidenceLevel.rank : ConfidenceLevel → Nat
  | .low => 0
  | .medium => 1
  | .high => 2

structure ScopedEntity where
  entity : Entity
  confidence : ConfidenceLevel
  reason : Text
deriving DecidableEq

structure HistoryInfluence where
  pastIntent : Text
  entityIds : List Text
  termOverlap : Nat
deriving DecidableEq

structure ScopeInference where
  intent : Text
  terms : List Text
  predictedScope : List ScopedEntity
  historyInfluences : List HistoryInfluence
deriving DecidableEq

namespace ScopeInference

/-- Common English stop words plus programming action verbs. -/
def stopWords : List Text :=
  ["a", "an", "the", "this", "that", "these", "those", "each", "every", "some", "any", "all", "both", "few", "more", "most",
   "other", "such", "in", "on", "at", "by", "for", "of", "to", "up", "as", "or", "and", "but", "not", "nor", "so", "yet",
   "with", "into", "from", "about", "above", "after", "before", "below", "between", "during", "through", "it", "its", "they",
   "them", "their", "we", "our", "you", "your", "he", "she", "his", "her", "who", "which", "what", "where", "when", "how",
   "why", "is", "are", "was", "were", "be", "been", "being", "have", "has", "had", "do", "does", "did", "will", "would",
   "could", "should", "may", "might", "shall", "can", "add", "fix", "update", "implement", "change", "refactor", "remove",
   "delete", "create", "make", "build", "use", "using", "get", "set", "new", "old", "now", "also", "just", "very", "too",
   "than", "then", "there", "if", "else", "while", "return", "need", "needs", "want"].map String.toList

/-! ## Matching -/

section Infer

variable (unicode : Unicode)

def extractTerms (intent : Text) : List Text :=
  (((intent.splitOnP fun c => !unicode.isAlphanumeric c && c ≠ '_').map fun t =>
      unicode.toLowercase (Text.trimEndMatches '_' (Text.trimStartMatches '_' t))).filter fun t =>
    3 ≤ (Text.intoBytes t).length && t ∉ stopWords).eraseDups

/-- A candidate of a term: an entry of its own, or a better confidence for the one there is. -/
def matchEntity (scope : FMap Text ScopedEntity) (candidate : Text × Entity) : FMap Text ScopedEntity :=
  let term := candidate.1
  let entity := candidate.2
  let conf := if unicode.toLowercase entity.name = term then ConfidenceLevel.high else .medium
  let reason := "name/path matches term '".toList ++ term ++ "'".toList
  match scope.get entity.id with
  | none => scope.insert entity.id ⟨entity, conf, reason⟩
  | some e => if e.confidence.rank < conf.rank then scope.insert entity.id ⟨e.entity, conf, reason⟩ else scope

def termCandidates (g : GraphSnapshot) (term : Text) : Except GraphError (List (Text × Entity)) := do
  let entities ← g.searchEntitiesBroad unicode term
  pure (entities.map fun e => (term, e))

/-- The candidates of every term, in the order of the terms. -/
def candidates (g : GraphSnapshot) (terms : List Text) : Except GraphError (List (Text × Entity)) := do
  pure (← terms.mapM (termCandidates unicode g)).flatten

def directScope (g : GraphSnapshot) (terms : List Text) : Except GraphError (FMap Text ScopedEntity) := do
  pure ((← candidates unicode g terms).foldl (matchEntity unicode) ∅)

/-! ## Expansion -/

def hopScoped (hopDist : FMap Text Nat) (maxHops : Nat) (e : Entity) : ScopedEntity :=
  let hops := (hopDist.get e.id).getD maxHops
  ⟨e, if hops = 1 then .medium else .low, Text.ofNat hops ++ "-hop relationship from direct match".toList⟩

/-- An entity that is in scope stays as it is. -/
def addHop (hopDist : FMap Text Nat) (maxHops : Nat) (scope : FMap Text ScopedEntity) (e : Entity) :
    FMap Text ScopedEntity :=
  if (scope.get e.id).isSome then scope else scope.insert e.id (hopScoped hopDist maxHops e)

/-- The distances of the ids that the search finds. -/
def hopDistances (env : Env) (g : GraphSnapshot) (maxHops : Nat) (scope : FMap Text ScopedEntity) : FMap Text Nat :=
  Bfs.distances g.neighbours maxHops g.endpoints (env.hashOrder scope.keys)

/-- The ids that are new to the scope. -/
def newIds (env : Env) (hopDist : FMap Text Nat) (scope : FMap Text ScopedEntity) : List Text :=
  (env.hashOrder hopDist.keys).filter fun id => (hopDist.get id).any (0 < ·) && (scope.get id).isNone

def expand (env : Env) (g : GraphSnapshot) (maxHops : Nat) (scope : FMap Text ScopedEntity) :
    Except GraphError (FMap Text ScopedEntity) :=
  if 0 < maxHops ∧ scope.keys ≠ [] then do
    let hopDist := hopDistances env g maxHops scope
    let entities ← g.getEntitiesByIds (newIds env hopDist scope)
    pure (entities.foldl (addHop hopDist maxHops) scope)
  else pure scope

/-- The entries of a hash map. -/
def intoValues (env : Env) (scope : FMap Text ScopedEntity) : List ScopedEntity :=
  (env.hashOrder scope.keys).filterMap scope.get

/-- HIGH first, then MEDIUM, then LOW; stable within each band. -/
def byConfidence (scope : List ScopedEntity) : List ScopedEntity :=
  scope.insertionSort fun a b => b.confidence.rank ≤ a.confidence.rank

def infer (env : Env) (g : GraphSnapshot) (intent : Text) (maxHops : Nat) : Except GraphError ScopeInference := do
  let terms := extractTerms unicode intent
  let scope ← expand env g maxHops (← directScope unicode g terms)
  pure ⟨intent, terms, byConfidence (intoValues env scope), []⟩

end Infer
end ScopeInference

/-! ## History -/

/-- What the weights need of an `f64`. -/
structure F64 (W : Type) where
  zero : W
  add : W → W → W
  ratio : Nat → Nat → W
  lt : W → W → Bool
  twoDecimals : W → Text

structure IntentRecord where
  intentText : Text
  terms : List Text
  actualEntityIds : List Text
  recordedAt : Text
deriving DecidableEq

structure EntityWeight (W : Type) where
  entityId : Text
  weight : W

/-- The rows of `intent_history`. -/
abbrev ScopeHistoryStore := List IntentRecord

namespace ScopeHistoryStore

variable (rows : Sorting.RowOrder IntentRecord)

def listRecent (history : ScopeHistoryStore) (limit : Nat) : List IntentRecord :=
  (rows.orderBy (fun a b => decide (b.recordedAt ≤ a.recordedAt)) history).take limit

/-- The terms of a record that are among those asked for. -/
def overlap (queryTerms : List Text) (record : IntentRecord) : Nat := (record.terms.filter (· ∈ queryTerms)).length

variable {W : Type} (f64 : F64 W)

def addScore (score : W) (weights : FMap Text W) (entityId : Text) : FMap Text W :=
  weights.insert entityId (f64.add ((weights.get entityId).getD f64.zero) score)

def weigh (queryTerms : List Text) (weights : FMap Text W) (record : IntentRecord) : FMap Text W :=
  if record.actualEntityIds = [] then weights
  else if overlap queryTerms record = 0 then weights
  else record.actualEntityIds.foldl (addScore f64 (f64.ratio (overlap queryTerms record) queryTerms.length)) weights

def computeEntityWeights (env : Env) (history : ScopeHistoryStore) (queryTerms : List Text) : List (EntityWeight W) :=
  if queryTerms = [] then []
  else
    let weights := (listRecent rows history 10000).foldl (weigh f64 queryTerms) ∅
    ((env.hashOrder weights.keys).filterMap fun id => (weights.get id).map fun w => ⟨id, w⟩).insertionSort fun a b =>
      f64.lt a.weight b.weight = false

end ScopeHistoryStore

namespace ScopeInference

open ScopeHistoryStore

variable {W : Type} (f64 : F64 W)

def boosted : ConfidenceLevel → ConfidenceLevel
  | .low => .medium
  | .medium => .high
  | .high => .high

def boost (weightMap : FMap Text W) (s : ScopedEntity) : ScopedEntity := match weightMap.get s.entity.id with
  | none => s
  | some w =>
    if f64.lt f64.zero w = true ∧ s.confidence.rank < (boosted s.confidence).rank then
      { s with
        confidence := boosted s.confidence
        reason := s.reason ++ " + historical match (weight ".toList ++ f64.twoDecimals w ++ [')'] }
    else s

/-- An entity that only history knows. -/
def historical (weightMap : FMap Text W) (e : Entity) : Option ScopedEntity :=
  (weightMap.get e.id).map fun w => ⟨e, .low, "historical match (weight ".toList ++ f64.twoDecimals w ++ [')']⟩

def influence (terms : List Text) (record : IntentRecord) : Option HistoryInfluence :=
  if overlap terms record = 0 ∨ record.actualEntityIds = [] then none
  else some ⟨record.intentText, record.actualEntityIds, overlap terms record⟩

def inferWithHistory (unicode : Unicode) (rows : Sorting.RowOrder IntentRecord) (env : Env) (g : GraphSnapshot)
    (history : ScopeHistoryStore) (intent : Text) (maxHops : Nat) : Except GraphError ScopeInference := do
  let result ← infer unicode env g intent maxHops
  let weights := computeEntityWeights rows f64 env history result.terms
  if weights.isEmpty then pure result
  else
    let weightMap : FMap Text W := FMap.ofList (weights.map fun w => (w.entityId, w.weight))
    let kept := result.predictedScope.map (boost f64 weightMap)
    let existingIds := kept.map fun s => s.entity.id
    let newIds := (env.hashOrder weightMap.keys).filter (· ∉ existingIds)
    let added := (← g.getEntitiesByIds newIds).filterMap (historical f64 weightMap)
    pure { result with
      predictedScope := byConfidence (kept ++ added)
      historyInfluences := ((listRecent rows history 10000).filterMap (influence result.terms)).insertionSort fun a b =>
        b.termOverlap ≤ a.termOverlap }

end ScopeInference
end Vai
