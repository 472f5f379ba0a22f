import Vai.Data
/-!
# Graph — the semantic graph snapshot (`graph/mod.rs`)

The two tables of `.vai/graph/snapshot.db`, rows under their primary key.  `update_file` removes what the graph holds
of a file, parses the file again and stores what it finds; an entity or relationship already stored under the same id
is replaced.

The parsers are a parameter (`Env.parseSourceFile`).  What the proofs take from them is `Env.EntityIds`: the entities
of a file carry its path, and the ids of two files, digests of a path and a qualified name, do not meet.
-/
namespace Vai

structure GraphSnapshot where
  entities : FMap Text Entity
  relationships : FMap Text Relationship

/-- What the proofs take from the parsers. -/
structure Env.EntityIds (env : Env) : Prop where
  filePath : ∀ {p c r}, env.parseSourceFile p c = .ok r → ∀ e ∈ r.1, e.filePath = p
  apart : ∀ {p c r p' c' r'}, env.parseSourceFile p c = .ok r → env.parseSourceFile p' c' = .ok r' →
    ∀ e ∈ r.1, ∀ e' ∈ r'.1, e.id = e'.id → p = p'

namespace GraphSnapshot

instance : EmptyCollection GraphSnapshot := ⟨⟨∅, ∅⟩⟩

def upsertEntity (g : GraphSnapshot) (e : Entity) : GraphSnapshot := { g with entities := g.entities.insert e.id e }

def upsertRelationship (g : GraphSnapshot) (r : Relationship) : GraphSnapshot :=
  { g with relationships := g.relationships.insert r.id r }

def getEntityIdsForFile (g : GraphSnapshot) (p : Path) : List Text :=
  (g.entities.pairs.filter (fun q => q.2.filePath = p)).map Prod.fst

def removeFile (g : GraphSnapshot) (p : Path) : GraphSnapshot where
  entities := g.entities.filter (fun _ e => e.filePath ≠ p)
  relationships :=
    g.relationships.filter (fun _ r => r.fromEntity ∉ g.getEntityIdsForFile p ∧ r.toEntity ∉ g.getEntityIdsForFile p)

/-- `update_file`: what the graph holds of the file is removed before the parse. -/
def updateFile (env : Env) (p : Path) (source : Bytes) (g : GraphSnapshot) : Except GraphError Unit × GraphSnapshot :=
  let g := g.removeFile p
  match env.parseSourceFile p source with
  | .error e => (.error e, g)
  | .ok (entities, relationships) =>
    (.ok (), relationships.foldl upsertRelationship (entities.foldl upsertEntity g))

/-- `e` is stored. -/
def Holds (g : GraphSnapshot) (e : Entity) : Prop := g.entities.get e.id = some e

/-- The entities of a file, as they are stored: of two with one id the later. -/
def parsed (env : Env) (p : Path) (c : Bytes) : FMap Text Entity :=
  match env.parseSourceFile p c with
  | .ok r => FMap.ofList (r.1.map (fun e => (e.id, e)))
  | .error _ => ∅

/-- Every stored entity is under its own id, and some content of its file has it. -/
def Sourced (env : Env) (g : GraphSnapshot) : Prop :=
  ∀ i e, g.entities.get i = some e → e.id = i ∧ ∃ c r, env.parseSourceFile e.filePath c = .ok r ∧ e ∈ r.1

/-! ## Storing -/

@[simp] theorem entities_foldl_upsertRelationship : ∀ (rs : List Relationship) (g : GraphSnapshot),
    (rs.foldl upsertRelationship g).entities = g.entities
  | [], _ => rfl
  | r :: rs, g => by
    rw [List.foldl_cons, entities_foldl_upsertRelationship rs]
    rfl

theorem entities_foldl_upsertEntity : ∀ (es : List Entity) (g : GraphSnapshot),
    (es.foldl upsertEntity g).entities = (es.map (fun e => (e.id, e))).foldl (fun m q => m.insert q.1 q.2) g.entities
  | [], _ => rfl
  | e :: es, g => by
    rw [List.foldl_cons, entities_foldl_upsertEntity es]
    rfl

theorem entities_updateFile (env : Env) (p : Path) (c : Bytes) (g : GraphSnapshot) :
    (updateFile env p c g).2.entities = match env.parseSourceFile p c with
      | .ok r => (r.1.map (fun e => (e.id, e))).foldl (fun m q => m.insert q.1 q.2) (g.removeFile p).entities
      | .error _ => (g.removeFile p).entities := by
  unfold updateFile
  cases env.parseSourceFile p c with
  | error e => rfl
  | ok r =>
    obtain ⟨es, rs⟩ := r
    simp only [entities_foldl_upsertRelationship, entities_foldl_upsertEntity]

/-! ## What `update_file` leaves -/

variable {env : Env} {g : GraphSnapshot}

theorem get_removeFile {p : Path} {i : Text} {e : Entity} :
    (g.removeFile p).entities.get i = some e ↔ g.entities.get i = some e ∧ e.filePath ≠ p := by
  unfold removeFile
  simp only [FMap.get_filter, ne_eq, decide_not, Bool.not_eq_true', decide_eq_false_iff_not]

theorem get_parsed {p : Path} {c : Bytes} {i : Text} {e : Entity} (h : (parsed env p c).get i = some e) :
    e.id = i ∧ ∃ r, env.parseSourceFile p c = .ok r ∧ e ∈ r.1 := by
  unfold parsed at h
  cases hr : env.parseSourceFile p c with
  | error x =>
    rw [hr] at h
    simp at h
  | ok r =>
    rw [hr] at h
    obtain ⟨e', he', heq⟩ := List.mem_map.1 (FMap.get_ofList_mem h)
    cases heq
    exact ⟨rfl, r, rfl, he'⟩

/-- The table after `update_file`: the file's entities, over what is left without it. -/
theorem get_updateFile (p : Path) (c : Bytes) (i : Text) :
    (updateFile env p c g).2.entities.get i = ((parsed env p c).get i).or ((g.removeFile p).entities.get i) := by
  rw [entities_updateFile]
  unfold parsed
  cases env.parseSourceFile p c with
  | error x => simp
  | ok r => exact FMap.get_foldl_insert _ _ i

/-- **`update_file` replaces the entities of one file and keeps all others.** -/
theorem holds_updateFile (hi : env.EntityIds) (hs : Sourced env g) {p : Path} {c : Bytes} {e : Entity} :
    (updateFile env p c g).2.Holds e ↔ if e.filePath = p then (parsed env p c).get e.id = some e else g.Holds e := by
  unfold Holds
  rw [get_updateFile]
  cases hp : (parsed env p c).get e.id with
  | some e' =>
    obtain ⟨hid, r, hr, he'⟩ := get_parsed hp
    have hpath := hi.filePath hr e' he'
    rw [Option.some_or]
    constructor
    · intro h
      cases h
      rw [if_pos hpath]
    · intro h
      split at h
      · exact h
      · -- an entity of another file has another id
        rename_i hne
        obtain ⟨-, c', r', hr', he⟩ := hs e.id e h
        exact absurd (hi.apart hr' hr e he e' he' hid.symm) hne
  | none =>
    rw [Option.none_or, get_removeFile]
    split
    · simp [*]
    · simp [*]

theorem sourced_updateFile (hi : env.EntityIds) (hs : Sourced env g) (p : Path) (c : Bytes) :
    Sourced env (updateFile env p c g).2 := by
  intro i e h
  rw [get_updateFile] at h
  cases hp : (parsed env p c).get i with
  | some e' =>
    rw [hp, Option.some_or] at h
    cases h
    obtain ⟨hid, r, hr, he⟩ := get_parsed hp
    exact ⟨hid, c, r, by rwa [hi.filePath hr e he], he⟩
  | none =>
    rw [hp, Option.none_or, get_removeFile] at h
    exact hs i e h.1

end GraphSnapshot
end Vai
