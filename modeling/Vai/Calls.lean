import Vai.RustSource
/-!
# Calls — who calls whom, by the name of the callee

Every call expression below a function is looked up by its last identifier among the names of the file.  What a pass
adds starts at an entity of the file and leads to one (`mem_buildCallsRelationships`, `mem_buildTsCallsRelationships`).
-/
namespace Vai

def RelationshipKind.asStr : RelationshipKind → Text
  | .contains => "contains".toList
  | .imports => "imports".toList
  | .calls => "calls".toList
  | .implements => "implements".toList
  | .extends => "extends".toList

/-- A relationship under the digest of its kind and its ends. -/
def Relationship.new (digest : Bytes → Text) (kind : RelationshipKind) (fromEntity toEntity : Text) : Relationship where
  id := digest (Text.intoBytes (kind.asStr ++ "::".toList ++ fromEntity ++ "::".toList ++ toEntity))
  kind := kind
  fromEntity := fromEntity
  toEntity := toEntity

/-- The parent on top of the stack contains the child. -/
def addContainsRel (digest : Bytes → Text) (parentStack : List (Text × Text)) (childId : Text) : List Relationship :=
  (parentStack.getLast?.map fun parent => Relationship.new digest .contains parent.1 childId).toList

namespace Calls

open RustSource (nodeText)

/-! ## Nodes -/

mutual

/-- The first node, from the root down, with exactly this range. -/
def findNodeAtRange (start stop : Nat) : SyntaxNode → Option SyntaxNode
  | .mk kind field s e r₁ r₂ named children =>
    if s = start ∧ e = stop then some (.mk kind field s e r₁ r₂ named children) else findAmong start stop children

def findAmong (start stop : Nat) : List SyntaxNode → Option SyntaxNode
  | [] => none
  | n :: rest =>
    if n.named ∧ n.startByte ≤ start ∧ stop ≤ n.endByte then (findNodeAtRange start stop n).or (findAmong start stop rest)
    else findAmong start stop rest

end

section

variable (digest : Bytes → Text) (source : Bytes)

mutual

/-- `foo(...)`, `foo::bar(...)` and `self.foo(...)` by the last of their identifiers. -/
def extractFinalIdentifier : SyntaxNode → Option Text
  | .mk kind field s e r₁ r₂ named children =>
    let node := SyntaxNode.mk kind field s e r₁ r₂ named children
    if kind = "identifier".toList then nodeText source node
    else if kind = "scoped_identifier".toList then (node.childByFieldName "name".toList).bind (nodeText source)
    else if kind = "field_expression".toList then (node.childByFieldName "field".toList).bind (nodeText source)
    else if kind = "generic_function".toList then identifierOfFunction children
    else none

/-- That of the first child in the field `function`. -/
def identifierOfFunction : List SyntaxNode → Option Text
  | [] => none
  | .mk kind field s e r₁ r₂ named children :: rest =>
    if field = some "function".toList then extractFinalIdentifier (.mk kind field s e r₁ r₂ named children)
    else identifierOfFunction rest

end

def calleeName (n : SyntaxNode) : Option Text :=
  if n.kind = "call_expression".toList then (n.childByFieldName "function".toList).bind (extractFinalIdentifier source)
  else none

/-! ## Call expressions -/

/-- One target of a call, unless it is the caller or the relationship is there. -/
def addCall (callerId : Text) (relationships : List Relationship) (targetId : Text) : List Relationship :=
  let rel := Relationship.new digest .calls callerId targetId
  if targetId ≠ callerId ∧ ¬ relationships.any (fun r => r.id = rel.id) then relationships ++ [rel] else relationships

/-- The ids under a name, in the order of their entities. -/
def nameToIds (entities : List Entity) (name : Text) : List Text :=
  (entities.filter (fun e => e.name = name)).map Entity.id

mutual

def collectCalls (callerId : Text) (entities : List Entity) : SyntaxNode → List Relationship → List Relationship
  | .mk kind field s e r₁ r₂ named children, relationships =>
    let targets := ((calleeName source (.mk kind field s e r₁ r₂ named children)).map (nameToIds entities)).getD []
    collectAmong callerId entities children (targets.foldl (addCall digest callerId) relationships)

def collectAmong (callerId : Text) (entities : List Entity) : List SyntaxNode → List Relationship → List Relationship
  | [], relationships => relationships
  | n :: rest, relationships =>
    collectAmong callerId entities rest
      (if n.named then collectCalls callerId entities n relationships else relationships)

end

/-- The second pass over a Rust file: calls in the bodies of its functions and methods, to whatever carries the name. -/
def buildCallsRelationships (root : SyntaxNode) (entities : List Entity) (relationships : List Relationship) :
    List Relationship :=
  (entities.filter (fun e => e.kind ∈ [EntityKind.function, .method])).foldl (fun relationships e =>
    match (findNodeAtRange e.byteRange.1 e.byteRange.2 root).bind (fun n => n.childByFieldName "body".toList) with
    | some body => collectCalls digest source e.id entities body relationships
    | none => relationships) relationships

/-- The kinds of entity between which a TypeScript file has calls. -/
def tsCallable : List EntityKind := [.function, .method, .component, .hook]

/-- The second pass over a TypeScript file: calls anywhere below a function, to another one. -/
def buildTsCallsRelationships (root : SyntaxNode) (entities : List Entity) (relationships : List Relationship) :
    List Relationship :=
  (entities.filter (fun e => e.kind ∈ tsCallable)).foldl (fun relationships e =>
    match findNodeAtRange e.byteRange.1 e.byteRange.2 root with
    | some n => collectCalls digest source e.id (entities.filter (fun e => e.kind ∈ tsCallable)) n relationships
    | none => relationships) relationships

end

/-! ## What the calls lead to -/

variable {digest : Bytes → Text} {source : Bytes}

/-- What a pass has added: calls from an entity of the file to one of them. -/
def CallsAmong (digest : Bytes → Text) (entities : List Entity) (r : Relationship) : Prop :=
  ∃ e ∈ entities, ∃ e' ∈ entities, r = Relationship.new digest .calls e.id e'.id

theorem mem_addCalls {callerId : Text} {r : Relationship} : ∀ {targets : List Text} {rels : List Relationship},
    r ∈ targets.foldl (addCall digest callerId) rels →
      r ∈ rels ∨ ∃ t ∈ targets, r = Relationship.new digest .calls callerId t
  | [], rels, h => Or.inl h
  | t :: targets, rels, h => by
    rw [List.foldl_cons] at h
    rcases mem_addCalls h with h | ⟨t', ht', hr⟩
    · unfold addCall at h
      dsimp only at h
      split at h
      · rcases List.mem_append.1 h with h | h
        · exact Or.inl h
        · exact Or.inr ⟨t, List.mem_cons_self, List.mem_singleton.1 h⟩
      · exact Or.inl h
    · exact Or.inr ⟨t', List.mem_cons_of_mem _ ht', hr⟩

theorem mem_nameToIds {entities : List Entity} {name i : Text} (h : i ∈ nameToIds entities name) :
    ∃ e ∈ entities, i = e.id := by
  obtain ⟨e, he, rfl⟩ := List.mem_map.1 h
  exact ⟨e, (List.mem_filter.1 he).1, rfl⟩

mutual

theorem mem_collectCalls {callerId : Text} {entities : List Entity} {r : Relationship} :
    ∀ {n : SyntaxNode} {rels : List Relationship}, r ∈ collectCalls digest source callerId entities n rels →
      r ∈ rels ∨ ∃ e' ∈ entities, r = Relationship.new digest .calls callerId e'.id
  | .mk kind field s e r₁ r₂ named children, rels, h => by
    unfold collectCalls at h
    rcases mem_collectAmong h with h | h
    · rcases mem_addCalls h with h | ⟨t, ht, hr⟩
      · exact Or.inl h
      · cases hname : calleeName source (.mk kind field s e r₁ r₂ named children) with
        | none =>
          rw [hname] at ht
          simp at ht
        | some name =>
          rw [hname] at ht
          obtain ⟨e', he', rfl⟩ := mem_nameToIds ht
          exact Or.inr ⟨e', he', hr⟩
    · exact Or.inr h

theorem mem_collectAmong {callerId : Text} {entities : List Entity} {r : Relationship} :
    ∀ {l : List SyntaxNode} {rels : List Relationship}, r ∈ collectAmong digest source callerId entities l rels →
      r ∈ rels ∨ ∃ e' ∈ entities, r = Relationship.new digest .calls callerId e'.id
  | [], rels, h => by
    unfold collectAmong at h
    exact Or.inl h
  | n :: rest, rels, h => by
    unfold collectAmong at h
    rcases mem_collectAmong h with h | h
    · split at h
      · exact mem_collectCalls h
      · exact Or.inl h
    · exact Or.inr h

end

/-- A pass over callers of the file, each with the entities it may call. -/
theorem mem_pass {entities callees : List Entity} (hcallees : ∀ e ∈ callees, e ∈ entities) {nodeOf : Entity → Option SyntaxNode}
    {r : Relationship} : ∀ {callers : List Entity} {rels : List Relationship}, (∀ e ∈ callers, e ∈ entities) →
      r ∈ callers.foldl (fun rels e =>
        match nodeOf e with
        | some n => collectCalls digest source e.id callees n rels
        | none => rels) rels →
      r ∈ rels ∨ CallsAmong digest entities r
  | [], rels, _, h => Or.inl h
  | e :: callers, rels, hcallers, h => by
    rw [List.foldl_cons] at h
    rcases mem_pass hcallees (fun x hx => hcallers x (List.mem_cons_of_mem _ hx)) h with h | h
    · split at h
      · rcases mem_collectCalls h with h | ⟨e', he', hr⟩
        · exact Or.inl h
        · exact Or.inr ⟨e, hcallers e List.mem_cons_self, e', hcallees e' he', hr⟩
      · exact Or.inl h
    · exact Or.inr h

/-- **The calls of a Rust file** are between its entities. -/
theorem mem_buildCallsRelationships {root : SyntaxNode} {entities : List Entity} {rels : List Relationship} {r : Relationship}
    (h : r ∈ buildCallsRelationships digest source root entities rels) : r ∈ rels ∨ CallsAmong digest entities r :=
  mem_pass (fun _ he => he) (fun _ he => (List.mem_filter.1 he).1) h

/-- **The calls of a TypeScript file** are between its entities. -/
theorem mem_buildTsCallsRelationships {root : SyntaxNode} {entities : List Entity} {rels : List Relationship} {r : Relationship}
    (h : r ∈ buildTsCallsRelationships digest source root entities rels) : r ∈ rels ∨ CallsAmong digest entities r :=
  mem_pass (fun _ he => (List.mem_filter.1 he).1) (fun _ he => (List.mem_filter.1 he).1) h

end Calls
end Vai
