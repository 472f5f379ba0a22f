import Vai.Calls
/-!
# TsSource — the entities of a TypeScript file

`extract_ts_entities` of `graph/mod.rs` over the syntax tree of either grammar, and the extractors below it.  An entity
comes with the relationships that are recorded with it.  What `char::is_uppercase` holds of is a parameter: it decides
between the kinds of a function.

Of the tree the proofs take its layout (`WellFormed`): it keeps import and export statements from starting together.
-/
namespace Vai
namespace TsSource

open RustSource (nodeText qualify computeId entityAt)

/-- An entity, and the relationships recorded with it. -/
abbrev Found := Entity × List Relationship

/-! ## Kinds of function -/

def jsxKinds : List Text := ["jsx_element", "jsx_self_closing_element", "jsx_fragment"].map String.toList

mutual

def subtreeHasJsx : SyntaxNode → Bool
  | .mk kind _ _ _ _ _ _ children => decide (kind ∈ jsxKinds) || anyHasJsx children

def anyHasJsx : List SyntaxNode → Bool
  | [] => false
  | n :: rest => (n.named && subtreeHasJsx n) || anyHasJsx rest

end

/-- Hooks by their name; components by their name and what they contain. -/
def tsFunctionKind (isUppercase : Char → Bool) (name : Text) (n : SyntaxNode) : EntityKind :=
  if "use".toList.isPrefixOf name ∧ 3 < (Text.intoBytes name).length ∧ name[3]?.any isUppercase then .hook
  else if name.head?.any isUppercase ∧ subtreeHasJsx n then .component
  else .function

/-! ## Extraction -/

section Extract

variable (digest : Bytes → Text) (isUppercase : Char → Bool) (source : Bytes) (filePath : Path)

/-- What `extract_ts_function`, `extract_ts_class`, `extract_ts_method` and `extract_ts_named` have in common. -/
def extractDeclared (n : SyntaxNode) (parentStack : List (Text × Text)) (kind : Text → EntityKind) : Option Entity := do
  let nameNode ← n.childByFieldName "name".toList
  let name ← nodeText source nameNode
  return entityAt digest filePath n (kind name) name (qualify name parentStack) parentStack

def extractTsFunction (n : SyntaxNode) (parentStack : List (Text × Text)) : Option Entity :=
  extractDeclared digest source filePath n parentStack fun name => tsFunctionKind isUppercase name n

def extractTsMethod (n : SyntaxNode) (parentStack : List (Text × Text)) : Option Entity :=
  extractDeclared digest source filePath n parentStack fun _ => .method

def extractTsNamed (n : SyntaxNode) (parentStack : List (Text × Text)) (kind : EntityKind) : Option Entity :=
  extractDeclared digest source filePath n parentStack fun _ => kind

/-- A variable, where its value is an arrow function or a function expression. -/
def extractTsVariableDeclarator (n : SyntaxNode) (parentStack : List (Text × Text)) : Option Entity := do
  let nameNode ← n.childByFieldName "name".toList
  let name ← nodeText source nameNode
  let valueNode ← n.childByFieldName "value".toList
  if valueNode.kind ∈ ["arrow_function".toList, "function_expression".toList] then
    return entityAt digest filePath n (tsFunctionKind isUppercase name valueNode) name (qualify name parentStack) parentStack
  else none

/-- The clauses of a class heritage.  The names in them are taken as they stand, at the top of the file. -/
def extractTsHeritage (n : SyntaxNode) (classId : Text) : List Relationship :=
  (n.children.filter SyntaxNode.named).flatMap fun child =>
    if child.kind = "extends_clause".toList then
      (((child.childByFieldName "value".toList).bind (nodeText source)).map fun targetName =>
        Relationship.new digest .extends classId (computeId digest filePath targetName)).toList
    else if child.kind = "implements_clause".toList then
      ((child.children.filter SyntaxNode.named).filterMap (nodeText source)).map fun ifaceName =>
        Relationship.new digest .implements classId (computeId digest filePath ifaceName)
    else []

def extractTsClass (n : SyntaxNode) (parentStack : List (Text × Text)) : Option Found :=
  (extractDeclared digest source filePath n parentStack fun _ => .classItem).map fun entity =>
    (entity, (n.children.filter (fun child => child.named ∧ child.kind = "class_heritage".toList)).flatMap
      fun child => extractTsHeritage digest source filePath child entity.id)

/-- What `extract_ts_import` and `extract_ts_export` have in common: a statement under a word and its offset. -/
def extractStatement (n : SyntaxNode) (parentStack : List (Text × Text)) (kind : EntityKind) (word : Text)
    (summary : Text → Text) : Option Entity := do
  let text ← nodeText source n
  return entityAt digest filePath n kind (summary text) (word ++ ['@'] ++ Text.ofNat n.startByte) parentStack

def extractTsImport (n : SyntaxNode) (parentStack : List (Text × Text)) : Option Entity :=
  extractStatement digest source filePath n parentStack .useStatement "import".toList Text.trim

def extractTsExport (n : SyntaxNode) (parentStack : List (Text × Text)) : Option Entity :=
  extractStatement digest source filePath n parentStack .exportStatement "export".toList
    fun text => Text.trim ((Text.lines text).head?.getD "export".toList)

/-- What an export statement may wrap. -/
def exportedKinds : List Text :=
  ["function_declaration", "class_declaration", "interface_declaration", "type_alias_declaration", "enum_declaration",
    "lexical_declaration", "variable_declaration"].map String.toList

/-- With an entity goes the relationship to its parent. -/
def contained (parentStack : List (Text × Text)) (entity : Entity) : Found :=
  (entity, addContainsRel digest parentStack entity.id)

/-- The functions among the declarators of a declaration. -/
def extractDeclarators (children : List SyntaxNode) (parentStack : List (Text × Text)) : List Found :=
  ((children.filter (fun child => child.named ∧ child.kind = "variable_declarator".toList)).filterMap fun child =>
    extractTsVariableDeclarator digest isUppercase source filePath child parentStack).map (contained digest parentStack)

mutual

/-- The entities of a node, in the order in which they are pushed. -/
def extractTsEntities : SyntaxNode → List (Text × Text) → List Found
  | .mk kind field s e r₁ r₂ named children, parentStack =>
    let node := SyntaxNode.mk kind field s e r₁ r₂ named children
    let scope := fun entity : Entity => parentStack ++ [(entity.id, entity.qualifiedName)]
    let leaf := fun o : Option Entity => (o.map (contained digest parentStack)).toList
    if kind = "program".toList then extractChildren children parentStack
    else if kind = "function_declaration".toList then
      match extractTsFunction digest isUppercase source filePath node parentStack with
      | some entity => contained digest parentStack entity :: extractBody children (scope entity)
      | none => []
    else if kind ∈ ["lexical_declaration".toList, "variable_declaration".toList] then
      extractDeclarators digest isUppercase source filePath children parentStack
    else if kind = "class_declaration".toList then
      match extractTsClass digest source filePath node parentStack with
      | some (entity, heritage) =>
        (entity, heritage ++ addContainsRel digest parentStack entity.id) :: extractBody children (scope entity)
      | none => []
    else if kind = "method_definition".toList then leaf (extractTsMethod digest source filePath node parentStack)
    else if kind = "interface_declaration".toList then
      leaf (extractTsNamed digest source filePath node parentStack .interface)
    else if kind = "type_alias_declaration".toList then
      leaf (extractTsNamed digest source filePath node parentStack .typeAlias)
    else if kind = "enum_declaration".toList then leaf (extractTsNamed digest source filePath node parentStack .enum)
    else if kind = "import_statement".toList then leaf (extractTsImport digest source filePath node parentStack)
    else if kind = "export_statement".toList then
      extractExported children parentStack ++ leaf (extractTsExport digest source filePath node parentStack)
    else extractChildren children parentStack

/-- The named children of the first child in the field `body`. -/
def extractBody : List SyntaxNode → List (Text × Text) → List Found
  | [], _ => []
  | .mk _ field _ _ _ _ _ children :: rest, parentStack =>
    if field = some "body".toList then extractChildren children parentStack else extractBody rest parentStack

/-- The declarations that an export statement wraps. -/
def extractExported : List SyntaxNode → List (Text × Text) → List Found
  | [], _ => []
  | n :: rest, parentStack =>
    (if n.named ∧ n.kind ∈ exportedKinds then extractTsEntities n parentStack else []) ++ extractExported rest parentStack

def extractChildren : List SyntaxNode → List (Text × Text) → List Found
  | [], _ => []
  | n :: rest, parentStack =>
    (if n.named then extractTsEntities n parentStack else []) ++ extractChildren rest parentStack

end

end Extract

/-! ## The layout of a tree -/

/-- The statements that are told apart by their offset. -/
def statementKinds : List Text := ["import_statement".toList, "export_statement".toList]

/-- The declarations with a body. -/
def scopeKinds : List Text := ["function_declaration".toList, "class_declaration".toList]

mutual

/-- Children lie inside their node, one after another; an import or export statement is not empty, and the body of a
function or class starts after it does. -/
def WellFormed : SyntaxNode → Prop
  | .mk kind _ s e _ _ _ children =>
    s ≤ e ∧ (kind ∈ statementKinds → s < e) ∧ InOrder s e children ∧
      (kind ∈ scopeKinds → ∀ c ∈ children, c.field = some "body".toList → s < c.startByte)

def InOrder : Nat → Nat → List SyntaxNode → Prop
  | _, _, [] => True
  | lo, hi, n :: rest => lo ≤ n.startByte ∧ n.endByte ≤ hi ∧ WellFormed n ∧ InOrder n.endByte hi rest

end

theorem le_of_wellFormed : ∀ {n : SyntaxNode}, WellFormed n → n.startByte ≤ n.endByte
  | .mk .., h => by
    unfold WellFormed at h
    exact h.1

/-- What the two grammars are: for the bytes that one accepts, a tree laid out in order. -/
structure TreeSitter where
  parse : Bool → Bytes → Option SyntaxNode
  wellFormed : ∀ tsx c n, parse tsx c = some n → WellFormed n

/-- Grammars that know some files. -/
def TreeSitter.ofTable (table : List (Bytes × SyntaxNode)) (h : ∀ q ∈ table, WellFormed q.2) : TreeSitter where
  parse _ c := (table.find? (fun q => q.1 = c)).map Prod.snd
  wellFormed _ c n hn := by
    obtain ⟨q, hq, rfl⟩ := Option.map_eq_some_iff.1 hn
    exact h q (List.mem_of_find?_eq_some hq)

/-- The entities of a file, each with its relationships. -/
def foundIn (digest : Bytes → Text) (isUppercase : Char → Bool) (source : Bytes) (filePath : Path) (root : SyntaxNode) :
    List Found := extractTsEntities digest isUppercase source filePath root []

def parseTypescriptSource (ts : TreeSitter) (digest : Bytes → Text) (isUppercase : Char → Bool) (filePath : Path)
    (source : Bytes) (tsx : Bool) : Except GraphError (List Entity × List Relationship) :=
  match ts.parse tsx source with
  | some root =>
    let found := foundIn digest isUppercase source filePath root
    let entities := found.map Prod.fst
    .ok (entities, Calls.buildTsCallsRelationships digest source root entities (found.flatMap Prod.snd))
  | none => .error (.parse ("failed to parse ".toList ++ filePath))

end TsSource
end Vai
