import Vai.Declarations
import Vai.FilePath
/-!
# SourceFile — what is parsed of a file

`parse_source_file`: the extension of the path picks the grammar.  Every entity carries the path of the file and the
digest of the path and its qualified name (`parseSourceFile_reads`); every relationship starts at an entity of the file
and leads to the id of a name in it, which need not be an entity (`parseSourceFile_emits`).
-/
namespace Vai

open Declaration
open RustSource (computeId entityAt)

/-! ## Parents -/

/-- The parent of an entity is on top of the stack, or among them. -/
def Parented (ps : List (Text × Text)) (es : List Entity) : Prop :=
  ∀ e ∈ es, e.parentEntity = ps.getLast?.map Prod.fst ∨ ∃ e' ∈ es, e.parentEntity = some e'.id

section

variable {ps : List (Text × Text)} {es es' : List Entity}

theorem parented_nil : Parented ps [] := by simp [Parented]

theorem Parented.append (h : Parented ps es) (h' : Parented ps es') : Parented ps (es ++ es') := by
  intro e he
  rcases List.mem_append.1 he with he | he
  · exact (h e he).imp_right fun ⟨e', he', hp⟩ => ⟨e', List.mem_append_left _ he', hp⟩
  · exact (h' e he).imp_right fun ⟨e', he', hp⟩ => ⟨e', List.mem_append_right _ he', hp⟩

theorem parented_toList {o : Option Entity} (h : ∀ e, o = some e → e.parentEntity = ps.getLast?.map Prod.fst) :
    Parented ps o.toList := fun e he => Or.inl (h e (Option.mem_toList.1 he))

/-- An entity, and those of its body. -/
theorem Parented.cons {e : Entity} {qualifiedName : Text} (he : e.parentEntity = ps.getLast?.map Prod.fst)
    (h : Parented (ps ++ [(e.id, qualifiedName)]) es) : Parented ps (e :: es) := by
  intro x hx
  rcases List.mem_cons.1 hx with rfl | hx
  · exact Or.inl he
  · rcases h x hx with hp | ⟨e', he', hp⟩
    · rw [List.getLast?_concat] at hp
      exact Or.inr ⟨e, List.mem_cons_self, hp⟩
    · exact Or.inr ⟨e', List.mem_cons_of_mem _ he', hp⟩

end

namespace RustSource

variable {digest : Bytes → Text} {source : Bytes} {filePath : Path}

theorem parent_extractFunction {n : SyntaxNode} {ps : List (Text × Text)} {b : Bool} {e : Entity}
    (h : extractFunction digest source filePath n ps b = some e) : e.parentEntity = ps.getLast?.map Prod.fst := by
  rw [extractFunction_eq] at h
  obtain ⟨name, -, rfl⟩ := Option.map_eq_some_iff.1 h
  rfl

theorem parent_extractNamedItem {n : SyntaxNode} {ps : List (Text × Text)} {k : EntityKind} {kind : Text} {e : Entity}
    (h : extractNamedItem digest source filePath n ps k [kind] = some e) : e.parentEntity = ps.getLast?.map Prod.fst := by
  rw [extractNamedItem_eq] at h
  obtain ⟨name, -, rfl⟩ := Option.map_eq_some_iff.1 h
  rfl

theorem parent_extractImplItem {n : SyntaxNode} {ps : List (Text × Text)} {e : Entity}
    (h : extractImplItem digest source filePath n ps = some e) : e.parentEntity = ps.getLast?.map Prod.fst := by
  rw [extractImplItem_eq] at h
  obtain ⟨name, -, rfl⟩ := Option.map_eq_some_iff.1 h
  rfl

theorem parent_extractUseDeclaration {n : SyntaxNode} {ps : List (Text × Text)} {e : Entity}
    (h : extractUseDeclaration digest source filePath n ps = some e) : e.parentEntity = ps.getLast?.map Prod.fst := by
  rw [extractUseDeclaration_eq] at h
  obtain ⟨name, -, rfl⟩ := Option.map_eq_some_iff.1 h
  rfl

mutual

theorem extractEntities_parented : ∀ (n : SyntaxNode) (ps : List (Text × Text)) (b : Bool),
    Parented ps (extractEntities digest source filePath n ps b)
  | .mk kind field s e r₁ r₂ named children, ps, b => by
    have hscope : ∀ (o : Option Entity) (b' : Bool), (∀ en, o = some en → en.parentEntity = ps.getLast?.map Prod.fst) →
        Parented ps (match o with
          | some en => en :: extractBody digest source filePath children (ps ++ [(en.id, en.qualifiedName)]) b'
          | none => []) := by
      intro o b' ho
      cases o with
      | none => exact parented_nil
      | some en => exact (extractBody_parented children (ps ++ [(en.id, en.qualifiedName)]) b').cons (ho en rfl)
    unfold extractEntities
    dsimp only
    by_cases h1 : kind = "function_item".toList
    · rw [if_pos h1]
      exact parented_toList fun _ => parent_extractFunction
    rw [if_neg h1]
    by_cases h2 : kind = "struct_item".toList
    · rw [if_pos h2]
      exact parented_toList fun _ => parent_extractNamedItem
    rw [if_neg h2]
    by_cases h3 : kind = "enum_item".toList
    · rw [if_pos h3]
      exact parented_toList fun _ => parent_extractNamedItem
    rw [if_neg h3]
    by_cases h4 : kind = "trait_item".toList
    · rw [if_pos h4]
      exact hscope _ false fun _ => parent_extractNamedItem
    rw [if_neg h4]
    by_cases h5 : kind = "impl_item".toList
    · rw [if_pos h5]
      exact hscope _ true fun _ => parent_extractImplItem
    rw [if_neg h5]
    by_cases h6 : kind = "mod_item".toList
    · rw [if_pos h6]
      exact hscope _ false fun _ => parent_extractNamedItem
    rw [if_neg h6]
    by_cases h7 : kind = "use_declaration".toList
    · rw [if_pos h7]
      exact parented_toList fun _ => parent_extractUseDeclaration
    rw [if_neg h7]
    by_cases h8 : kind = "source_file".toList
    · rw [if_pos h8]
      exact extractNamed_parented children ps false
    rw [if_neg h8]
    exact parented_nil

theorem extractBody_parented : ∀ (l : List SyntaxNode) (ps : List (Text × Text)) (b : Bool),
    Parented ps (extractBody digest source filePath l ps b)
  | [], ps, b => by
    unfold extractBody
    exact parented_nil
  | .mk kind field s e r₁ r₂ named children :: rest, ps, b => by
    unfold extractBody
    split
    · exact extractNamed_parented children ps b
    · exact extractBody_parented rest ps b

theorem extractNamed_parented : ∀ (l : List SyntaxNode) (ps : List (Text × Text)) (b : Bool),
    Parented ps (extractNamed digest source filePath l ps b)
  | [], ps, b => by
    unfold extractNamed
    exact parented_nil
  | n :: rest, ps, b => by
    unfold extractNamed
    refine Parented.append ?_ (extractNamed_parented rest ps b)
    split
    · exact extractEntities_parented n ps b
    · exact parented_nil

end

end RustSource

namespace TsSource

/-- What is recorded with an entity leads from it to a name of the file, or from its parent to it. -/
def Recorded (digest : Bytes → Text) (filePath : Path) (f : Found) : Prop :=
  ∀ rel ∈ f.2, (∃ kind q, rel = Relationship.new digest kind f.1.id (computeId digest filePath q)) ∨
    ∃ parent, f.1.parentEntity = some parent ∧ rel = Relationship.new digest .contains parent f.1.id

def Rooted (digest : Bytes → Text) (filePath : Path) (ps : List (Text × Text)) (fs : List Found) : Prop :=
  Parented ps (fs.map Prod.fst) ∧ ∀ f ∈ fs, Recorded digest filePath f

section

variable {digest : Bytes → Text} {isUppercase : Char → Bool} {source : Bytes} {filePath : Path} {ps : List (Text × Text)}

theorem rooted_nil : Rooted digest filePath ps [] := ⟨parented_nil, by simp⟩

theorem Rooted.append {fs fs' : List Found} (h : Rooted digest filePath ps fs) (h' : Rooted digest filePath ps fs') :
    Rooted digest filePath ps (fs ++ fs') := by
  constructor
  · rw [List.map_append]
    exact h.1.append h'.1
  · intro f hf
    exact (List.mem_append.1 hf).elim (h.2 f) (h'.2 f)

theorem Rooted.cons {f : Found} {fs : List Found} {qualifiedName : Text} (hf : f.1.parentEntity = ps.getLast?.map Prod.fst)
    (hrec : Recorded digest filePath f) (h : Rooted digest filePath (ps ++ [(f.1.id, qualifiedName)]) fs) :
    Rooted digest filePath ps (f :: fs) := by
  constructor
  · rw [List.map_cons]
    exact h.1.cons hf
  · exact List.forall_mem_cons.2 ⟨hrec, h.2⟩

theorem eq_of_mem_addContainsRel {e : Entity} (he : e.parentEntity = ps.getLast?.map Prod.fst) {rel : Relationship}
    (h : rel ∈ addContainsRel digest ps e.id) :
    ∃ parent, e.parentEntity = some parent ∧ rel = Relationship.new digest .contains parent e.id := by
  obtain ⟨parent, hlast, rfl⟩ := Option.map_eq_some_iff.1 (Option.mem_toList.1 h)
  rw [hlast] at he
  exact ⟨parent.1, he, rfl⟩

theorem recorded_contained {e : Entity} (he : e.parentEntity = ps.getLast?.map Prod.fst) :
    Recorded digest filePath (contained digest ps e) := fun _ hrel => Or.inr (eq_of_mem_addContainsRel he hrel)

theorem rooted_contained {es : List Entity} (h : ∀ e ∈ es, e.parentEntity = ps.getLast?.map Prod.fst) :
    Rooted digest filePath ps (es.map (contained digest ps)) := by
  constructor
  · intro e he
    rw [List.map_map] at he
    obtain ⟨e', he', rfl⟩ := List.mem_map.1 he
    exact Or.inl (h e' he')
  · intro f hf
    obtain ⟨e, he, rfl⟩ := List.mem_map.1 hf
    exact recorded_contained (h e he)

theorem rooted_leaf {o : Option Entity} (h : ∀ e, o = some e → e.parentEntity = ps.getLast?.map Prod.fst) :
    Rooted digest filePath ps (o.map (contained digest ps)).toList := by
  cases o with
  | none => exact rooted_nil
  | some e =>
    show Rooted digest filePath ps ([e].map (contained digest ps))
    exact rooted_contained fun x hx => h x (by rw [List.mem_singleton.1 hx])

theorem parent_extractDeclared {n : SyntaxNode} {kind : Text → EntityKind} {e : Entity}
    (h : extractDeclared digest source filePath n ps kind = some e) : e.parentEntity = ps.getLast?.map Prod.fst := by
  rw [extractDeclared_eq] at h
  obtain ⟨name, -, rfl⟩ := Option.map_eq_some_iff.1 h
  rfl

theorem parent_extractStatement {n : SyntaxNode} {kind : EntityKind} {word : Text} {summary : Text → Text} {e : Entity}
    (h : extractStatement digest source filePath n ps kind word summary = some e) :
    e.parentEntity = ps.getLast?.map Prod.fst := by
  rw [extractStatement_eq] at h
  obtain ⟨text, -, rfl⟩ := Option.map_eq_some_iff.1 h
  rfl

theorem parent_extractTsVariableDeclarator {n : SyntaxNode} {e : Entity}
    (h : extractTsVariableDeclarator digest isUppercase source filePath n ps = some e) :
    e.parentEntity = ps.getLast?.map Prod.fst := by
  unfold extractTsVariableDeclarator at h
  simp only [Option.bind_eq_bind, Option.bind_eq_some_iff] at h
  obtain ⟨_, _, _, _, _, _, h⟩ := h
  split at h
  · cases h
    rfl
  · cases h

theorem rooted_extractDeclarators (children : List SyntaxNode) :
    Rooted digest filePath ps (extractDeclarators digest isUppercase source filePath children ps) := by
  unfold extractDeclarators
  refine rooted_contained fun e he => ?_
  obtain ⟨n, -, hn⟩ := List.mem_filterMap.1 he
  exact parent_extractTsVariableDeclarator hn

/-- The clauses of its heritage lead from a class to names of the file. -/
theorem mem_extractTsHeritage {n : SyntaxNode} {classId : Text} {rel : Relationship}
    (h : rel ∈ extractTsHeritage digest source filePath n classId) :
    ∃ kind q, rel = Relationship.new digest kind classId (computeId digest filePath q) := by
  obtain ⟨child, -, h⟩ := List.mem_flatMap.1 h
  split at h
  · obtain ⟨q, -, rfl⟩ := Option.map_eq_some_iff.1 (Option.mem_toList.1 h)
    exact ⟨_, q, rfl⟩
  split at h
  · obtain ⟨q, -, rfl⟩ := List.mem_map.1 h
    exact ⟨_, q, rfl⟩
  · cases h

end

variable {digest : Bytes → Text} {isUppercase : Char → Bool} {source : Bytes} {filePath : Path}

mutual

theorem extractTsEntities_rooted : ∀ (n : SyntaxNode) (ps : List (Text × Text)),
    Rooted digest filePath ps (extractTsEntities digest isUppercase source filePath n ps)
  | .mk kind field s e r₁ r₂ named children, ps => by
    unfold extractTsEntities
    dsimp only
    by_cases h1 : kind = "program".toList
    · rw [if_pos h1]
      exact extractChildren_rooted children ps
    rw [if_neg h1]
    by_cases h2 : kind = "function_declaration".toList
    · rw [if_pos h2]
      split
      · rename_i en hen
        have hp := parent_extractDeclared hen
        exact (extractBody_rooted children (ps ++ [(en.id, en.qualifiedName)])).cons hp (recorded_contained hp)
      · exact rooted_nil
    rw [if_neg h2]
    by_cases h3 : kind ∈ ["lexical_declaration".toList, "variable_declaration".toList]
    · rw [if_pos h3]
      exact rooted_extractDeclarators children
    rw [if_neg h3]
    by_cases h4 : kind = "class_declaration".toList
    · rw [if_pos h4]
      split
      · rename_i en heritage hen
        obtain ⟨en', hen', heq⟩ := Option.map_eq_some_iff.1 hen
        cases heq
        have hp := parent_extractDeclared hen'
        refine Rooted.cons hp (fun rel hrel => ?_)
          (extractBody_rooted children (ps ++ [(en.id, en.qualifiedName)]))
        rcases List.mem_append.1 hrel with hrel | hrel
        · obtain ⟨child, -, hrel⟩ := List.mem_flatMap.1 hrel
          exact Or.inl (mem_extractTsHeritage hrel)
        · exact Or.inr (eq_of_mem_addContainsRel hp hrel)
      · exact rooted_nil
    rw [if_neg h4]
    by_cases h5 : kind = "method_definition".toList
    · rw [if_pos h5]
      exact rooted_leaf fun _ => parent_extractDeclared
    rw [if_neg h5]
    by_cases h6 : kind = "interface_declaration".toList
    · rw [if_pos h6]
      exact rooted_leaf fun _ => parent_extractDeclared
    rw [if_neg h6]
    by_cases h7 : kind = "type_alias_declaration".toList
    · rw [if_pos h7]
      exact rooted_leaf fun _ => parent_extractDeclared
    rw [if_neg h7]
    by_cases h8 : kind = "enum_declaration".toList
    · rw [if_pos h8]
      exact rooted_leaf fun _ => parent_extractDeclared
    rw [if_neg h8]
    by_cases h9 : kind = "import_statement".toList
    · rw [if_pos h9]
      exact rooted_leaf fun _ => parent_extractStatement
    rw [if_neg h9]
    by_cases h10 : kind = "export_statement".toList
    · rw [if_pos h10]
      exact (extractExported_rooted children ps).append (rooted_leaf fun _ => parent_extractStatement)
    rw [if_neg h10]
    exact extractChildren_rooted children ps

theorem extractBody_rooted : ∀ (l : List SyntaxNode) (ps : List (Text × Text)),
    Rooted digest filePath ps (extractBody digest isUppercase source filePath l ps)
  | [], ps => by
    unfold extractBody
    exact rooted_nil
  | .mk kind field s e r₁ r₂ named children :: rest, ps => by
    unfold extractBody
    split
    · exact extractChildren_rooted children ps
    · exact extractBody_rooted rest ps

theorem extractExported_rooted : ∀ (l : List SyntaxNode) (ps : List (Text × Text)),
    Rooted digest filePath ps (extractExported digest isUppercase source filePath l ps)
  | [], ps => by
    unfold extractExported
    exact rooted_nil
  | n :: rest, ps => by
    unfold extractExported
    refine Rooted.append ?_ (extractExported_rooted rest ps)
    split
    · exact extractTsEntities_rooted n ps
    · exact rooted_nil

theorem extractChildren_rooted : ∀ (l : List SyntaxNode) (ps : List (Text × Text)),
    Rooted digest filePath ps (extractChildren digest isUppercase source filePath l ps)
  | [], ps => by
    unfold extractChildren
    exact rooted_nil
  | n :: rest, ps => by
    unfold extractChildren
    refine Rooted.append ?_ (extractChildren_rooted rest ps)
    split
    · exact extractTsEntities_rooted n ps
    · exact rooted_nil

end

end TsSource

/-! ## Parsing -/

/-- The extension of a path's last name; a name that begins with its only dot has none, nor has `..`. -/
def FilePath.extension (p : Path) : Option Text :=
  match (FilePath.components p).getLast? with
  | none => none
  | some name =>
    if name = FilePath.dotDot ∨ '.' ∉ name ∨ name = '.' :: Text.afterLast '.' name then none
    else some (Text.afterLast '.' name)

namespace SourceFile

inductive Language where
  | rust
  | typescript (tsx : Bool)
  deriving DecidableEq, Repr

def language (filePath : Path) : Option Language :=
  let ext := (FilePath.extension filePath).getD []
  if ext = "rs".toList then some .rust
  else if ext ∈ ["ts".toList, "js".toList] then some (.typescript false)
  else if ext ∈ ["tsx".toList, "jsx".toList] then some (.typescript true)
  else none

/-- The grammars, and which characters are upper case. -/
structure Parsers where
  rust : RustSource.TreeSitter
  typescript : TsSource.TreeSitter
  isUppercase : Char → Bool

/-- Each entity in its parent. -/
def containsRelationships (digest : Bytes → Text) (entities : List Entity) : List Relationship :=
  entities.flatMap fun e => (e.parentEntity.map fun parent => Relationship.new digest .contains parent e.id).toList

def parseRustSource (ts : RustSource.TreeSitter) (digest : Bytes → Text) (filePath : Path) (source : Bytes) :
    Except GraphError (List Entity × List Relationship) :=
  match ts.parse source with
  | some root =>
    let entities := RustSource.extractEntities digest source filePath root [] false
    .ok (entities, Calls.buildCallsRelationships digest source root entities (containsRelationships digest entities))
  | none => .error (.parse ("failed to parse ".toList ++ filePath))

def parseSourceFile (parsers : Parsers) (digest : Bytes → Text) (filePath : Path) (source : Bytes) :
    Except GraphError (List Entity × List Relationship) :=
  match language filePath with
  | some .rust => parseRustSource parsers.rust digest filePath source
  | some (.typescript tsx) =>
    TsSource.parseTypescriptSource parsers.typescript digest parsers.isUppercase filePath source tsx
  | none => .ok ([], [])

/-- What the file declares, for the grammar of its extension. -/
def declarations (parsers : Parsers) (filePath : Path) (source : Bytes) : List Declaration :=
  match language filePath with
  | some .rust => ((parsers.rust.parse source).map fun root => RustSource.declarations source root []).getD []
  | some (.typescript tsx) =>
    ((parsers.typescript.parse tsx source).map fun root => TsSource.declarations source root []).getD []
  | none => []

variable {parsers : Parsers} {digest : Bytes → Text} {filePath : Path} {source : Bytes}
  {r : List Entity × List Relationship}

/-- **The entities of a file are its declarations**, in their order. -/
theorem parseSourceFile_reads (h : parseSourceFile parsers digest filePath source = .ok r) :
    List.Forall₂ (Reads digest filePath) r.1 (declarations parsers filePath source) := by
  unfold parseSourceFile at h
  unfold declarations
  cases hl : language filePath with
  | none =>
    rw [hl] at h
    cases h
    exact List.Forall₂.nil
  | some l =>
    rw [hl] at h
    cases l with
    | rust =>
      dsimp only at h ⊢
      unfold parseRustSource at h
      cases hroot : parsers.rust.parse source with
      | none => simp [hroot] at h
      | some root =>
        rw [hroot] at h
        cases h
        exact RustSource.extractEntities_reads digest source filePath root false inScope_nil
    | typescript tsx =>
      dsimp only at h ⊢
      unfold TsSource.parseTypescriptSource at h
      cases hroot : parsers.typescript.parse tsx source with
      | none => simp [hroot] at h
      | some root =>
        rw [hroot] at h
        cases h
        exact TsSource.extractTsEntities_reads digest parsers.isUppercase source filePath root inScope_nil

/-- What carries an offset starts there, and nothing else of the file does. -/
theorem offsetsApart_declarations (parsers : Parsers) (filePath : Path) (source : Bytes) :
    OffsetsApart (declarations parsers filePath source) := by
  unfold declarations
  cases language filePath with
  | none => exact List.Pairwise.nil
  | some l =>
    cases l with
    | rust =>
      dsimp only
      cases hroot : parsers.rust.parse source with
      | none => exact List.Pairwise.nil
      | some root => exact RustSource.offsetsApart_declarations source (parsers.rust.wellFormed source root hroot).1
    | typescript tsx =>
      dsimp only
      cases hroot : parsers.typescript.parse tsx source with
      | none => exact List.Pairwise.nil
      | some root =>
        exact (TsSource.declarations_offsetsIn source root [] (parsers.typescript.wellFormed tsx source root hroot)).1.2

/-! ## Relationships -/

/-- A relationship from an entity of the file to the id of a name in it. -/
structure Emits (digest : Bytes → Text) (filePath : Path) (es : List Entity) (rel : Relationship) : Prop where
  starts : rel.fromEntity ∈ es.map Entity.id
  leads : ∃ q, rel.toEntity = computeId digest filePath q
  new : rel = Relationship.new digest rel.kind rel.fromEntity rel.toEntity

theorem emits_new {es : List Entity} {e : Entity} (he : e ∈ es) (kind : RelationshipKind) {target : Text}
    (hto : ∃ q, target = computeId digest filePath q) :
    Emits digest filePath es (Relationship.new digest kind e.id target) where
  starts := List.mem_map_of_mem he
  leads := hto
  new := rfl

theorem emits_contains {es : List Entity} (hp : Parented [] es) {e : Entity} (he : e ∈ es)
    (hid : ∃ q, e.id = computeId digest filePath q) {parent : Text} (h : e.parentEntity = some parent) :
    Emits digest filePath es (Relationship.new digest .contains parent e.id) := by
  rcases hp e he with hnone | ⟨e', he', hsome⟩
  · rw [h] at hnone
    cases hnone
  · rw [h] at hsome
    cases hsome
    exact emits_new he' .contains hid

theorem emits_of_callsAmong {es : List Entity} (hid : ∀ e ∈ es, ∃ q, e.id = computeId digest filePath q) {rel : Relationship}
    (h : Calls.CallsAmong digest es rel) : Emits digest filePath es rel := by
  obtain ⟨e, he, e', he', rfl⟩ := h
  exact emits_new he .calls (hid e' he')

theorem exists_reads_of_mem (h : parseSourceFile parsers digest filePath source = .ok r) {e : Entity} (he : e ∈ r.1) :
    ∃ d, Reads digest filePath e d := by
  have hreads := parseSourceFile_reads h
  obtain ⟨i, hi, rfl⟩ := List.mem_iff_getElem.1 he
  have hi' : i < (declarations parsers filePath source).length := by
    rw [← hreads.length_eq]
    exact hi
  exact ⟨_, hreads.get hi hi'⟩

theorem emits_of_mem_rust {ts : RustSource.TreeSitter} (h : parseRustSource ts digest filePath source = .ok r)
    (hid : ∀ e ∈ r.1, ∃ q, e.id = computeId digest filePath q) {rel : Relationship} (hrel : rel ∈ r.2) :
    Emits digest filePath r.1 rel := by
  unfold parseRustSource at h
  cases hroot : ts.parse source with
  | none => simp [hroot] at h
  | some root =>
    rw [hroot] at h
    cases h
    rcases Calls.mem_buildCallsRelationships hrel with hrel | hrel
    · obtain ⟨e, he, hrel⟩ := List.mem_flatMap.1 hrel
      obtain ⟨parent, hparent, rfl⟩ := Option.map_eq_some_iff.1 (Option.mem_toList.1 hrel)
      exact emits_contains (RustSource.extractEntities_parented root [] false) he (hid e he) hparent
    · exact emits_of_callsAmong hid hrel

theorem emits_of_mem_typescript {ts : TsSource.TreeSitter} {isUppercase : Char → Bool} {tsx : Bool}
    (h : TsSource.parseTypescriptSource ts digest isUppercase filePath source tsx = .ok r)
    (hid : ∀ e ∈ r.1, ∃ q, e.id = computeId digest filePath q) {rel : Relationship} (hrel : rel ∈ r.2) :
    Emits digest filePath r.1 rel := by
  unfold TsSource.parseTypescriptSource at h
  cases hroot : ts.parse tsx source with
  | none => simp [hroot] at h
  | some root =>
    rw [hroot] at h
    cases h
    have hrooted : TsSource.Rooted digest filePath [] (TsSource.foundIn digest isUppercase source filePath root) :=
      TsSource.extractTsEntities_rooted root []
    rcases Calls.mem_buildTsCallsRelationships hrel with hrel | hrel
    · obtain ⟨f, hf, hrel⟩ := List.mem_flatMap.1 hrel
      have hmem := List.mem_map_of_mem (f := Prod.fst) hf
      rcases hrooted.2 f hf rel hrel with ⟨kind, q, rfl⟩ | ⟨parent, hparent, rfl⟩
      · exact emits_new hmem kind ⟨q, rfl⟩
      · exact emits_contains hrooted.1 hmem (hid f.1 hmem) hparent
    · exact emits_of_callsAmong hid hrel

/-- **The relationships of a file** start at its entities and lead to ids of its names. -/
theorem parseSourceFile_emits (h : parseSourceFile parsers digest filePath source = .ok r) {rel : Relationship}
    (hrel : rel ∈ r.2) : Emits digest filePath r.1 rel := by
  have hid : ∀ e ∈ r.1, ∃ q, e.id = computeId digest filePath q := by
    intro e he
    obtain ⟨d, hd⟩ := exists_reads_of_mem h he
    exact ⟨d.label, hd.id⟩
  unfold parseSourceFile at h
  cases hl : language filePath with
  | none =>
    rw [hl] at h
    cases h
    cases hrel
  | some l =>
    rw [hl] at h
    cases l with
    | rust => exact emits_of_mem_rust h hid hrel
    | typescript tsx => exact emits_of_mem_typescript h hid hrel

end SourceFile
end Vai
