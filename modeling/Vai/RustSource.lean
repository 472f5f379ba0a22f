import Vai.Graph
import Vai.Utf8
/-!
# RustSource — the entities of a Rust file

`extract_entities` of `graph/mod.rs` over the syntax tree that tree-sitter builds, and the four extractors below it.  The
tree is a parameter (`TreeSitter`): what the proofs take from it is the layout of its nodes.  The relationships between
entities are left out; merging does not read them.

`entitiesOf_spans`: the entities of a file come in the order of their start bytes, no two start together, and of two
spans one is inside the other or they are apart.
-/
namespace Vai

/-- A node of the syntax tree, under the field of its parent. -/
inductive SyntaxNode where
  | mk (kind : Text) (field : Option Text) (startByte endByte startRow endRow : Nat) (named : Bool) (children : List SyntaxNode)

namespace SyntaxNode

def kind : SyntaxNode → Text
  | mk k .. => k

def field : SyntaxNode → Option Text
  | mk _ f .. => f

def startByte : SyntaxNode → Nat
  | mk _ _ s .. => s

def endByte : SyntaxNode → Nat
  | mk _ _ _ e .. => e

def startRow : SyntaxNode → Nat
  | mk _ _ _ _ r .. => r

def endRow : SyntaxNode → Nat
  | mk _ _ _ _ _ r .. => r

def named : SyntaxNode → Bool
  | mk _ _ _ _ _ _ b _ => b

def children : SyntaxNode → List SyntaxNode
  | mk _ _ _ _ _ _ _ c => c

def childByFieldName (n : SyntaxNode) (name : Text) : Option SyntaxNode := n.children.find? (fun c => c.field = some name)

end SyntaxNode

/-! ## Extraction -/

namespace RustSource

section Extract

variable (digest : Bytes → Text) (source : Bytes) (filePath : Path)

def nodeText (n : SyntaxNode) : Option Text := (slice source n.startByte n.endByte).bind Text.fromUtf8

/-- A name under its scope, without the scope's `@offset`. -/
def qualify (name : Text) (parentStack : List (Text × Text)) : Text :=
  match parentStack.getLast? with
  | some (_, pre) => pre.takeWhile (· ≠ '@') ++ "::".toList ++ name
  | none => name

def computeId (qualifiedName : Text) : Text := digest (Text.intoBytes (filePath ++ "::".toList ++ qualifiedName))

def entityAt (n : SyntaxNode) (kind : EntityKind) (name qualifiedName : Text) (parentStack : List (Text × Text)) : Entity where
  id := computeId digest filePath qualifiedName
  kind := kind
  name := name
  qualifiedName := qualifiedName
  filePath := filePath
  byteRange := (n.startByte, n.endByte)
  lineRange := (n.startRow + 1, n.endRow + 1)
  parentEntity := parentStack.getLast?.map Prod.fst

def extractFunction (n : SyntaxNode) (parentStack : List (Text × Text)) (insideImpl : Bool) : Option Entity := do
  let nameNode ← n.childByFieldName "name".toList
  let name ← nodeText source nameNode
  return entityAt digest filePath n (if insideImpl then .method else .function) name (qualify name parentStack) parentStack

def extractNamedItem (n : SyntaxNode) (parentStack : List (Text × Text)) (kind : EntityKind) (nameKinds : List Text) :
    Option Entity := do
  let nameNode ← n.childByFieldName "name".toList
  if nameNode.kind ∈ nameKinds then
    let name ← nodeText source nameNode
    return entityAt digest filePath n kind name (qualify name parentStack) parentStack
  else none

/-- Several blocks for one type are told apart by their offset. -/
def extractImplItem (n : SyntaxNode) (parentStack : List (Text × Text)) : Option Entity := do
  let typeName ← nodeText source (← n.childByFieldName "type".toList)
  let name := match n.childByFieldName "trait".toList with
    | some traitNode => (nodeText source traitNode).getD [] ++ " for ".toList ++ typeName
    | none => typeName
  let qualifiedName := qualify name parentStack ++ ['@'] ++ Text.ofNat n.startByte
  return entityAt digest filePath n .impl name qualifiedName parentStack

/-- `str::trim_start_matches` on a text that is not empty. -/
def trimStartText (pre : Text) : Nat → Text → Text
  | 0, s => s
  | n + 1, s =>
    match Text.stripPrefix pre s with
    | some r => trimStartText pre n r
    | none => s

def extractUseDeclaration (n : SyntaxNode) (parentStack : List (Text × Text)) : Option Entity := do
  let text ← nodeText source n
  let name := Text.trim (Text.trimEndMatches ';' (trimStartText "use ".toList text.length text))
  let qualifiedName := "use::".toList ++ name ++ ['@'] ++ Text.ofNat n.startByte
  return entityAt digest filePath n .useStatement name qualifiedName parentStack

mutual

/-- The entities of a node, in the order in which they are pushed. -/
def extractEntities : SyntaxNode → List (Text × Text) → Bool → List Entity
  | .mk kind field s e r₁ r₂ named children, parentStack, insideImpl =>
    let node := SyntaxNode.mk kind field s e r₁ r₂ named children
    let scope := fun entity : Entity => parentStack ++ [(entity.id, entity.qualifiedName)]
    if kind = "function_item".toList then (extractFunction digest source filePath node parentStack insideImpl).toList
    else if kind = "struct_item".toList then
      (extractNamedItem digest source filePath node parentStack .struct ["type_identifier".toList]).toList
    else if kind = "enum_item".toList then
      (extractNamedItem digest source filePath node parentStack .enum ["type_identifier".toList]).toList
    else if kind = "trait_item".toList then
      match extractNamedItem digest source filePath node parentStack .trait ["type_identifier".toList] with
      | some entity => entity :: extractBody children (scope entity) false
      | none => []
    else if kind = "impl_item".toList then
      match extractImplItem digest source filePath node parentStack with
      | some entity => entity :: extractBody children (scope entity) true
      | none => []
    else if kind = "mod_item".toList then
      match extractNamedItem digest source filePath node parentStack .module ["identifier".toList] with
      | some entity => entity :: extractBody children (scope entity) false
      | none => []
    else if kind = "use_declaration".toList then
      (extractUseDeclaration digest source filePath node parentStack).toList
    else if kind = "source_file".toList then extractNamed children parentStack false
    else []

/-- The named children of the first child in the field `body`. -/
def extractBody : List SyntaxNode → List (Text × Text) → Bool → List Entity
  | [], _, _ => []
  | .mk _ field _ _ _ _ _ children :: rest, parentStack, insideImpl =>
    if field = some "body".toList then extractNamed children parentStack insideImpl
    else extractBody rest parentStack insideImpl

def extractNamed : List SyntaxNode → List (Text × Text) → Bool → List Entity
  | [], _, _ => []
  | n :: rest, parentStack, insideImpl =>
    (if n.named then extractEntities n parentStack insideImpl else []) ++ extractNamed rest parentStack insideImpl

end

end Extract

/-! ## The layout of a tree -/

/-- The kinds of node that become entities. -/
def itemKinds : List Text :=
  ["function_item", "struct_item", "enum_item", "trait_item", "impl_item", "mod_item", "use_declaration"].map String.toList

mutual

/-- Children lie inside their node, one after another; an item is not empty, and its body starts after it does. -/
def WellFormed : SyntaxNode → Prop
  | .mk kind _ s e _ _ _ children =>
    s ≤ e ∧ (kind ∈ itemKinds → s < e) ∧ InOrder s e children ∧
      ∀ c ∈ children, c.field = some "body".toList → s < c.startByte

def InOrder : Nat → Nat → List SyntaxNode → Prop
  | _, _, [] => True
  | lo, hi, n :: rest => lo ≤ n.startByte ∧ n.endByte ≤ hi ∧ WellFormed n ∧ InOrder n.endByte hi rest

end

theorem le_of_wellFormed : ∀ {n : SyntaxNode}, WellFormed n → n.startByte ≤ n.endByte
  | .mk .., h => by
    unfold WellFormed at h
    exact h.1

/-- What the parser of a Rust file is: for the bytes it accepts, a tree laid out inside them. -/
structure TreeSitter where
  parse : Bytes → Option SyntaxNode
  wellFormed : ∀ c n, parse c = some n → WellFormed n ∧ n.endByte ≤ c.length

/-- A parser that knows some files. -/
def TreeSitter.ofTable (table : List (Bytes × SyntaxNode)) (h : ∀ q ∈ table, WellFormed q.2 ∧ q.2.endByte ≤ q.1.length) :
    TreeSitter where
  parse c := (table.find? (fun q => q.1 = c)).map Prod.snd
  wellFormed c n hn := by
    obtain ⟨q, hq, rfl⟩ := Option.map_eq_some_iff.1 hn
    have hc : q.1 = c := by simpa using List.find?_some hq
    rw [← hc]
    exact h q (List.mem_of_find?_eq_some hq)

def entitiesOf (ts : TreeSitter) (digest : Bytes → Text) (filePath : Path) (source : Bytes) : Except GraphError (List Entity) :=
  match ts.parse source with
  | some root => .ok (extractEntities digest source filePath root [] false)
  | none => .error (.parse ("failed to parse ".toList ++ filePath))

/-! ## The spans of the entities -/

/-- Spans between two places, in the order of their starts, none empty and no two starting together; of two of them the
later is inside the earlier or after it. -/
def Spans (lo hi : Nat) (es : List Entity) : Prop :=
  (∀ e ∈ es, lo ≤ e.byteRange.1 ∧ e.byteRange.1 < e.byteRange.2 ∧ e.byteRange.2 ≤ hi) ∧
    es.Pairwise (fun a b => a.byteRange.1 < b.byteRange.1 ∧
      (b.byteRange.2 ≤ a.byteRange.2 ∨ a.byteRange.2 ≤ b.byteRange.1))

theorem Spans.nil (lo hi : Nat) : Spans lo hi [] := ⟨by simp, List.Pairwise.nil⟩

theorem Spans.mono {lo hi lo' hi' : Nat} {es : List Entity} (h : Spans lo hi es) (h1 : lo' ≤ lo) (h2 : hi ≤ hi') :
    Spans lo' hi' es :=
  ⟨fun e he => by have := h.1 e he; omega, h.2⟩

theorem Spans.append {lo mid hi : Nat} {es fs : List Entity} (h1 : Spans lo mid es) (h2 : Spans mid hi fs)
    (hlo : lo ≤ mid) (hhi : mid ≤ hi) : Spans lo hi (es ++ fs) := by
  refine ⟨fun e he => ?_, List.pairwise_append.2 ⟨h1.2, h2.2, fun a ha b hb => ?_⟩⟩
  · rcases List.mem_append.1 he with he | he
    · have := h1.1 e he
      omega
    · have := h2.1 e he
      omega
  · have := h1.1 a ha
    have := h2.1 b hb
    omega

/-- An item, and what is in its body. -/
theorem Spans.cons {lo hi : Nat} {e : Entity} {es : List Entity} (he : e.byteRange = (lo, hi)) (hlt : lo < hi)
    (h : Spans (lo + 1) hi es) : Spans lo hi (e :: es) := by
  have h1 : e.byteRange.1 = lo := by rw [he]
  have h2 : e.byteRange.2 = hi := by rw [he]
  refine ⟨fun x hx => ?_, List.pairwise_cons.2 ⟨fun x hx => ?_, h.2⟩⟩
  · rcases List.mem_cons.1 hx with rfl | hx
    · omega
    · have := h.1 x hx
      omega
  · have := h.1 x hx
    omega

section

variable {digest : Bytes → Text} {source : Bytes} {filePath : Path}

theorem byteRange_extractFunction {n : SyntaxNode} {ps : List (Text × Text)} {b : Bool} {e : Entity}
    (h : extractFunction digest source filePath n ps b = some e) : e.byteRange = (n.startByte, n.endByte) := by
  unfold extractFunction at h
  simp only [Option.bind_eq_bind, Option.bind_eq_some_iff] at h
  obtain ⟨_, _, _, _, h⟩ := h
  cases h
  rfl

theorem byteRange_extractNamedItem {n : SyntaxNode} {ps : List (Text × Text)} {k : EntityKind} {ks : List Text} {e : Entity}
    (h : extractNamedItem digest source filePath n ps k ks = some e) : e.byteRange = (n.startByte, n.endByte) := by
  unfold extractNamedItem at h
  simp only [Option.bind_eq_bind, Option.bind_eq_some_iff] at h
  obtain ⟨_, _, h⟩ := h
  split at h
  · simp only [Option.bind_eq_some_iff] at h
    obtain ⟨_, _, h⟩ := h
    cases h
    rfl
  · cases h

theorem byteRange_extractImplItem {n : SyntaxNode} {ps : List (Text × Text)} {e : Entity}
    (h : extractImplItem digest source filePath n ps = some e) : e.byteRange = (n.startByte, n.endByte) := by
  unfold extractImplItem at h
  simp only [Option.bind_eq_bind, Option.bind_eq_some_iff] at h
  obtain ⟨_, _, _, _, h⟩ := h
  cases h
  rfl

theorem byteRange_extractUseDeclaration {n : SyntaxNode} {ps : List (Text × Text)} {e : Entity}
    (h : extractUseDeclaration digest source filePath n ps = some e) : e.byteRange = (n.startByte, n.endByte) := by
  unfold extractUseDeclaration at h
  simp only [Option.bind_eq_bind, Option.bind_eq_some_iff] at h
  obtain ⟨_, _, h⟩ := h
  cases h
  rfl

theorem spans_toList {o : Option Entity} {lo hi : Nat} (h : ∀ e, o = some e → e.byteRange = (lo, hi)) (hlt : lo < hi) :
    Spans lo hi o.toList := by
  cases o with
  | none => exact Spans.nil lo hi
  | some e => exact Spans.cons (h e rfl) hlt (Spans.nil _ _)

end

variable (digest : Bytes → Text) (source : Bytes) (filePath : Path)

mutual

theorem extractEntities_spans : ∀ (n : SyntaxNode) (ps : List (Text × Text)) (b : Bool), WellFormed n →
    Spans n.startByte n.endByte (extractEntities digest source filePath n ps b)
  | .mk kind field s e r₁ r₂ named children, ps, b, hwf => by
    unfold WellFormed at hwf
    obtain ⟨hse, hitem, hin, hbody⟩ := hwf
    have hlt : ∀ k, k ∈ itemKinds → kind = k → s < e := fun k hk he => hitem (he ▸ hk)
    have hcont : ∀ (en : Entity) (ps' : List (Text × Text)) (b' : Bool), s < e → en.byteRange = (s, e) →
        Spans s e (en :: extractBody digest source filePath children ps' b') := fun en ps' b' hse' hr =>
      Spans.cons hr hse' (extractBody_spans children ps' b' s s e hin hbody)
    unfold extractEntities
    dsimp only [SyntaxNode.startByte, SyntaxNode.endByte]
    by_cases h1 : kind = "function_item".toList
    · rw [if_pos h1]
      exact spans_toList (fun en => byteRange_extractFunction) (hlt _ (by decide) h1)
    rw [if_neg h1]
    by_cases h2 : kind = "struct_item".toList
    · rw [if_pos h2]
      exact spans_toList (fun en => byteRange_extractNamedItem) (hlt _ (by decide) h2)
    rw [if_neg h2]
    by_cases h3 : kind = "enum_item".toList
    · rw [if_pos h3]
      exact spans_toList (fun en => byteRange_extractNamedItem) (hlt _ (by decide) h3)
    rw [if_neg h3]
    by_cases h4 : kind = "trait_item".toList
    · rw [if_pos h4]
      split
      · rename_i en hen
        exact hcont en _ _ (hlt _ (by decide) h4) (byteRange_extractNamedItem hen)
      · exact Spans.nil s e
    rw [if_neg h4]
    by_cases h5 : kind = "impl_item".toList
    · rw [if_pos h5]
      split
      · rename_i en hen
        exact hcont en _ _ (hlt _ (by decide) h5) (byteRange_extractImplItem hen)
      · exact Spans.nil s e
    rw [if_neg h5]
    by_cases h6 : kind = "mod_item".toList
    · rw [if_pos h6]
      split
      · rename_i en hen
        exact hcont en _ _ (hlt _ (by decide) h6) (byteRange_extractNamedItem hen)
      · exact Spans.nil s e
    rw [if_neg h6]
    by_cases h7 : kind = "use_declaration".toList
    · rw [if_pos h7]
      exact spans_toList (fun en => byteRange_extractUseDeclaration) (hlt _ (by decide) h7)
    rw [if_neg h7]
    by_cases h8 : kind = "source_file".toList
    · rw [if_pos h8]
      exact extractNamed_spans children ps false s e hse hin
    rw [if_neg h8]
    exact Spans.nil s e

theorem extractBody_spans : ∀ (l : List SyntaxNode) (ps : List (Text × Text)) (b : Bool) (s lo hi : Nat), InOrder lo hi l →
    (∀ c ∈ l, c.field = some "body".toList → s < c.startByte) →
    Spans (s + 1) hi (extractBody digest source filePath l ps b)
  | [], ps, b, s, lo, hi, _, _ => by
    unfold extractBody
    exact Spans.nil _ _
  | .mk kind field s' e' r₁ r₂ named children :: rest, ps, b, s, lo, hi, hin, hbody => by
    unfold InOrder at hin
    obtain ⟨-, hhi, hwf, hrest⟩ := hin
    unfold extractBody
    split
    · rename_i hf
      unfold WellFormed at hwf
      have hlt : s < s' := hbody _ List.mem_cons_self hf
      exact (extractNamed_spans children ps b s' e' hwf.1 hwf.2.2.1).mono (by omega) hhi
    · exact extractBody_spans rest ps b s _ hi hrest fun c hc => hbody c (List.mem_cons_of_mem _ hc)

theorem extractNamed_spans : ∀ (l : List SyntaxNode) (ps : List (Text × Text)) (b : Bool) (lo hi : Nat), lo ≤ hi →
    InOrder lo hi l → Spans lo hi (extractNamed digest source filePath l ps b)
  | [], ps, b, lo, hi, _, _ => by
    unfold extractNamed
    exact Spans.nil _ _
  | n :: rest, ps, b, lo, hi, hle, hin => by
    unfold InOrder at hin
    obtain ⟨hlo, hhi, hwf, hrest⟩ := hin
    have hse : n.startByte ≤ n.endByte := le_of_wellFormed hwf
    have hspans : Spans lo n.endByte (if n.named then extractEntities digest source filePath n ps b else []) := by
      split
      · exact (extractEntities_spans n ps b hwf).mono hlo le_rfl
      · exact Spans.nil _ _
    unfold extractNamed
    exact hspans.append (extractNamed_spans rest ps b n.endByte hi hhi hrest) (by omega) hhi

end

/-- **The spans of a file's entities** are inside the file, in order, apart or nested, and no two start together. -/
theorem entitiesOf_spans {ts : TreeSitter} {es : List Entity} (h : entitiesOf ts digest filePath source = .ok es) :
    Spans 0 source.length es := by
  unfold entitiesOf at h
  split at h
  · rename_i root hroot
    cases h
    obtain ⟨hwf, hlen⟩ := ts.wellFormed source root hroot
    exact (extractEntities_spans digest source filePath root [] false hwf).mono (Nat.zero_le _) hlen
  · cases h

end RustSource
end Vai
