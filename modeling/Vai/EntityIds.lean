import Vai.EntityMerge
import Vai.Separated
import Vai.SourceFile
/-!
# EntityIds — when ids tell entities apart

The id of an entity is the digest of `path::qualified_name`.  Two entities of a file have one id exactly when their
declarations have one label, and the offsets in the labels of impl blocks, use declarations, imports and exports keep
these apart.  What carries no offset is only told apart by the names around it: `mod foo` and `fn foo`, the getter and the
setter of a property, or the methods of two impl blocks with one head, have one id (`ids_identify_iff`).
-/
namespace Vai
namespace SourceFile

open Declaration
open RustSource (computeId)
open Separated (MovesOn)

/-- What is read of a file; a file that does not parse has no entities. -/
def entities (parsers : Parsers) (digest : Bytes → Text) (filePath : Path) (source : Bytes) : List Entity :=
  match parseSourceFile parsers digest filePath source with
  | .ok r => r.1
  | .error _ => []

/-- No two entities have one id, and a map from ids holds every entity. -/
def Identified (es : List Entity) : Prop := (es.map Entity.id).Nodup ∧ ∀ e ∈ es, Merge.byId es e.id = some e

/-- The path goes on with a colon where the name begins with one, or the name begins with the rest of the path. -/
def Continues (a b : Path × Text) : Prop := MovesOn ':' a.1 a.2 b.1 b.2

/-! ## The text under the digest -/

theorem intoBytes_injective : Function.Injective Text.intoBytes := by
  intro s t h
  have hread := congrArg Text.fromUtf8 h
  simpa using hread

section

variable {digest : Bytes → Text} (hdigest : Function.Injective digest)
include hdigest

theorem computeId_eq_iff {a b : Path × Text} :
    computeId digest a.1 a.2 = computeId digest b.1 b.2 ↔ a = b ∨ Continues a b ∨ Continues b a := by
  unfold computeId Continues
  rw [hdigest.eq_iff, intoBytes_injective.eq_iff, Prod.ext_iff]
  exact Separated.append_twice_inj_iff

/-- **A path and a name are read back** unless the `::` between them may stand elsewhere. -/
theorem eq_of_computeId_iff {a b : Path × Text} :
    (computeId digest a.1 a.2 = computeId digest b.1 b.2 → a = b) ↔ ¬ Continues a b ∧ ¬ Continues b a := by
  rw [computeId_eq_iff hdigest, ← not_or]
  constructor
  · intro h hc
    obtain rfl := h (Or.inr hc)
    exact hc.elim Separated.not_movesOn_self Separated.not_movesOn_self
  · intro hc h
    exact h.resolve_right hc

theorem computeId_injective (filePath : Path) : Function.Injective (computeId digest filePath) := by
  intro q q' h
  rcases (computeId_eq_iff hdigest (a := (filePath, q)) (b := (filePath, q'))).1 h with h | h | h
  · exact congrArg Prod.snd h
  · exact absurd h Separated.not_movesOn_self
  · exact absurd h Separated.not_movesOn_self

end

/-! ## The entities of a file -/

variable (parsers : Parsers) (digest : Bytes → Text) (filePath : Path) (source : Bytes)

theorem declarations_of_error {x : GraphError} (h : parseSourceFile parsers digest filePath source = .error x) :
    declarations parsers filePath source = [] := by
  unfold parseSourceFile at h
  unfold declarations
  cases hl : language filePath with
  | none => rfl
  | some l =>
    rw [hl] at h
    cases l with
    | rust =>
      dsimp only at h ⊢
      unfold parseRustSource at h
      cases hroot : parsers.rust.parse source with
      | none => rfl
      | some root => simp [hroot] at h
    | typescript tsx =>
      dsimp only at h ⊢
      unfold TsSource.parseTypescriptSource at h
      cases hroot : parsers.typescript.parse tsx source with
      | none => rfl
      | some root => simp [hroot] at h

theorem entities_reads :
    List.Forall₂ (Reads digest filePath) (entities parsers digest filePath source) (declarations parsers filePath source) := by
  unfold entities
  cases h : parseSourceFile parsers digest filePath source with
  | ok r => exact parseSourceFile_reads h
  | error x =>
    rw [declarations_of_error parsers digest filePath source h]
    exact List.Forall₂.nil

theorem ids_eq : (entities parsers digest filePath source).map Entity.id =
    ((declarations parsers filePath source).map label).map (computeId digest filePath) := by
  rw [← List.forall₂_eq_eq_eq, List.map_map, List.forall₂_map_left_iff, List.forall₂_map_right_iff]
  exact (entities_reads parsers digest filePath source).imp fun _ _ h => h.id

theorem qualifiedNames_eq : (entities parsers digest filePath source).map Entity.qualifiedName =
    (declarations parsers filePath source).map label := by
  rw [← List.forall₂_eq_eq_eq, List.forall₂_map_left_iff, List.forall₂_map_right_iff]
  exact (entities_reads parsers digest filePath source).imp fun _ _ h => h.qualifiedName

variable {digest}

theorem nodup_ids_iff (hdigest : Function.Injective digest) : ((entities parsers digest filePath source).map Entity.id).Nodup ↔
    ((entities parsers digest filePath source).map Entity.qualifiedName).Nodup := by
  rw [ids_eq, qualifiedNames_eq]
  exact List.nodup_map_iff (computeId_injective hdigest filePath)

theorem byId_of_nodup {es : List Entity} (h : (es.map Entity.id).Nodup) {e : Entity} (he : e ∈ es) :
    Merge.byId es e.id = some e := by
  cases hb : Merge.byId es e.id with
  | none =>
    unfold Merge.byId at hb
    rw [List.find?_eq_none] at hb
    exact absurd (decide_eq_true rfl) (hb e (List.mem_reverse.2 he))
  | some e' =>
    obtain ⟨he', hid⟩ := Merge.mem_of_byId hb
    rw [List.inj_on_of_nodup_map h he' he hid]

/-- The ids of a file identify its entities exactly when what carries no offset is declared once. -/
theorem identified_iff (hdigest : Function.Injective digest) :
    Identified (entities parsers digest filePath source) ↔ DeclaredOnce (declarations parsers filePath source) := by
  rw [← nodup_label_iff (offsetsApart_declarations parsers filePath source), ← qualifiedNames_eq parsers digest,
    ← nodup_ids_iff parsers filePath source hdigest]
  exact ⟨And.left, fun h => ⟨h, fun e he => byId_of_nodup h he⟩⟩

/-- **Ids identify entities** exactly when no two declarations of the file, not both with an offset, have one label, and
the paths and names do not continue each other. -/
theorem ids_identify_iff (digest : { f : Bytes → Text // Function.Injective f }) (a b : Path × Text) :
    (Identified (entities parsers digest filePath source) ∧
        (computeId digest a.1 a.2 = computeId digest b.1 b.2 → a = b)) ↔
      DeclaredOnce (declarations parsers filePath source) ∧ ¬ Continues a b ∧ ¬ Continues b a :=
  and_congr (identified_iff parsers filePath source digest.2) (eq_of_computeId_iff digest.2)

/-! ## A getter and a setter -/

/-- A node with its tokens and named children, on the first line. -/
def nodeAt (kind : String) (field : Option String) (start stop : Nat) (children : List SyntaxNode) : SyntaxNode :=
  .mk kind.toList (field.map String.toList) start stop 0 0 true children

def tokenAt (text : String) (start : Nat) : SyntaxNode :=
  .mk text.toList none start (start + text.length) 0 0 false []

def accessorsSource : Bytes := Text.intoBytes "class A{get x(){}set x(v){}}".toList

def getter : SyntaxNode :=
  nodeAt "method_definition" none 8 17 [
    tokenAt "get" 8,
    nodeAt "property_identifier" (some "name") 12 13 [],
    nodeAt "formal_parameters" (some "parameters") 13 15 [tokenAt "(" 13, tokenAt ")" 14],
    nodeAt "statement_block" (some "body") 15 17 [tokenAt "\x7b" 15, tokenAt "\x7d" 16]]

def setter : SyntaxNode :=
  nodeAt "method_definition" none 17 27 [
    tokenAt "set" 17,
    nodeAt "property_identifier" (some "name") 21 22 [],
    nodeAt "formal_parameters" (some "parameters") 22 25 [
      tokenAt "(" 22,
      nodeAt "required_parameter" none 23 24 [nodeAt "identifier" (some "pattern") 23 24 []],
      tokenAt ")" 24],
    nodeAt "statement_block" (some "body") 25 27 [tokenAt "\x7b" 25, tokenAt "\x7d" 26]]

/-- `class A{get x(){}set x(v){}}`. -/
def accessorsFile : SyntaxNode :=
  nodeAt "program" none 0 28 [
    nodeAt "class_declaration" none 0 28 [
      tokenAt "class" 0,
      nodeAt "type_identifier" (some "name") 6 7 [],
      nodeAt "class_body" (some "body") 7 28 [tokenAt "\x7b" 7, getter, setter, tokenAt "\x7d" 27]]]

theorem accessorsFile_wellFormed : TsSource.WellFormed accessorsFile := by
  simp [accessorsFile, getter, setter, nodeAt, tokenAt, TsSource.WellFormed, TsSource.InOrder, TsSource.statementKinds,
    TsSource.scopeKinds, SyntaxNode.startByte, SyntaxNode.endByte, SyntaxNode.field]
  decide

/-- Grammars that know some TypeScript files. -/
def Parsers.ofTable (table : List (Bytes × SyntaxNode)) (h : ∀ q ∈ table, TsSource.WellFormed q.2) : Parsers where
  rust := RustSource.TreeSitter.ofTable [] (by simp)
  typescript := TsSource.TreeSitter.ofTable table h
  isUppercase := Char.isUpper

/-- A character for every byte, none of them ASCII. -/
def spelled (b : Bytes) : Text := b.map fun x => Char.ofNat (x.toNat + 256)

theorem toNat_spelled (x : UInt8) : (Char.ofNat (x.toNat + 256)).toNat = x.toNat + 256 := by
  have hx : (x.toNat + 256).isValidChar := Or.inl (by have := x.toNat_lt; omega)
  rw [Char.ofNat, dif_pos hx]
  rfl

theorem spelled_injective : Function.Injective spelled := by
  refine List.map_injective_iff.2 fun x y h => ?_
  have hn := congrArg Char.toNat h
  rw [toNat_spelled, toNat_spelled] at hn
  exact UInt8.toNat.inj (Nat.add_right_cancel hn)

theorem not_mem_spelled (b : Bytes) : ':' ∉ spelled b := by
  intro h
  obtain ⟨x, -, hx⟩ := List.mem_map.1 h
  have hn := congrArg Char.toNat hx
  rw [toNat_spelled] at hn
  have hcolon : ':'.toNat = 58 := rfl
  omega

def accessorsParsers : Parsers := .ofTable [(accessorsSource, accessorsFile)] (by simp [accessorsFile_wellFormed])

/-- The getter and the setter of `x` in `class A` are two entities with one id. -/
theorem accessors_have_one_id : ¬ ∀ (parsers : Parsers) (digest : { f : Bytes → Text // Function.Injective f })
    (filePath : Path) (source : Bytes) (a b : Path × Text),
    Identified (entities parsers digest.1 filePath source) ∧
      (computeId digest.1 a.1 a.2 = computeId digest.1 b.1 b.2 → a = b) := by
  intro h
  have hnodup := (h accessorsParsers ⟨spelled, spelled_injective⟩ "a.ts".toList accessorsSource ([], []) ([], [])).1.1
  exact absurd hnodup (by decide +kernel)

end SourceFile
end Vai
