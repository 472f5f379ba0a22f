import Vai.RustSource
/-!
# Relocated — the entities of a syntax tree in another place

Extraction reads a node's bytes through its positions, and writes its start into the qualified names of impl blocks and
use declarations.  So a subtree that an edit before it has moved keeps its entities (`extractEntities_relocated`), each
under its old qualified name (`Twin`), except for the offsets.
-/
namespace Vai
namespace RustSource

mutual

/-- A node with its bytes and its rows moved. -/
def relocate (f g : Nat → Nat) : SyntaxNode → SyntaxNode
  | .mk kind field s e r₁ r₂ named children => .mk kind field (f s) (f e) (g r₁) (g r₂) named (relocateAll f g children)

def relocateAll (f g : Nat → Nat) : List SyntaxNode → List SyntaxNode
  | [] => []
  | n :: rest => relocate f g n :: relocateAll f g rest

end

section

variable {f g : Nat → Nat}

mutual

theorem relocate_id : ∀ n : SyntaxNode, relocate id id n = n
  | .mk kind field s e r₁ r₂ named children => by
    unfold relocate
    rw [relocateAll_id children]
    rfl

theorem relocateAll_id : ∀ l : List SyntaxNode, relocateAll id id l = l
  | [] => by unfold relocateAll; rfl
  | n :: rest => by
    unfold relocateAll
    rw [relocate_id n, relocateAll_id rest]

end

@[simp] theorem startByte_relocate (n : SyntaxNode) : (relocate f g n).startByte = f n.startByte := by
  cases n
  unfold relocate
  rfl

@[simp] theorem endByte_relocate (n : SyntaxNode) : (relocate f g n).endByte = f n.endByte := by
  cases n
  unfold relocate
  rfl

@[simp] theorem kind_relocate (n : SyntaxNode) : (relocate f g n).kind = n.kind := by
  cases n
  unfold relocate
  rfl

@[simp] theorem field_relocate (n : SyntaxNode) : (relocate f g n).field = n.field := by
  cases n
  unfold relocate
  rfl

@[simp] theorem named_relocate (n : SyntaxNode) : (relocate f g n).named = n.named := by
  cases n
  unfold relocate
  rfl

@[simp] theorem children_relocate (n : SyntaxNode) : (relocate f g n).children = relocateAll f g n.children := by
  cases n
  unfold relocate
  rfl

theorem find_relocateAll (p : SyntaxNode → Bool) (hp : ∀ n, p (relocate f g n) = p n) : ∀ l : List SyntaxNode,
    (relocateAll f g l).find? p = (l.find? p).map (relocate f g)
  | [] => by unfold relocateAll; rfl
  | n :: rest => by
    unfold relocateAll
    rw [List.find?_cons, List.find?_cons, hp]
    cases p n with
    | true => rfl
    | false => exact find_relocateAll p hp rest

theorem childByFieldName_relocate (n : SyntaxNode) (name : Text) :
    (relocate f g n).childByFieldName name = (n.childByFieldName name).map (relocate f g) := by
  unfold SyntaxNode.childByFieldName
  rw [children_relocate]
  exact find_relocateAll _ (fun m => by rw [field_relocate]) n.children

/-! ## Twins -/

/-- The kinds whose qualified name ends in an offset. -/
def HasOffset (k : EntityKind) : Prop := k = .impl ∨ k = .useStatement

/-- `e'` is the entity `e` of a subtree that has moved. -/
structure Twin (digest : Bytes → Text) (filePath : Path) (f : Nat → Nat) (e e' : Entity) : Prop where
  kind : e'.kind = e.kind
  byteRange : e'.byteRange = (f e.byteRange.1, f e.byteRange.2)
  id : e.id = computeId digest filePath e.qualifiedName ∧ e'.id = computeId digest filePath e'.qualifiedName
  plain : ¬ HasOffset e.kind → e'.qualifiedName = e.qualifiedName
  offset : HasOffset e.kind → ∃ stem, e.qualifiedName = stem ++ '@' :: Text.ofNat e.byteRange.1 ∧
    e'.qualifiedName = stem ++ '@' :: Text.ofNat (f e.byteRange.1)

theorem takeWhile_stem (stem x y : Text) :
    (stem ++ '@' :: x).takeWhile (· ≠ '@') = (stem ++ '@' :: y).takeWhile (· ≠ '@') := by
  induction stem with
  | nil => rfl
  | cons c stem ih =>
    simp only [List.cons_append, List.takeWhile_cons]
    split
    · rw [ih]
    · rfl

variable {digest : Bytes → Text} {filePath : Path}

/-- What the names below an entity are qualified with does not move. -/
theorem Twin.scope {e e' : Entity} (h : Twin digest filePath f e e') :
    e.qualifiedName.takeWhile (· ≠ '@') = e'.qualifiedName.takeWhile (· ≠ '@') := by
  by_cases hk : HasOffset e.kind
  · obtain ⟨stem, he, he'⟩ := h.offset hk
    rw [he, he']
    exact takeWhile_stem _ _ _
  · rw [h.plain hk]

/-- Two stacks that qualify names alike. -/
def SameScope (ps ps' : List (Text × Text)) : Prop :=
  ps.getLast?.map (fun q => q.2.takeWhile (· ≠ '@')) = ps'.getLast?.map (fun q => q.2.takeWhile (· ≠ '@'))

theorem SameScope.qualify {ps ps' : List (Text × Text)} (h : SameScope ps ps') (name : Text) :
    qualify name ps' = qualify name ps := by
  unfold SameScope at h
  unfold RustSource.qualify
  cases hp : ps.getLast? with
  | none =>
    rw [hp] at h
    rw [Option.map_eq_none_iff.1 h.symm]
  | some q =>
    rw [hp] at h
    obtain ⟨q', hq', he⟩ := Option.map_eq_some_iff.1 h.symm
    rw [hq']
    simp only [he]

theorem Twin.sameScope {e e' : Entity} (h : Twin digest filePath f e e') (ps ps' : List (Text × Text)) :
    SameScope (ps ++ [(e.id, e.qualifiedName)]) (ps' ++ [(e'.id, e'.qualifiedName)]) := by
  unfold SameScope
  rw [List.getLast?_concat, List.getLast?_concat, Option.map_some, Option.map_some, h.scope]

/-! ## The extractors -/

variable {source source' : Bytes} {A B : Nat}

/-- Between `A` and `B` the two files have the same bytes, moved by `f`. -/
def Moves (source source' : Bytes) (f : Nat → Nat) (A B : Nat) : Prop :=
  ∀ s e, A ≤ s → s ≤ e → e ≤ B → slice source' (f s) (f e) = slice source s e

theorem Moves.nodeText (h : Moves source source' f A B) {n : SyntaxNode} (hA : A ≤ n.startByte) (hB : n.endByte ≤ B)
    (hwf : WellFormed n) : nodeText source' (relocate f g n) = nodeText source n := by
  unfold RustSource.nodeText
  rw [startByte_relocate, endByte_relocate, h _ _ hA (le_of_wellFormed hwf) hB]

theorem mem_of_inOrder : ∀ {l : List SyntaxNode} {lo hi : Nat} {c : SyntaxNode}, InOrder lo hi l → c ∈ l →
    lo ≤ c.startByte ∧ c.endByte ≤ hi ∧ WellFormed c
  | n :: rest, lo, hi, c, h, hc => by
    unfold InOrder at h
    obtain ⟨hlo, hhi, hwf, hrest⟩ := h
    rcases List.mem_cons.1 hc with rfl | hc
    · exact ⟨hlo, hhi, hwf⟩
    · obtain ⟨h1, h2, h3⟩ := mem_of_inOrder hrest hc
      have := le_of_wellFormed hwf
      exact ⟨by omega, h2, h3⟩

theorem wellFormed_inOrder {n : SyntaxNode} (h : WellFormed n) : InOrder n.startByte n.endByte n.children := by
  cases n
  unfold WellFormed at h
  exact h.2.2.1

/-- A child in a field, in both places. -/
theorem Moves.child (h : Moves source source' f A B) {n : SyntaxNode} (hA : A ≤ n.startByte) (hB : n.endByte ≤ B)
    (hwf : WellFormed n) (name : Text) :
    n.childByFieldName name = none ∧ (relocate f g n).childByFieldName name = none ∨
    ∃ c, n.childByFieldName name = some c ∧ (relocate f g n).childByFieldName name = some (relocate f g c) ∧
      RustSource.nodeText source' (relocate f g c) = RustSource.nodeText source c := by
  rw [childByFieldName_relocate]
  cases hc : n.childByFieldName name with
  | none => exact .inl ⟨rfl, rfl⟩
  | some c =>
    have hmem : c ∈ n.children := List.mem_of_find?_eq_some hc
    obtain ⟨h1, h2, h3⟩ := mem_of_inOrder (wellFormed_inOrder hwf) hmem
    exact .inr ⟨c, rfl, rfl, h.nodeText (by omega) (by omega) h3⟩

section Extractors

variable {n : SyntaxNode} {ps ps' : List (Text × Text)}
variable (h : Moves source source' f A B) (hA : A ≤ n.startByte) (hB : n.endByte ≤ B) (hwf : WellFormed n)
variable (hps : SameScope ps ps')
include h hA hB hwf hps

theorem extractFunction_relocated (b : Bool) : Option.Rel (Twin digest filePath f)
    (extractFunction digest source filePath n ps b) (extractFunction digest source' filePath (relocate f g n) ps' b) := by
  unfold extractFunction
  rcases h.child (g := g) hA hB hwf "name".toList with ⟨h1, h2⟩ | ⟨c, h1, h2, htext⟩
  · rw [h1, h2]
    exact .none
  · rw [h1, h2, Option.bind_eq_bind, Option.bind_eq_bind, Option.bind_some, Option.bind_some, htext]
    cases RustSource.nodeText source c with
    | none => exact .none
    | some name =>
      refine .some ⟨rfl, ?_, ⟨rfl, rfl⟩, fun _ => hps.qualify name, fun hk => ?_⟩
      · simp [entityAt]
      · cases b <;> simp [entityAt, HasOffset] at hk

theorem extractNamedItem_relocated {k : EntityKind} (hk : ¬ HasOffset k) (ks : List Text) :
    Option.Rel (Twin digest filePath f) (extractNamedItem digest source filePath n ps k ks)
      (extractNamedItem digest source' filePath (relocate f g n) ps' k ks) := by
  unfold extractNamedItem
  rcases h.child (g := g) hA hB hwf "name".toList with ⟨h1, h2⟩ | ⟨c, h1, h2, htext⟩
  · rw [h1, h2]
    exact .none
  · rw [h1, h2, Option.bind_eq_bind, Option.bind_eq_bind, Option.bind_some, Option.bind_some, htext, kind_relocate]
    split
    · cases RustSource.nodeText source c with
      | none => exact .none
      | some name =>
        refine .some ⟨rfl, ?_, ⟨rfl, rfl⟩, fun _ => hps.qualify name, fun hk' => absurd hk' hk⟩
        simp [entityAt]
    · exact .none

theorem extractImplItem_relocated : Option.Rel (Twin digest filePath f) (extractImplItem digest source filePath n ps)
    (extractImplItem digest source' filePath (relocate f g n) ps') := by
  unfold extractImplItem
  rcases h.child (g := g) hA hB hwf "type".toList with ⟨h1, h2⟩ | ⟨c, h1, h2, htext⟩
  · rw [h1, h2]
    exact .none
  · rw [h1, h2, Option.bind_eq_bind, Option.bind_eq_bind, Option.bind_some, Option.bind_some, htext]
    cases RustSource.nodeText source c with
    | none => exact .none
    | some typeName =>
      rcases h.child (g := g) hA hB hwf "trait".toList with ⟨h3, h4⟩ | ⟨t, h3, h4, htrait⟩
      · rw [h3, h4]
        refine .some ⟨rfl, by simp [entityAt], ⟨rfl, rfl⟩, fun hk => absurd (.inl rfl) hk, fun _ => ⟨qualify typeName ps, ?_⟩⟩
        simp [entityAt, hps.qualify]
      · rw [h3, h4]
        refine .some ⟨rfl, by simp [entityAt], ⟨rfl, rfl⟩, fun hk => absurd (.inl rfl) hk, fun _ =>
          ⟨qualify ((RustSource.nodeText source t).getD [] ++ " for ".toList ++ typeName) ps, ?_⟩⟩
        simp [entityAt, hps.qualify, htrait]

omit hps in
theorem extractUseDeclaration_relocated : Option.Rel (Twin digest filePath f)
    (extractUseDeclaration digest source filePath n ps)
    (extractUseDeclaration digest source' filePath (relocate f g n) ps') := by
  unfold extractUseDeclaration
  rw [h.nodeText hA hB hwf]
  cases RustSource.nodeText source n with
  | none => exact .none
  | some text =>
    refine .some ⟨rfl, by simp [entityAt], ⟨rfl, rfl⟩, fun hk => absurd (.inr rfl) hk, fun _ =>
      ⟨"use::".toList ++ Text.trim (Text.trimEndMatches ';' (trimStartText "use ".toList text.length text)), ?_⟩⟩
    simp [entityAt]

end Extractors

/-! ## Extraction -/

theorem forall₂_toList {α β : Type} {R : α → β → Prop} {o : Option α} {o' : Option β} (h : Option.Rel R o o') :
    List.Forall₂ R o.toList o'.toList := by
  cases h with
  | none => exact .nil
  | some h => exact .cons h .nil

variable (digest source source' filePath)

mutual

theorem extractEntities_relocated (h : Moves source source' f A B) : ∀ (n : SyntaxNode) (ps ps' : List (Text × Text))
    (b : Bool), A ≤ n.startByte → n.endByte ≤ B → WellFormed n → SameScope ps ps' →
    List.Forall₂ (Twin digest filePath f) (extractEntities digest source filePath n ps b)
      (extractEntities digest source' filePath (relocate f g n) ps' b)
  | .mk kind field s e r₁ r₂ named children, ps, ps', b, hA, hB, hwf, hps => by
    have hin : InOrder s e children := wellFormed_inOrder hwf
    have hbody : ∀ {o o' : Option Entity} (b : Bool), Option.Rel (Twin digest filePath f) o o' →
        List.Forall₂ (Twin digest filePath f)
          (match o with
            | some entity => entity :: extractBody digest source filePath children
                (ps ++ [(entity.id, entity.qualifiedName)]) b
            | none => [])
          (match o' with
            | some entity => entity :: extractBody digest source' filePath (relocateAll f g children)
                (ps' ++ [(entity.id, entity.qualifiedName)]) b
            | none => []) := by
      intro o o' b ho
      cases ho with
      | none => exact .nil
      | some htwin =>
        exact .cons htwin (extractBody_relocated h children _ _ b s e hA hB hin (htwin.sameScope ps ps'))
    have hplain : ∀ {k : EntityKind}, k ≠ .impl → k ≠ .useStatement → ¬ HasOffset k := fun h₁ h₂ hk => hk.elim h₁ h₂
    unfold relocate
    unfold extractEntities
    dsimp only
    by_cases h1 : kind = "function_item".toList
    · rw [if_pos h1, if_pos h1]
      exact forall₂_toList (extractFunction_relocated h hA hB hwf hps b)
    rw [if_neg h1, if_neg h1]
    by_cases h2 : kind = "struct_item".toList
    · rw [if_pos h2, if_pos h2]
      exact forall₂_toList (extractNamedItem_relocated h hA hB hwf hps (hplain (by simp) (by simp)) _)
    rw [if_neg h2, if_neg h2]
    by_cases h3 : kind = "enum_item".toList
    · rw [if_pos h3, if_pos h3]
      exact forall₂_toList (extractNamedItem_relocated h hA hB hwf hps (hplain (by simp) (by simp)) _)
    rw [if_neg h3, if_neg h3]
    by_cases h4 : kind = "trait_item".toList
    · rw [if_pos h4, if_pos h4]
      exact hbody false (extractNamedItem_relocated h hA hB hwf hps (hplain (by simp) (by simp)) _)
    rw [if_neg h4, if_neg h4]
    by_cases h5 : kind = "impl_item".toList
    · rw [if_pos h5, if_pos h5]
      exact hbody true (extractImplItem_relocated h hA hB hwf hps)
    rw [if_neg h5, if_neg h5]
    by_cases h6 : kind = "mod_item".toList
    · rw [if_pos h6, if_pos h6]
      exact hbody false (extractNamedItem_relocated h hA hB hwf hps (hplain (by simp) (by simp)) _)
    rw [if_neg h6, if_neg h6]
    by_cases h7 : kind = "use_declaration".toList
    · rw [if_pos h7, if_pos h7]
      exact forall₂_toList (extractUseDeclaration_relocated h hA hB hwf)
    rw [if_neg h7, if_neg h7]
    by_cases h8 : kind = "source_file".toList
    · rw [if_pos h8, if_pos h8]
      exact extractNamed_relocated h children ps ps' false s e hA hB hin hps
    rw [if_neg h8, if_neg h8]
    exact .nil

theorem extractBody_relocated (h : Moves source source' f A B) : ∀ (l : List SyntaxNode) (ps ps' : List (Text × Text))
    (b : Bool) (lo hi : Nat), A ≤ lo → hi ≤ B → InOrder lo hi l → SameScope ps ps' →
    List.Forall₂ (Twin digest filePath f) (extractBody digest source filePath l ps b)
      (extractBody digest source' filePath (relocateAll f g l) ps' b)
  | [], ps, ps', b, lo, hi, _, _, _, _ => by
    unfold relocateAll extractBody
    exact .nil
  | .mk kind field s e r₁ r₂ named children :: rest, ps, ps', b, lo, hi, hA, hB, hin, hps => by
    unfold InOrder at hin
    obtain ⟨hlo, hhi, hwf, hrest⟩ := hin
    have hse : s ≤ e := le_of_wellFormed hwf
    have hlo' : lo ≤ s := hlo
    unfold relocateAll relocate extractBody
    split
    · exact extractNamed_relocated h children ps ps' b s e (by omega) (le_trans hhi hB) (wellFormed_inOrder hwf) hps
    · exact extractBody_relocated h rest ps ps' b e hi (by omega) hB hrest hps

theorem extractNamed_relocated (h : Moves source source' f A B) : ∀ (l : List SyntaxNode) (ps ps' : List (Text × Text))
    (b : Bool) (lo hi : Nat), A ≤ lo → hi ≤ B → InOrder lo hi l → SameScope ps ps' →
    List.Forall₂ (Twin digest filePath f) (extractNamed digest source filePath l ps b)
      (extractNamed digest source' filePath (relocateAll f g l) ps' b)
  | [], ps, ps', b, lo, hi, _, _, _, _ => by
    unfold relocateAll extractNamed
    exact .nil
  | n :: rest, ps, ps', b, lo, hi, hA, hB, hin, hps => by
    unfold InOrder at hin
    obtain ⟨hlo, hhi, hwf, hrest⟩ := hin
    have hse := le_of_wellFormed hwf
    unfold relocateAll extractNamed
    refine List.rel_append ?_ (extractNamed_relocated h rest ps ps' b n.endByte hi (by omega) hB hrest hps)
    rw [named_relocate]
    split
    · exact extractEntities_relocated h n ps ps' b (by omega) (le_trans hhi hB) hwf hps
    · exact .nil

end

/-- The entities of a file: each under its id, and the offset where there is one. -/
theorem entitiesOf_self {ts : TreeSitter} {es : List Entity} (h : entitiesOf ts digest filePath source = .ok es) {e : Entity}
    (he : e ∈ es) : Twin digest filePath id e e := by
  unfold entitiesOf at h
  split at h
  · rename_i root hroot
    cases h
    obtain ⟨hwf, hlen⟩ := ts.wellFormed source root hroot
    have hmoves : Moves source source id 0 source.length := fun _ _ _ _ _ => rfl
    have htwins := extractEntities_relocated (g := id) digest filePath source source hmoves root [] [] false (Nat.zero_le _)
      hlen hwf rfl
    rw [relocate_id] at htwins
    exact List.forall₂_same.1 htwins e he
  · cases h

end
end RustSource
end Vai
