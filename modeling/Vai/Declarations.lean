import Vai.TsSource
/-!
# Declarations — what a file declares, and what its entities are called

A declaration is known by the names of what it stands in, its own name, and for some kinds the offset at which it starts.
The qualified name of an entity is the label of its declaration (`Reads`): the names of the scope up to their first `@`
and the name, between `::`, and the offset behind `@`.  The label leaves out the kind of the declaration and the offsets
of its scope.
-/
namespace Vai

structure Declaration where
  scope : List Text
  name : Text
  offset : Option Nat
  deriving DecidableEq, Repr

namespace Declaration

open RustSource (qualify)

def beforeAt (t : Text) : Text := t.takeWhile (· ≠ '@')

/-- The names of a scope, each with `::` behind it. -/
def scopeText (scope : List Text) : Text := scope.flatMap fun name => beforeAt name ++ "::".toList

def offsetText : Option Nat → Text
  | some k => '@' :: Text.ofNat k
  | none => []

def label (d : Declaration) : Text := scopeText d.scope ++ d.name ++ offsetText d.offset

/-! ## Labels -/

theorem scopeText_append (scope : List Text) (name : Text) :
    scopeText (scope ++ [name]) = scopeText scope ++ (beforeAt name ++ "::".toList) := by
  unfold scopeText
  rw [List.flatMap_append]
  simp

theorem not_mem_beforeAt (t : Text) : '@' ∉ beforeAt t := fun h => by
  simpa using List.mem_takeWhile_imp h

theorem not_mem_scopeText (scope : List Text) : '@' ∉ scopeText scope := fun h => by
  obtain ⟨name, -, h⟩ := List.mem_flatMap.1 h
  rcases List.mem_append.1 h with h | h
  · exact not_mem_beforeAt name h
  · exact absurd h (by decide)

theorem beforeAt_append {a : Text} (h : '@' ∉ a) (b : Text) : beforeAt (a ++ b) = a ++ beforeAt b :=
  List.takeWhile_append_of_pos fun c hc => decide_eq_true fun he : c = '@' => h (he ▸ hc)

theorem beforeAt_append_offsetText (t : Text) (o : Option Nat) : beforeAt (t ++ offsetText o) = beforeAt t := by
  cases o with
  | none => rw [offsetText, List.append_nil]
  | some k =>
    unfold beforeAt offsetText
    rw [List.takeWhile_append]
    split
    · rename_i h
      rw [List.takeWhile_cons_of_neg (by decide), List.append_nil, (List.takeWhile_prefix _).eq_of_length h]
    · rfl

/-- The offset of a label is what stands behind its last `@`. -/
theorem offset_eq_of_label {a b : Text} {k k' : Nat} (h : a ++ offsetText (some k) = b ++ offsetText (some k')) : k = k' := by
  have hsplit : ∀ (a : Text) (k : Nat),
      Text.splitOnce '@' (a ++ offsetText (some k)).reverse = some ((Text.ofNat k).reverse, a.reverse) := by
    intro a k
    rw [offsetText, List.reverse_append, List.reverse_cons, List.append_assoc]
    exact Text.splitOnce_append _ fun hk => Text.not_mem_ofNat (by decide) k (List.mem_reverse.1 hk)
  have hk := hsplit a k
  rw [h, hsplit b k'] at hk
  simp only [Option.some.injEq, Prod.mk.injEq, List.reverse_inj] at hk
  exact (Text.ofNat_injective hk.1).symm

/-- Names without a colon: neither their number nor their ends are lost between `::`. -/
theorem scopeText_append_inj_iff : ∀ {scope scope' : List Text} {name name' : Text}, (∀ t ∈ scope, ':' ∉ t) →
    (∀ t ∈ scope', ':' ∉ t) → ':' ∉ name → ':' ∉ name' →
    (scopeText scope ++ name = scopeText scope' ++ name' ↔ scope.map beforeAt = scope'.map beforeAt ∧ name = name')
  | [], [], name, name', _, _, _, _ => by simp [scopeText]
  | [], t :: scope', name, name', _, _, hname, _ => by
    refine iff_of_false (fun h => hname ?_) (by simp)
    rw [show name = _ from h, scopeText, List.flatMap_cons]
    simp
  | t :: scope, [], name, name', _, _, _, hname' => by
    refine iff_of_false (fun h => hname' ?_) (by simp)
    rw [show name' = _ from h.symm, scopeText, List.flatMap_cons]
    simp
  | t :: scope, t' :: scope', name, name', hs, hs', hname, hname' => by
    have hcolon : ∀ t : Text, ':' ∉ t → ':' ∉ beforeAt t := fun t ht h => ht ((List.takeWhile_prefix _).subset h)
    have hcons : ∀ (t : Text) (scope : List Text) (name : Text),
        scopeText (t :: scope) ++ name = beforeAt t ++ ':' :: (':' :: (scopeText scope ++ name)) := by
      intro t scope name
      rw [scopeText, List.flatMap_cons, List.append_assoc, List.append_assoc]
      rfl
    have hsplit : ∀ {t : Text} (rest : Text), ':' ∉ t → Text.splitOnce ':' (beforeAt t ++ ':' :: rest) = some (beforeAt t, rest) :=
      fun rest ht => Text.splitOnce_append rest (hcolon _ ht)
    have ih := scopeText_append_inj_iff (List.forall_mem_cons.1 hs).2 (List.forall_mem_cons.1 hs').2 hname hname'
    rw [hcons, hcons, List.map_cons, List.map_cons, List.cons.injEq, and_assoc, ← ih]
    constructor
    · intro h
      have hboth := congrArg (Text.splitOnce ':') h
      rw [hsplit _ (List.forall_mem_cons.1 hs).1, hsplit _ (List.forall_mem_cons.1 hs').1] at hboth
      simpa using hboth
    · rintro ⟨ht, hrest⟩
      rw [ht, hrest]

/-- **What a label tells** of a declaration without an offset: the names around it up to their `@`, and its own. -/
theorem label_eq_iff_of_plain {d d' : Declaration} (h : d.offset = none) (h' : d'.offset = none)
    (hd : ∀ t ∈ d.name :: d.scope, ':' ∉ t) (hd' : ∀ t ∈ d'.name :: d'.scope, ':' ∉ t) :
    d.label = d'.label ↔ d.scope.map beforeAt = d'.scope.map beforeAt ∧ d.name = d'.name := by
  rw [label, label, h, h', offsetText, List.append_nil, List.append_nil]
  exact scopeText_append_inj_iff (List.forall_mem_cons.1 hd).2 (List.forall_mem_cons.1 hd').2 (List.forall_mem_cons.1 hd).1
    (List.forall_mem_cons.1 hd').1

/-! ## Scopes -/

/-- The entity on top of the stack is the innermost of these names. -/
def InScope (parentStack : List (Text × Text)) (scope : List Text) : Prop :=
  match parentStack.getLast? with
  | some (_, pre) => beforeAt pre ++ "::".toList = scopeText scope
  | none => scope = []

theorem inScope_nil : InScope [] [] := rfl

theorem qualify_of_inScope {ps : List (Text × Text)} {scope : List Text} (h : InScope ps scope) (name : Text) :
    qualify name ps = scopeText scope ++ name := by
  unfold InScope at h
  unfold qualify
  cases hlast : ps.getLast? with
  | none =>
    rw [hlast] at h
    rw [h]
    rfl
  | some q =>
    rw [hlast] at h
    rw [← h]
    rfl

theorem inScope_push (ps : List (Text × Text)) (id : Text) (d : Declaration) :
    InScope (ps ++ [(id, d.label)]) (d.scope ++ [d.name]) := by
  unfold InScope
  rw [List.getLast?_concat]
  show beforeAt d.label ++ _ = _
  rw [label, List.append_assoc, beforeAt_append (not_mem_scopeText _), beforeAt_append_offsetText, scopeText_append,
    List.append_assoc]

/-! ## Declarations apart by their offsets -/

/-- No two of them have one offset. -/
def OffsetsApart (ds : List Declaration) : Prop :=
  ds.Pairwise fun d d' => ∀ k, d.offset = some k → d'.offset ≠ some k

/-- Their offsets lie between two places, no two the same. -/
def OffsetsIn (lo hi : Nat) (ds : List Declaration) : Prop :=
  (∀ d ∈ ds, ∀ k, d.offset = some k → lo ≤ k ∧ k < hi) ∧ OffsetsApart ds

theorem offsetsIn_nil (lo hi : Nat) : OffsetsIn lo hi [] := ⟨by simp, List.Pairwise.nil⟩

theorem OffsetsIn.mono {lo hi lo' hi' : Nat} {ds : List Declaration} (h : OffsetsIn lo hi ds) (h1 : lo' ≤ lo) (h2 : hi ≤ hi') :
    OffsetsIn lo' hi' ds :=
  ⟨fun d hd k hk => by have := h.1 d hd k hk; omega, h.2⟩

theorem OffsetsIn.append {lo mid mid' hi : Nat} {ds ds' : List Declaration} (h : OffsetsIn lo mid ds)
    (h' : OffsetsIn mid' hi ds') (hmid : mid ≤ mid') (hlo : lo ≤ mid') (hhi : mid ≤ hi) : OffsetsIn lo hi (ds ++ ds') := by
  refine ⟨fun d hd k hk => ?_, List.pairwise_append.2 ⟨h.2, h'.2, fun d hd d' hd' k hk hk' => ?_⟩⟩
  · rcases List.mem_append.1 hd with hd | hd
    · have := h.1 d hd k hk
      omega
    · have := h'.1 d hd k hk
      omega
  · have := h.1 d hd k hk
    have := h'.1 d' hd' k hk'
    omega

theorem offsetsIn_of_none {ds : List Declaration} (h : ∀ d ∈ ds, d.offset = none) (lo hi : Nat) : OffsetsIn lo hi ds := by
  refine ⟨fun d hd k hk => ?_, List.pairwise_of_forall_mem_list fun d hd d' _ k hk => ?_⟩
  · rw [h d hd] at hk
    cases hk
  · rw [h d hd] at hk
    cases hk

theorem OffsetsIn.cons_none {lo hi : Nat} {d : Declaration} {ds : List Declaration} (h : OffsetsIn lo hi ds)
    (hd : d.offset = none) : OffsetsIn lo hi (d :: ds) := by
  refine ⟨fun d' hd' k hk => ?_, List.pairwise_cons.2 ⟨fun d' _ k hk => ?_, h.2⟩⟩
  · rcases List.mem_cons.1 hd' with rfl | hd'
    · rw [hd] at hk
      cases hk
    · exact h.1 d' hd' k hk
  · rw [hd] at hk
    cases hk

/-- What stands at the first place, after what starts behind it. -/
theorem OffsetsIn.concat {lo hi : Nat} {d : Declaration} {ds : List Declaration} (h : OffsetsIn (lo + 1) hi ds)
    (hd : d.offset = some lo) (hlt : lo < hi) : OffsetsIn lo hi (ds ++ [d]) := by
  refine ⟨fun d' hd' k hk => ?_, List.pairwise_append.2 ⟨h.2, List.pairwise_singleton _ _, fun d' hd' x hx k hk hk' => ?_⟩⟩
  · rcases List.mem_append.1 hd' with hd' | hd'
    · have := h.1 d' hd' k hk
      omega
    · rw [List.mem_singleton.1 hd', hd, Option.some_inj] at hk
      omega
  · rw [List.mem_singleton.1 hx, hd, Option.some_inj] at hk'
    have := h.1 d' hd' k hk
    omega

/-- Of any two that have one label, both have an offset. -/
def DeclaredOnce (ds : List Declaration) : Prop :=
  ds.Pairwise fun d d' => d.label = d'.label → d.offset.isSome ∧ d'.offset.isSome

instance (ds : List Declaration) : Decidable (DeclaredOnce ds) := inferInstanceAs (Decidable (ds.Pairwise _))

/-- **Labels are distinct** exactly when everything without an offset is declared once. -/
theorem nodup_label_iff {ds : List Declaration} (h : OffsetsApart ds) : (ds.map label).Nodup ↔ DeclaredOnce ds := by
  unfold DeclaredOnce List.Nodup
  rw [List.pairwise_map]
  constructor
  · intro hnodup
    exact hnodup.imp fun hne he => absurd he hne
  · intro honce
    refine (h.and honce).imp ?_
    rintro ⟨scope, name, o⟩ ⟨scope', name', o'⟩ ⟨hne, hsome⟩ he
    obtain ⟨ho, ho'⟩ := hsome he
    obtain ⟨k, rfl⟩ := Option.isSome_iff_exists.1 ho
    obtain ⟨k', rfl⟩ := Option.isSome_iff_exists.1 ho'
    obtain rfl : k = k' := offset_eq_of_label he
    exact hne k rfl rfl

/-- The entity of a declaration. -/
structure Reads (digest : Bytes → Text) (filePath : Path) (e : Entity) (d : Declaration) : Prop where
  id : e.id = RustSource.computeId digest filePath d.label
  qualifiedName : e.qualifiedName = d.label
  filePath : e.filePath = filePath
  offset : ∀ k, d.offset = some k → e.byteRange.1 = k

theorem reads_entityAt {digest : Bytes → Text} {filePath : Path} {n : SyntaxNode} (kind : EntityKind) (name : Text)
    {qualifiedName : Text} (ps : List (Text × Text)) {d : Declaration} (hlabel : qualifiedName = d.label)
    (hoffset : ∀ k, d.offset = some k → n.startByte = k) :
    Reads digest filePath (RustSource.entityAt digest filePath n kind name qualifiedName ps) d := by
  subst hlabel
  exact ⟨rfl, rfl, rfl, hoffset⟩

theorem Reads.inScope {digest : Bytes → Text} {filePath : Path} {e : Entity} {d : Declaration} (h : Reads digest filePath e d)
    (ps : List (Text × Text)) : InScope (ps ++ [(e.id, e.qualifiedName)]) (d.scope ++ [d.name]) := by
  rw [h.qualifiedName]
  exact inScope_push ps e.id d

theorem offsetsApart_of_reads {digest : Bytes → Text} {filePath : Path} {es : List Entity} {ds : List Declaration}
    (h : List.Forall₂ (Reads digest filePath) es ds) (hes : es.Pairwise fun a b => a.byteRange.1 < b.byteRange.1) :
    OffsetsApart ds := by
  unfold OffsetsApart
  rw [List.pairwise_iff_getElem] at hes ⊢
  intro i j hi hj hij k hk hk'
  have hlen : es.length = ds.length := h.length_eq
  have hi' : i < es.length := by omega
  have hj' : j < es.length := by omega
  have hlt := hes i j hi' hj' hij
  have h1 : es[i].byteRange.1 = k := (h.get hi' hi).offset k hk
  have h2 : es[j].byteRange.1 = k := (h.get hj' hj).offset k hk'
  omega

end Declaration

/-! ## Rust -/

namespace RustSource

open Declaration

section

variable (source : Bytes)

def nameOf (n : SyntaxNode) : Option Text := (n.childByFieldName "name".toList).bind (nodeText source)

/-- A name that is a node of this kind. -/
def nameOfKind (kind : Text) (n : SyntaxNode) : Option Text :=
  (n.childByFieldName "name".toList).bind fun nameNode => if nameNode.kind = kind then nodeText source nameNode else none

/-- `Foo`, or `Bar for Foo`. -/
def implName (n : SyntaxNode) : Option Text :=
  ((n.childByFieldName "type".toList).bind (nodeText source)).map fun typeName =>
    match n.childByFieldName "trait".toList with
    | some traitNode => (nodeText source traitNode).getD [] ++ " for ".toList ++ typeName
    | none => typeName

/-- What is used. -/
def usedName (n : SyntaxNode) : Option Text :=
  (nodeText source n).map fun text => Text.trim (Text.trimEndMatches ';' (trimStartText "use ".toList text.length text))

/-- What an item declares in a scope. -/
def declares (n : SyntaxNode) (scope : List Text) : Option Declaration :=
  if n.kind = "function_item".toList then (nameOf source n).map fun name => ⟨scope, name, none⟩
  else if n.kind ∈ ["struct_item", "enum_item", "trait_item"].map String.toList then
    (nameOfKind source "type_identifier".toList n).map fun name => ⟨scope, name, none⟩
  else if n.kind = "mod_item".toList then
    (nameOfKind source "identifier".toList n).map fun name => ⟨scope, name, none⟩
  else if n.kind = "impl_item".toList then (implName source n).map fun name => ⟨scope, name, some n.startByte⟩
  else if n.kind = "use_declaration".toList then
    (usedName source n).map fun name => ⟨["use".toList], name, some n.startByte⟩
  else none

/-- The items with a body. -/
def scopeKinds : List Text := ["trait_item", "impl_item", "mod_item"].map String.toList

mutual

/-- An item, and what is declared in its body under its name. -/
def declarations : SyntaxNode → List Text → List Declaration
  | .mk kind field s e r₁ r₂ named children, scope =>
    match declares source (.mk kind field s e r₁ r₂ named children) scope with
    | some d => d :: if kind ∈ scopeKinds then bodyDeclarations children (scope ++ [d.name]) else []
    | none => if kind = "source_file".toList then childDeclarations children scope else []

def bodyDeclarations : List SyntaxNode → List Text → List Declaration
  | [], _ => []
  | .mk _ field _ _ _ _ _ children :: rest, scope =>
    if field = some "body".toList then childDeclarations children scope else bodyDeclarations rest scope

def childDeclarations : List SyntaxNode → List Text → List Declaration
  | [], _ => []
  | n :: rest, scope => (if n.named then declarations n scope else []) ++ childDeclarations rest scope

end

end

section

variable {digest : Bytes → Text} {source : Bytes} {filePath : Path} {ps : List (Text × Text)}

theorem extractFunction_eq (n : SyntaxNode) (b : Bool) :
    extractFunction digest source filePath n ps b = (nameOf source n).map fun name =>
      entityAt digest filePath n (if b then .method else .function) name (qualify name ps) ps := by
  unfold extractFunction nameOf
  cases n.childByFieldName "name".toList with
  | none => rfl
  | some nameNode => cases h : nodeText source nameNode <;> simp [h]

theorem extractNamedItem_eq (n : SyntaxNode) (k : EntityKind) (kind : Text) :
    extractNamedItem digest source filePath n ps k [kind] = (nameOfKind source kind n).map fun name =>
      entityAt digest filePath n k name (qualify name ps) ps := by
  unfold extractNamedItem nameOfKind
  cases n.childByFieldName "name".toList with
  | none => rfl
  | some nameNode =>
    by_cases hk : nameNode.kind = kind
    · cases h : nodeText source nameNode <;> simp [hk, h]
    · simp [hk]

theorem extractImplItem_eq (n : SyntaxNode) :
    extractImplItem digest source filePath n ps = (implName source n).map fun name =>
      entityAt digest filePath n .impl name (qualify name ps ++ ['@'] ++ Text.ofNat n.startByte) ps := by
  unfold extractImplItem implName
  cases n.childByFieldName "type".toList with
  | none => rfl
  | some typeNode =>
    generalize n.childByFieldName "trait".toList = traitNode
    cases h : nodeText source typeNode <;> cases traitNode <;> simp [h]

theorem extractUseDeclaration_eq (n : SyntaxNode) :
    extractUseDeclaration digest source filePath n ps = (usedName source n).map fun name =>
      entityAt digest filePath n .useStatement name ("use::".toList ++ name ++ ['@'] ++ Text.ofNat n.startByte) ps := by
  unfold extractUseDeclaration usedName
  cases nodeText source n <;> rfl

theorem reads_toList {o : Option Text} {entity : Text → Entity} {d : Text → Declaration}
    (h : ∀ name, Reads digest filePath (entity name) (d name)) :
    List.Forall₂ (Reads digest filePath) (o.map entity).toList (o.map d).toList := by
  cases o with
  | none => exact List.Forall₂.nil
  | some name => exact List.Forall₂.cons (h name) List.Forall₂.nil

theorem reads_scope {o : Option Text} {entity : Text → Entity} {d : Text → Declaration} {body : Entity → List Entity}
    {bodyDs : Declaration → List Declaration} (h : ∀ name, Reads digest filePath (entity name) (d name))
    (hbody : ∀ name, Reads digest filePath (entity name) (d name) →
      List.Forall₂ (Reads digest filePath) (body (entity name)) (bodyDs (d name))) :
    List.Forall₂ (Reads digest filePath)
      (match o.map entity with
        | some e => e :: body e
        | none => [])
      ((o.map d).elim [] fun d => d :: bodyDs d) := by
  cases o with
  | none => exact List.Forall₂.nil
  | some name => exact List.Forall₂.cons (h name) (hbody name (h name))

theorem reads_named {scope : List Text} (h : InScope ps scope) (n : SyntaxNode) (kind : EntityKind) (name : Text) :
    Reads digest filePath (entityAt digest filePath n kind name (qualify name ps) ps) ⟨scope, name, none⟩ :=
  reads_entityAt kind name ps (by rw [qualify_of_inScope h, label, offsetText, List.append_nil]) fun k hk => nomatch hk

theorem reads_impl {scope : List Text} (h : InScope ps scope) (n : SyntaxNode) (name : Text) :
    Reads digest filePath
      (entityAt digest filePath n .impl name (qualify name ps ++ ['@'] ++ Text.ofNat n.startByte) ps)
      ⟨scope, name, some n.startByte⟩ := by
  refine reads_entityAt .impl name ps ?_ fun k hk => Option.some_inj.1 hk
  rw [qualify_of_inScope h, List.append_assoc]
  rfl

theorem reads_use (n : SyntaxNode) (name : Text) :
    Reads digest filePath
      (entityAt digest filePath n .useStatement name ("use::".toList ++ name ++ ['@'] ++ Text.ofNat n.startByte) ps)
      ⟨["use".toList], name, some n.startByte⟩ := by
  refine reads_entityAt .useStatement name ps ?_ fun k hk => Option.some_inj.1 hk
  rw [List.append_assoc]
  rfl

variable {kind : Text} {field : Option Text} {s e r₁ r₂ : Nat} {named : Bool} {children : List SyntaxNode} {scope : List Text}
  {o : Option Declaration}

theorem declarations_leaf (hd : declares source (.mk kind field s e r₁ r₂ named children) scope = o) (hk : kind ∉ scopeKinds)
    (hroot : kind ≠ "source_file".toList) :
    declarations source (.mk kind field s e r₁ r₂ named children) scope = o.toList := by
  unfold declarations
  rw [hd]
  cases o with
  | none => exact if_neg hroot
  | some d =>
    dsimp only [Option.toList_some]
    rw [if_neg hk]

theorem declarations_scope (hd : declares source (.mk kind field s e r₁ r₂ named children) scope = o) (hk : kind ∈ scopeKinds) :
    declarations source (.mk kind field s e r₁ r₂ named children) scope =
      o.elim [] fun d => d :: bodyDeclarations source children (scope ++ [d.name]) := by
  unfold declarations
  rw [hd]
  cases o with
  | none =>
    refine if_neg ?_
    rintro rfl
    exact absurd hk (by decide)
  | some d =>
    dsimp only [Option.elim_some]
    rw [if_pos hk]

theorem declares_other {n : SyntaxNode} (h1 : n.kind ≠ "function_item".toList)
    (h2 : n.kind ∉ ["struct_item", "enum_item", "trait_item"].map String.toList) (h3 : n.kind ≠ "mod_item".toList)
    (h4 : n.kind ≠ "impl_item".toList) (h5 : n.kind ≠ "use_declaration".toList) : declares source n scope = none := by
  unfold declares
  rw [if_neg h1, if_neg h2, if_neg h3, if_neg h4, if_neg h5]

theorem declarations_root :
    declarations source (.mk "source_file".toList field s e r₁ r₂ named children) scope =
      childDeclarations source children scope := by
  unfold declarations
  rfl

end

variable (digest : Bytes → Text) (source : Bytes) (filePath : Path)

mutual

/-- The entities of a node are its declarations, in their order. -/
theorem extractEntities_reads : ∀ (n : SyntaxNode) {ps : List (Text × Text)} {scope : List Text} (b : Bool), InScope ps scope →
    List.Forall₂ (Reads digest filePath) (extractEntities digest source filePath n ps b) (declarations source n scope)
  | .mk kind field s e r₁ r₂ named children, ps, scope, b, hps => by
    unfold extractEntities
    dsimp only
    by_cases h1 : kind = "function_item".toList
    · rw [if_pos h1]
      subst h1
      rw [extractFunction_eq, declarations_leaf rfl (by decide) (by decide)]
      exact reads_toList fun name => reads_named hps _ _ name
    rw [if_neg h1]
    by_cases h2 : kind = "struct_item".toList
    · rw [if_pos h2]
      subst h2
      rw [extractNamedItem_eq, declarations_leaf rfl (by decide) (by decide)]
      exact reads_toList fun name => reads_named hps _ _ name
    rw [if_neg h2]
    by_cases h3 : kind = "enum_item".toList
    · rw [if_pos h3]
      subst h3
      rw [extractNamedItem_eq, declarations_leaf rfl (by decide) (by decide)]
      exact reads_toList fun name => reads_named hps _ _ name
    rw [if_neg h3]
    by_cases h4 : kind = "trait_item".toList
    · rw [if_pos h4]
      subst h4
      rw [extractNamedItem_eq, declarations_scope rfl (by decide)]
      exact reads_scope (fun name => reads_named hps _ _ name) fun name hr => extractBody_reads children false (hr.inScope ps)
    rw [if_neg h4]
    by_cases h5 : kind = "impl_item".toList
    · rw [if_pos h5]
      subst h5
      rw [extractImplItem_eq, declarations_scope rfl (by decide)]
      exact reads_scope (fun name => reads_impl hps _ name) fun name hr => extractBody_reads children true (hr.inScope ps)
    rw [if_neg h5]
    by_cases h6 : kind = "mod_item".toList
    · rw [if_pos h6]
      subst h6
      rw [extractNamedItem_eq, declarations_scope rfl (by decide)]
      exact reads_scope (fun name => reads_named hps _ _ name) fun name hr => extractBody_reads children false (hr.inScope ps)
    rw [if_neg h6]
    by_cases h7 : kind = "use_declaration".toList
    · rw [if_pos h7]
      subst h7
      rw [extractUseDeclaration_eq, declarations_leaf rfl (by decide) (by decide)]
      exact reads_toList fun name => reads_use _ name
    rw [if_neg h7]
    by_cases h8 : kind = "source_file".toList
    · rw [if_pos h8]
      subst h8
      rw [declarations_root]
      exact extractNamed_reads children false hps
    rw [if_neg h8]
    have hnamed : kind ∉ ["struct_item", "enum_item", "trait_item"].map String.toList := by
      simp only [List.map_cons, List.map_nil, List.mem_cons, List.not_mem_nil, or_false, not_or]
      exact ⟨h2, h3, h4⟩
    have hscope : kind ∉ scopeKinds := by
      simp only [scopeKinds, List.map_cons, List.map_nil, List.mem_cons, List.not_mem_nil, or_false, not_or]
      exact ⟨h4, h5, h6⟩
    have hd : declares source (.mk kind field s e r₁ r₂ named children) scope = none :=
      declares_other h1 hnamed h6 h5 h7
    rw [declarations_leaf hd hscope h8]
    exact List.Forall₂.nil

theorem extractBody_reads : ∀ (l : List SyntaxNode) {ps : List (Text × Text)} {scope : List Text} (b : Bool), InScope ps scope →
    List.Forall₂ (Reads digest filePath) (extractBody digest source filePath l ps b) (bodyDeclarations source l scope)
  | [], ps, scope, b, _ => by
    unfold extractBody bodyDeclarations
    exact List.Forall₂.nil
  | .mk kind field s e r₁ r₂ named children :: rest, ps, scope, b, hps => by
    unfold extractBody bodyDeclarations
    split
    · exact extractNamed_reads children b hps
    · exact extractBody_reads rest b hps

theorem extractNamed_reads : ∀ (l : List SyntaxNode) {ps : List (Text × Text)} {scope : List Text} (b : Bool), InScope ps scope →
    List.Forall₂ (Reads digest filePath) (extractNamed digest source filePath l ps b) (childDeclarations source l scope)
  | [], ps, scope, b, _ => by
    unfold extractNamed childDeclarations
    exact List.Forall₂.nil
  | n :: rest, ps, scope, b, hps => by
    unfold extractNamed childDeclarations
    refine List.rel_append ?_ (extractNamed_reads rest b hps)
    split
    · exact extractEntities_reads n b hps
    · exact List.Forall₂.nil

end

/-- No two impl blocks or use declarations of a tree start together. -/
theorem offsetsApart_declarations {n : SyntaxNode} (hwf : WellFormed n) : OffsetsApart (declarations source n []) :=
  have hspans := extractEntities_spans (fun _ => []) source [] n [] false hwf
  offsetsApart_of_reads (extractEntities_reads (fun _ => []) source [] n false inScope_nil) (hspans.2.imp And.left)

end RustSource

/-! ## TypeScript -/

namespace TsSource

open Declaration
open RustSource (nodeText nameOf qualify entityAt reads_named reads_toList)

section

variable (source : Bytes)

/-- The name of a variable that is a function. -/
def declaratorName (n : SyntaxNode) : Option Text :=
  (nameOf source n).bind fun name => (n.childByFieldName "value".toList).bind fun valueNode =>
    if valueNode.kind ∈ ["arrow_function".toList, "function_expression".toList] then some name else none

/-- The declarations with a name of their own and no body that is read. -/
def memberKinds : List Text :=
  ["method_definition", "interface_declaration", "type_alias_declaration", "enum_declaration"].map String.toList

def variableKinds : List Text := ["lexical_declaration".toList, "variable_declaration".toList]

/-- What a declaration or a statement declares in a scope. -/
def declares (n : SyntaxNode) (scope : List Text) : Option Declaration :=
  if n.kind ∈ scopeKinds ++ memberKinds then (nameOf source n).map fun name => ⟨scope, name, none⟩
  else if n.kind = "import_statement".toList then
    (nodeText source n).map fun _ => ⟨[], "import".toList, some n.startByte⟩
  else if n.kind = "export_statement".toList then
    (nodeText source n).map fun _ => ⟨[], "export".toList, some n.startByte⟩
  else none

/-- The functions that a declaration of variables declares. -/
def variableDeclarations (children : List SyntaxNode) (scope : List Text) : List Declaration :=
  (children.filter (fun child => child.named ∧ child.kind = "variable_declarator".toList)).filterMap fun child =>
    (declaratorName source child).map fun name => ⟨scope, name, none⟩

mutual

/-- The body of a function or class is read under its name; a node that is no declaration is read through. -/
def declarations : SyntaxNode → List Text → List Declaration
  | .mk kind field s e r₁ r₂ named children, scope =>
    let d := declares source (.mk kind field s e r₁ r₂ named children) scope
    if kind ∈ scopeKinds then d.elim [] fun d => d :: bodyDeclarations children (scope ++ [d.name])
    else if kind ∈ variableKinds then variableDeclarations source children scope
    else if kind ∈ "import_statement".toList :: memberKinds then d.toList
    else if kind = "export_statement".toList then exportedDeclarations children scope ++ d.toList
    else childDeclarations children scope

def bodyDeclarations : List SyntaxNode → List Text → List Declaration
  | [], _ => []
  | .mk _ field _ _ _ _ _ children :: rest, scope =>
    if field = some "body".toList then childDeclarations children scope else bodyDeclarations rest scope

def exportedDeclarations : List SyntaxNode → List Text → List Declaration
  | [], _ => []
  | n :: rest, scope =>
    (if n.named ∧ n.kind ∈ exportedKinds then declarations n scope else []) ++ exportedDeclarations rest scope

def childDeclarations : List SyntaxNode → List Text → List Declaration
  | [], _ => []
  | n :: rest, scope => (if n.named then declarations n scope else []) ++ childDeclarations rest scope

end

end

section

variable {digest : Bytes → Text} {isUppercase : Char → Bool} {source : Bytes} {filePath : Path} {ps : List (Text × Text)}

theorem extractDeclared_eq (n : SyntaxNode) (kind : Text → EntityKind) :
    extractDeclared digest source filePath n ps kind = (nameOf source n).map fun name =>
      entityAt digest filePath n (kind name) name (qualify name ps) ps := by
  unfold extractDeclared nameOf
  cases n.childByFieldName "name".toList with
  | none => rfl
  | some nameNode => cases h : nodeText source nameNode <;> simp [h]

theorem extractStatement_eq (n : SyntaxNode) (kind : EntityKind) (word : Text) (summary : Text → Text) :
    extractStatement digest source filePath n ps kind word summary = (nodeText source n).map fun text =>
      entityAt digest filePath n kind (summary text) (word ++ ['@'] ++ Text.ofNat n.startByte) ps := by
  unfold extractStatement
  cases nodeText source n <;> rfl

theorem reads_statement (n : SyntaxNode) (kind : EntityKind) (word name : Text) :
    Reads digest filePath (entityAt digest filePath n kind name (word ++ ['@'] ++ Text.ofNat n.startByte) ps)
      ⟨[], word, some n.startByte⟩ := by
  refine reads_entityAt kind name ps ?_ fun k hk => Option.some_inj.1 hk
  rw [List.append_assoc]
  rfl

theorem reads_declarator {scope : List Text} (h : InScope ps scope) (n : SyntaxNode) :
    Option.Rel (Reads digest filePath) (extractTsVariableDeclarator digest isUppercase source filePath n ps)
      ((declaratorName source n).map fun name => ⟨scope, name, none⟩) := by
  unfold extractTsVariableDeclarator declaratorName nameOf
  generalize nodeText source = text
  cases n.childByFieldName "name".toList with
  | none => exact Option.Rel.none
  | some nameNode =>
    show Option.Rel _ (text nameNode >>= _) (Option.map _ ((text nameNode).bind _))
    cases text nameNode with
    | none => exact Option.Rel.none
    | some name =>
      cases n.childByFieldName "value".toList with
      | none => exact Option.Rel.none
      | some valueNode =>
        show Option.Rel _ (if valueNode.kind ∈ _ then some _ else none) (Option.map _ (if valueNode.kind ∈ _ then some name else none))
        split
        · exact Option.Rel.some (reads_named h n _ name)
        · exact Option.Rel.none

theorem reads_declarators {scope : List Text} (h : InScope ps scope) (children : List SyntaxNode) :
    List.Forall₂ (Reads digest filePath)
      ((extractDeclarators digest isUppercase source filePath children ps).map Prod.fst) (variableDeclarations source children scope) := by
  unfold extractDeclarators variableDeclarations
  rw [List.map_map]
  have hfst : Prod.fst ∘ contained digest ps = id := rfl
  rw [hfst, List.map_id]
  refine List.rel_filterMap (R := Eq) ?_ (List.forall₂_refl _)
  rintro n - rfl
  exact reads_declarator h n

theorem map_fst_leaf (o : Option Entity) : ((o.map (contained digest ps)).toList).map Prod.fst = o.toList := by
  cases o <;> rfl

variable {kind : Text} {field : Option Text} {s e r₁ r₂ : Nat} {named : Bool} {children : List SyntaxNode} {scope : List Text}
  {o : Option Declaration}

theorem declarations_scope (hd : declares source (.mk kind field s e r₁ r₂ named children) scope = o) (hk : kind ∈ scopeKinds) :
    declarations source (.mk kind field s e r₁ r₂ named children) scope =
      o.elim [] fun d => d :: bodyDeclarations source children (scope ++ [d.name]) := by
  unfold declarations
  dsimp only
  rw [hd, if_pos hk]

theorem declares_named (h : kind ∈ scopeKinds ++ memberKinds) :
    declares source (.mk kind field s e r₁ r₂ named children) scope =
      (nameOf source (.mk kind field s e r₁ r₂ named children)).map fun name => ⟨scope, name, none⟩ := if_pos h

theorem declarations_variables (h : kind ∉ scopeKinds) (hk : kind ∈ variableKinds) :
    declarations source (.mk kind field s e r₁ r₂ named children) scope = variableDeclarations source children scope := by
  unfold declarations
  dsimp only
  rw [if_neg h, if_pos hk]

theorem declarations_leaf (hd : declares source (.mk kind field s e r₁ r₂ named children) scope = o)
    (h : kind ∉ scopeKinds ++ variableKinds) (hk : kind ∈ "import_statement".toList :: memberKinds) :
    declarations source (.mk kind field s e r₁ r₂ named children) scope = o.toList := by
  rw [List.mem_append, not_or] at h
  unfold declarations
  dsimp only
  rw [hd, if_neg h.1, if_neg h.2, if_pos hk]

theorem declarations_export (hd : declares source (.mk "export_statement".toList field s e r₁ r₂ named children) scope = o) :
    declarations source (.mk "export_statement".toList field s e r₁ r₂ named children) scope =
      exportedDeclarations source children scope ++ o.toList := by
  unfold declarations
  dsimp only
  rw [hd, if_neg (by decide), if_neg (by decide), if_neg (by decide), if_pos rfl]

theorem declarations_other (h : kind ∉ scopeKinds ++ variableKinds) (h' : kind ∉ "import_statement".toList :: memberKinds)
    (hk : kind ≠ "export_statement".toList) :
    declarations source (.mk kind field s e r₁ r₂ named children) scope = childDeclarations source children scope := by
  rw [List.mem_append, not_or] at h
  unfold declarations
  dsimp only
  rw [if_neg h.1, if_neg h.2, if_neg h', if_neg hk]

end

variable (digest : Bytes → Text) (isUppercase : Char → Bool) (source : Bytes) (filePath : Path)

mutual

/-- The entities of a node are its declarations, in their order. -/
theorem extractTsEntities_reads : ∀ (n : SyntaxNode) {ps : List (Text × Text)} {scope : List Text}, InScope ps scope →
    List.Forall₂ (Reads digest filePath) ((extractTsEntities digest isUppercase source filePath n ps).map Prod.fst)
      (declarations source n scope)
  | .mk kind field s e r₁ r₂ named children, ps, scope, hps => by
    unfold extractTsEntities
    dsimp only
    by_cases h1 : kind = "program".toList
    · rw [if_pos h1]
      subst h1
      rw [declarations_other (by decide) (by decide) (by decide)]
      exact extractChildren_reads children hps
    rw [if_neg h1]
    by_cases h2 : kind = "function_declaration".toList
    · rw [if_pos h2]
      subst h2
      rw [extractTsFunction, extractDeclared_eq, declarations_scope (declares_named (by decide)) (by decide)]
      generalize nameOf source (.mk "function_declaration".toList field s e r₁ r₂ named children) = o
      cases o with
      | none => exact List.Forall₂.nil
      | some name =>
        have hr : Reads digest filePath _ ⟨scope, name, none⟩ := reads_named hps
          (.mk "function_declaration".toList field s e r₁ r₂ named children)
          (tsFunctionKind isUppercase name (.mk "function_declaration".toList field s e r₁ r₂ named children)) name
        exact List.Forall₂.cons hr (extractBody_reads children (hr.inScope ps))
    rw [if_neg h2]
    by_cases h3 : kind ∈ ["lexical_declaration".toList, "variable_declaration".toList]
    · rw [if_pos h3]
      rw [declarations_variables _ h3]
      · exact reads_declarators hps children
      · simp only [List.mem_cons, List.not_mem_nil, or_false] at h3
        rcases h3 with rfl | rfl <;> decide
    rw [if_neg h3]
    by_cases h4 : kind = "class_declaration".toList
    · rw [if_pos h4]
      subst h4
      rw [extractTsClass, extractDeclared_eq, declarations_scope (declares_named (by decide)) (by decide)]
      generalize nameOf source (.mk "class_declaration".toList field s e r₁ r₂ named children) = o
      cases o with
      | none => exact List.Forall₂.nil
      | some name =>
        have hr : Reads digest filePath _ ⟨scope, name, none⟩ := reads_named hps
          (.mk "class_declaration".toList field s e r₁ r₂ named children) .classItem name
        exact List.Forall₂.cons hr (extractBody_reads children (hr.inScope ps))
    rw [if_neg h4]
    by_cases h5 : kind = "method_definition".toList
    · rw [if_pos h5]
      subst h5
      rw [extractTsMethod, extractDeclared_eq, declarations_leaf rfl (by decide) (by decide), map_fst_leaf]
      exact reads_toList fun name => reads_named hps _ _ name
    rw [if_neg h5]
    by_cases h6 : kind = "interface_declaration".toList
    · rw [if_pos h6]
      subst h6
      rw [extractTsNamed, extractDeclared_eq, declarations_leaf rfl (by decide) (by decide), map_fst_leaf]
      exact reads_toList fun name => reads_named hps _ _ name
    rw [if_neg h6]
    by_cases h7 : kind = "type_alias_declaration".toList
    · rw [if_pos h7]
      subst h7
      rw [extractTsNamed, extractDeclared_eq, declarations_leaf rfl (by decide) (by decide), map_fst_leaf]
      exact reads_toList fun name => reads_named hps _ _ name
    rw [if_neg h7]
    by_cases h8 : kind = "enum_declaration".toList
    · rw [if_pos h8]
      subst h8
      rw [extractTsNamed, extractDeclared_eq, declarations_leaf rfl (by decide) (by decide), map_fst_leaf]
      exact reads_toList fun name => reads_named hps _ _ name
    rw [if_neg h8]
    by_cases h9 : kind = "import_statement".toList
    · rw [if_pos h9]
      subst h9
      rw [extractTsImport, extractStatement_eq, declarations_leaf rfl (by decide) (by decide), map_fst_leaf]
      exact reads_toList fun text => reads_statement _ _ _ _
    rw [if_neg h9]
    by_cases h10 : kind = "export_statement".toList
    · rw [if_pos h10]
      subst h10
      rw [extractTsExport, extractStatement_eq, declarations_export rfl, List.map_append, map_fst_leaf]
      exact List.rel_append (extractExported_reads children hps) (reads_toList fun text => reads_statement _ _ _ _)
    rw [if_neg h10]
    have hscope : kind ∉ scopeKinds ++ variableKinds := by
      rw [List.mem_append, not_or]
      refine ⟨?_, h3⟩
      simp only [scopeKinds, List.mem_cons, List.not_mem_nil, or_false, not_or]
      exact ⟨h2, h4⟩
    have hleaf : kind ∉ "import_statement".toList :: memberKinds := by
      simp only [memberKinds, List.map_cons, List.map_nil, List.mem_cons, List.not_mem_nil, or_false, not_or]
      exact ⟨h9, h5, h6, h7, h8⟩
    rw [declarations_other hscope hleaf h10]
    exact extractChildren_reads children hps

theorem extractBody_reads : ∀ (l : List SyntaxNode) {ps : List (Text × Text)} {scope : List Text}, InScope ps scope →
    List.Forall₂ (Reads digest filePath) ((extractBody digest isUppercase source filePath l ps).map Prod.fst)
      (bodyDeclarations source l scope)
  | [], ps, scope, _ => by
    unfold extractBody bodyDeclarations
    exact List.Forall₂.nil
  | .mk kind field s e r₁ r₂ named children :: rest, ps, scope, hps => by
    unfold extractBody bodyDeclarations
    split
    · exact extractChildren_reads children hps
    · exact extractBody_reads rest hps

theorem extractExported_reads : ∀ (l : List SyntaxNode) {ps : List (Text × Text)} {scope : List Text}, InScope ps scope →
    List.Forall₂ (Reads digest filePath) ((extractExported digest isUppercase source filePath l ps).map Prod.fst)
      (exportedDeclarations source l scope)
  | [], ps, scope, _ => by
    unfold extractExported exportedDeclarations
    exact List.Forall₂.nil
  | n :: rest, ps, scope, hps => by
    unfold extractExported exportedDeclarations
    rw [List.map_append]
    refine List.rel_append ?_ (extractExported_reads rest hps)
    split
    · exact extractTsEntities_reads n hps
    · exact List.Forall₂.nil

theorem extractChildren_reads : ∀ (l : List SyntaxNode) {ps : List (Text × Text)} {scope : List Text}, InScope ps scope →
    List.Forall₂ (Reads digest filePath) ((extractChildren digest isUppercase source filePath l ps).map Prod.fst)
      (childDeclarations source l scope)
  | [], ps, scope, _ => by
    unfold extractChildren childDeclarations
    exact List.Forall₂.nil
  | n :: rest, ps, scope, hps => by
    unfold extractChildren childDeclarations
    rw [List.map_append]
    refine List.rel_append ?_ (extractChildren_reads rest hps)
    split
    · exact extractTsEntities_reads n hps
    · exact List.Forall₂.nil

end

/-! ## The offsets of statements -/

theorem offsetsIn_named (o : Option Text) (scope : List Text) (lo hi : Nat) :
    OffsetsIn lo hi (o.map fun name => (⟨scope, name, none⟩ : Declaration)).toList := by
  refine offsetsIn_of_none (fun d hd => ?_) lo hi
  obtain ⟨name, -, rfl⟩ := Option.map_eq_some_iff.1 (Option.mem_toList.1 hd)
  rfl

theorem offsetsIn_variableDeclarations (children : List SyntaxNode) (scope : List Text) (lo hi : Nat) :
    OffsetsIn lo hi (variableDeclarations source children scope) := by
  refine offsetsIn_of_none (fun d hd => ?_) lo hi
  obtain ⟨n, -, hn⟩ := List.mem_filterMap.1 hd
  obtain ⟨name, -, rfl⟩ := Option.map_eq_some_iff.1 hn
  rfl

theorem offsetsIn_statement {lo hi : Nat} (o : Option Text) (word : Text) {ds : List Declaration} (h : OffsetsIn (lo + 1) hi ds)
    (hlt : lo < hi) : OffsetsIn lo hi (ds ++ (o.map fun _ => (⟨[], word, some lo⟩ : Declaration)).toList) := by
  cases o with
  | none =>
    rw [Option.map_none, Option.toList_none, List.append_nil]
    exact h.mono (Nat.le_succ lo) le_rfl
  | some t => exact h.concat rfl hlt

theorem exportedKinds_declare : ∀ k ∈ exportedKinds, k ∈ scopeKinds ++ variableKinds ∨ k ∈ memberKinds := by decide

theorem offsetsIn_scope {lo hi : Nat} (o : Option Text) (scope : List Text) {body : Declaration → List Declaration}
    (h : ∀ d, OffsetsIn lo hi (body d)) :
    OffsetsIn lo hi ((o.map fun name => (⟨scope, name, none⟩ : Declaration)).elim [] fun d => d :: body d) := by
  cases o with
  | none => exact offsetsIn_nil lo hi
  | some name => exact (h _).cons_none rfl

mutual

/-- The statements declared in a node start inside it, no two together; those in a declaration that can be exported start
after it does. -/
theorem declarations_offsetsIn : ∀ (n : SyntaxNode) (scope : List Text), WellFormed n →
    OffsetsIn n.startByte n.endByte (declarations source n scope) ∧
      (n.kind ∈ exportedKinds → OffsetsIn (n.startByte + 1) n.endByte (declarations source n scope))
  | .mk kind field s e r₁ r₂ named children, scope, hwf => by
    unfold WellFormed at hwf
    obtain ⟨hse, hstatement, hin, hbody⟩ := hwf
    dsimp only [SyntaxNode.startByte, SyntaxNode.endByte, SyntaxNode.kind]
    by_cases hscope : kind ∈ scopeKinds
    · have h : OffsetsIn (s + 1) e (declarations source (.mk kind field s e r₁ r₂ named children) scope) := by
        rw [declarations_scope (declares_named (List.mem_append_left _ hscope)) hscope]
        exact offsetsIn_scope _ _ fun d => bodyDeclarations_offsetsIn children _ s s e hin (hbody hscope)
      exact ⟨h.mono (Nat.le_succ s) le_rfl, fun _ => h⟩
    by_cases hvar : kind ∈ variableKinds
    · rw [declarations_variables hscope hvar]
      exact ⟨offsetsIn_variableDeclarations _ _ _ _ _, fun _ => offsetsIn_variableDeclarations _ _ _ _ _⟩
    have hnot : kind ∉ scopeKinds ++ variableKinds := by
      rw [List.mem_append, not_or]
      exact ⟨hscope, hvar⟩
    by_cases hmember : kind ∈ memberKinds
    · rw [declarations_leaf (declares_named (List.mem_append_right _ hmember)) hnot (List.mem_cons_of_mem _ hmember)]
      exact ⟨offsetsIn_named _ _ _ _, fun _ => offsetsIn_named _ _ _ _⟩
    -- what is left cannot be exported
    refine ⟨?_, fun hk => absurd (exportedKinds_declare kind hk) (not_or.2 ⟨hnot, hmember⟩)⟩
    by_cases himport : kind = "import_statement".toList
    · subst himport
      rw [declarations_leaf rfl hnot List.mem_cons_self, ← List.nil_append (Option.toList _)]
      exact offsetsIn_statement _ _ (offsetsIn_nil _ _) (hstatement (by decide))
    by_cases hexport : kind = "export_statement".toList
    · subst hexport
      rw [declarations_export rfl]
      exact offsetsIn_statement _ _ (exportedDeclarations_offsetsIn children scope s e hse hin) (hstatement (by decide))
    · rw [declarations_other hnot (List.not_mem_cons_of_ne_of_not_mem himport hmember) hexport]
      exact childDeclarations_offsetsIn children scope s e hse hin

/-- Those of a body start behind the node that the body belongs to. -/
theorem bodyDeclarations_offsetsIn : ∀ (l : List SyntaxNode) (scope : List Text) (s lo hi : Nat), InOrder lo hi l →
    (∀ c ∈ l, c.field = some "body".toList → s < c.startByte) →
    OffsetsIn (s + 1) hi (bodyDeclarations source l scope)
  | [], scope, s, lo, hi, _, _ => by
    unfold bodyDeclarations
    exact offsetsIn_nil _ _
  | .mk kind field s' e' r₁ r₂ named children :: rest, scope, s, lo, hi, hin, hbody => by
    unfold InOrder at hin
    obtain ⟨-, hhi, hwf, hrest⟩ := hin
    unfold bodyDeclarations
    split
    · rename_i hf
      unfold WellFormed at hwf
      have hlt : s < s' := hbody _ List.mem_cons_self hf
      exact (childDeclarations_offsetsIn children scope s' e' hwf.1 hwf.2.2.1).mono hlt hhi
    · exact bodyDeclarations_offsetsIn rest scope s _ hi hrest fun c hc => hbody c (List.mem_cons_of_mem _ hc)

theorem exportedDeclarations_offsetsIn : ∀ (l : List SyntaxNode) (scope : List Text) (lo hi : Nat), lo ≤ hi →
    InOrder lo hi l → OffsetsIn (lo + 1) hi (exportedDeclarations source l scope)
  | [], scope, lo, hi, _, _ => by
    unfold exportedDeclarations
    exact offsetsIn_nil _ _
  | n :: rest, scope, lo, hi, hle, hin => by
    unfold InOrder at hin
    obtain ⟨hlo, hhi, hwf, hrest⟩ := hin
    have hse : n.startByte ≤ n.endByte := le_of_wellFormed hwf
    have hn : OffsetsIn (lo + 1) n.endByte
        (if n.named ∧ n.kind ∈ exportedKinds then declarations source n scope else []) := by
      split
      · rename_i hk
        exact ((declarations_offsetsIn n scope hwf).2 hk.2).mono (by omega) le_rfl
      · exact offsetsIn_nil _ _
    unfold exportedDeclarations
    exact hn.append (exportedDeclarations_offsetsIn rest scope n.endByte hi hhi hrest) (by omega) (by omega) hhi

theorem childDeclarations_offsetsIn : ∀ (l : List SyntaxNode) (scope : List Text) (lo hi : Nat), lo ≤ hi →
    InOrder lo hi l → OffsetsIn lo hi (childDeclarations source l scope)
  | [], scope, lo, hi, _, _ => by
    unfold childDeclarations
    exact offsetsIn_nil _ _
  | n :: rest, scope, lo, hi, hle, hin => by
    unfold InOrder at hin
    obtain ⟨hlo, hhi, hwf, hrest⟩ := hin
    have hse : n.startByte ≤ n.endByte := le_of_wellFormed hwf
    have hn : OffsetsIn lo n.endByte (if n.named then declarations source n scope else []) := by
      split
      · exact (declarations_offsetsIn n scope hwf).1.mono hlo le_rfl
      · exact offsetsIn_nil _ _
    unfold childDeclarations
    exact hn.append (childDeclarations_offsetsIn rest scope n.endByte hi hhi hrest) le_rfl (by omega) hhi

end

end TsSource
end Vai
