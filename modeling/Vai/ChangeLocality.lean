import Vai.Relocated
import Vai.EntityMerge
import Vai.Diff
/-!
# ChangeLocality — which entities a local edit reports as changed

`changed_entity_ids` and `compute_entity_diff` know an entity by the hash of its qualified name, and the qualified names
of impl blocks and use declarations end in their offsets.  An edit is one stretch of the file put in the place of
another; the syntax tree outside it stays as it is, the part behind it moved (`Edited`).

`change_detection_local_iff`: only entities that the edit touches are reported, exactly when the edit keeps the length of
the file or no impl block and no use declaration comes behind it.
-/
namespace Vai
namespace RustSource

/-! ## Edits -/

/-- The text `old` between `pre` and `post`, replaced by `new`. -/
structure Edit where
  pre : Bytes
  old : Bytes
  new : Bytes
  post : Bytes

namespace Edit

variable (x : Edit)

def before : Bytes := x.pre ++ x.old ++ x.post
def after : Bytes := x.pre ++ x.new ++ x.post

/-- The stretch is `lo..hi` before the edit, and `lo..hi'` after it. -/
def lo : Nat := x.pre.length
def hi : Nat := x.pre.length + x.old.length
def hi' : Nat := x.pre.length + x.new.length

/-- The place after the edit of a byte behind the stretch. -/
def move (k : Nat) : Nat := k - x.hi + x.hi'

end Edit

/-- The bytes `s..e` have something in common with the stretch, or have it inside. -/
def Overlaps (lo hi s e : Nat) : Prop := s < hi ∧ lo < e

instance (lo hi s e : Nat) : Decidable (Overlaps lo hi s e) := inferInstanceAs (Decidable (_ ∧ _))

def containerKinds : List Text := ["trait_item", "impl_item", "mod_item", "source_file"].map String.toList

def IsBody (c : SyntaxNode) : Prop := c.field = some "body".toList

/-- A node of the edited stretch: inside it, or an item without items of its own that overlaps it. -/
def Rewritten (lo hi : Nat) (c : SyntaxNode) : Prop :=
  lo ≤ c.startByte ∧ c.endByte ≤ hi ∨
    c.kind ∉ containerKinds ∧ ¬ IsBody c ∧ Overlaps lo hi c.startByte c.endByte

def headerFields : List Text := ["name", "type", "trait"].map String.toList

/-- The header child of a node in a field. -/
def header (source : Bytes) (n : SyntaxNode) (name : Text) : Option (Text × Option Text) :=
  (n.childByFieldName name).map fun c => (c.kind, nodeText source c)

/-- `n` becomes `n'` by an edit of its children: those before the stretch stay, those behind it move, and `mid'` takes
the place of `mid`.  The name of the node stays. -/
structure Framed (x : Edit) (g : Nat → Nat) (n n' : SyntaxNode) (mid mid' : List SyntaxNode) : Prop where
  kind : n'.kind = n.kind
  field : n'.field = n.field
  named : n'.named = n.named
  start : n'.startByte = n.startByte
  children : ∃ front back, n.children = front ++ mid ++ back ∧ n'.children = front ++ mid' ++ relocateAll x.move g back ∧
    (∀ c ∈ front, c.endByte ≤ x.lo) ∧ (∀ c ∈ back, x.hi ≤ c.startByte) ∧
    ((∃ c ∈ mid ++ mid', IsBody c) → ∀ c ∈ back, ¬ IsBody c)
  encloses : n.kind ∈ itemKinds → n.startByte < x.lo ∧ x.hi < n.endByte ∧ x.hi' < n'.endByte
  header : ∀ name ∈ headerFields, header x.after n' name = header x.before n name

/-- The two trees differ where the edit is. -/
inductive Edited (x : Edit) (g : Nat → Nat) : SyntaxNode → SyntaxNode → Prop where
  | rewritten {n n' : SyntaxNode} {mid mid' : List SyntaxNode} (h : Framed x g n n' mid mid')
      (hold : ∀ c ∈ mid, Rewritten x.lo x.hi c) (hnew : ∀ c ∈ mid', Rewritten x.lo x.hi' c) : Edited x g n n'
  | inside {n n' c c' : SyntaxNode} (h : Framed x g n n' [c] [c']) (hc : Edited x g c c') : Edited x g n n'

/-! ## The places of the bytes -/

section

variable {x : Edit}

theorem moves_front : Moves x.before x.after id 0 x.lo := by
  intro s e _ hse he
  have hb : e ≤ x.before.length := by simp [Edit.before, Edit.lo] at he ⊢; omega
  have ha : e ≤ x.after.length := by simp [Edit.after, Edit.lo] at he ⊢; omega
  unfold slice
  rw [if_pos ⟨hse, ha⟩, if_pos ⟨hse, hb⟩]
  have htake : x.after.take e = x.before.take e := by
    unfold Edit.after Edit.before Edit.lo at *
    rw [List.append_assoc, List.append_assoc, List.take_append_of_le_length he, List.take_append_of_le_length he]
  rw [id, id, htake]

theorem slice_append_right {A C : Bytes} {s e : Nat} (hs : A.length ≤ s) (hse : s ≤ e) :
    slice (A ++ C) s e = slice C (s - A.length) (e - A.length) := by
  unfold slice
  by_cases he : e ≤ (A ++ C).length
  · have he' : e - A.length ≤ C.length := by simp at he; omega
    rw [if_pos ⟨hse, he⟩, if_pos ⟨by omega, he'⟩, List.take_append, List.take_of_length_le (by omega : A.length ≤ e),
      List.drop_append, List.drop_of_length_le hs, List.nil_append]
  · have he' : ¬ e - A.length ≤ C.length := by simp at he ⊢; omega
    rw [if_neg fun h => he h.2, if_neg fun h => he' h.2]

theorem move_add {k : Nat} (hk : x.hi ≤ k) : x.move k + x.hi = k + x.hi' := by
  unfold Edit.move
  omega

theorem moves_back : Moves x.before x.after x.move x.hi x.before.length := by
  intro s e hs hse _
  have hlen : (x.pre ++ x.old).length = x.hi := List.length_append
  have hlen' : (x.pre ++ x.new).length = x.hi' := List.length_append
  have hms := move_add hs
  have hme := move_add (hs.trans hse)
  unfold Edit.before Edit.after
  rw [slice_append_right (by omega) (by omega), slice_append_right (by omega) (by omega), hlen, hlen',
    show x.move s - x.hi' = s - x.hi by omega, show x.move e - x.hi' = e - x.hi by omega]

end

/-! ## Extraction over a list of children -/

section

variable (digest : Bytes → Text) (source : Bytes) (filePath : Path)

@[simp] theorem extractNamed_nil (ps : List (Text × Text)) (b : Bool) : extractNamed digest source filePath [] ps b = [] := by
  unfold extractNamed
  rfl

theorem extractNamed_cons (n : SyntaxNode) (l : List SyntaxNode) (ps : List (Text × Text)) (b : Bool) :
    extractNamed digest source filePath (n :: l) ps b =
      (if n.named then extractEntities digest source filePath n ps b else []) ++ extractNamed digest source filePath l ps b := by
  conv => lhs; unfold extractNamed

@[simp] theorem extractBody_nil (ps : List (Text × Text)) (b : Bool) : extractBody digest source filePath [] ps b = [] := by
  unfold extractBody
  rfl

theorem extractBody_cons_of_body {n : SyntaxNode} (h : IsBody n) (l : List SyntaxNode) (ps : List (Text × Text)) (b : Bool) :
    extractBody digest source filePath (n :: l) ps b = extractNamed digest source filePath n.children ps b := by
  obtain ⟨kind, field, s, e, r₁, r₂, named, children⟩ := n
  conv => lhs; unfold extractBody
  exact if_pos h

theorem extractBody_cons_of_not_body {n : SyntaxNode} (h : ¬ IsBody n) (l : List SyntaxNode) (ps : List (Text × Text)) (b : Bool) :
    extractBody digest source filePath (n :: l) ps b = extractBody digest source filePath l ps b := by
  obtain ⟨kind, field, s, e, r₁, r₂, named, children⟩ := n
  conv => lhs; unfold extractBody
  exact if_neg h

theorem extractNamed_append (l l' : List SyntaxNode) (ps : List (Text × Text)) (b : Bool) :
    extractNamed digest source filePath (l ++ l') ps b =
      extractNamed digest source filePath l ps b ++ extractNamed digest source filePath l' ps b := by
  induction l with
  | nil => simp
  | cons n l ih => rw [List.cons_append, extractNamed_cons, extractNamed_cons, ih, List.append_assoc]

theorem extractBody_of_body (l l' : List SyntaxNode) (ps : List (Text × Text)) (b : Bool) (h : ∃ c ∈ l, IsBody c) :
    extractBody digest source filePath (l ++ l') ps b = extractBody digest source filePath l ps b := by
  induction l with
  | nil =>
    obtain ⟨c, hc, -⟩ := h
    cases hc
  | cons n l ih =>
    rw [List.cons_append]
    by_cases hn : IsBody n
    · rw [extractBody_cons_of_body _ _ _ hn, extractBody_cons_of_body _ _ _ hn]
    · rw [extractBody_cons_of_not_body _ _ _ hn, extractBody_cons_of_not_body _ _ _ hn]
      obtain ⟨c, hc, hb⟩ := h
      rcases List.mem_cons.1 hc with rfl | hc
      · exact absurd hb hn
      · exact ih ⟨c, hc, hb⟩

theorem extractBody_of_no_body (l l' : List SyntaxNode) (ps : List (Text × Text)) (b : Bool) (h : ∀ c ∈ l, ¬ IsBody c) :
    extractBody digest source filePath (l ++ l') ps b = extractBody digest source filePath l' ps b := by
  induction l with
  | nil => rfl
  | cons n l ih =>
    rw [List.cons_append, extractBody_cons_of_not_body _ _ _ (h n List.mem_cons_self)]
    exact ih fun c hc => h c (List.mem_cons_of_mem _ hc)

theorem mem_extractNamed {en : Entity} : ∀ {l : List SyntaxNode} {ps : List (Text × Text)} {b : Bool},
    en ∈ extractNamed digest source filePath l ps b → ∃ c ∈ l, en ∈ extractEntities digest source filePath c ps b
  | [], ps, b, h => by
    unfold extractNamed at h
    cases h
  | n :: rest, ps, b, h => by
    rw [extractNamed_cons] at h
    rcases List.mem_append.1 h with h | h
    · split at h
      · exact ⟨n, List.mem_cons_self, h⟩
      · cases h
    · obtain ⟨c, hc, hen⟩ := mem_extractNamed h
      exact ⟨c, List.mem_cons_of_mem _ hc, hen⟩

theorem mem_extractBody {en : Entity} : ∀ {l : List SyntaxNode} {ps : List (Text × Text)} {b : Bool},
    en ∈ extractBody digest source filePath l ps b → ∃ c ∈ l, IsBody c ∧ en ∈ extractNamed digest source filePath c.children ps b
  | [], ps, b, h => by
    unfold extractBody at h
    cases h
  | .mk kind field s e r₁ r₂ named children :: rest, ps, b, h => by
    unfold extractBody at h
    split at h
    · rename_i hf
      exact ⟨_, List.mem_cons_self, hf, h⟩
    · obtain ⟨c, hc, hen⟩ := mem_extractBody h
      exact ⟨c, List.mem_cons_of_mem _ hc, hen⟩

theorem byteRange_of_not_container {n : SyntaxNode} {ps : List (Text × Text)} {b : Bool} {en : Entity}
    (hk : n.kind ∉ containerKinds) (h : en ∈ extractEntities digest source filePath n ps b) :
    n.kind ∈ itemKinds ∧ en.byteRange = (n.startByte, n.endByte) := by
  obtain ⟨kind, field, s, e, r₁, r₂, named, children⟩ := n
  have hno : ∀ k ∈ containerKinds, kind ≠ k := fun k hk' he => hk (by rw [← he] at hk'; exact hk')
  have hitem : ∀ k ∈ itemKinds, kind = k → kind ∈ itemKinds := fun k hk' he => he ▸ hk'
  unfold extractEntities at h
  dsimp only at h
  rw [if_neg (hno "trait_item".toList (by decide)), if_neg (hno "impl_item".toList (by decide)),
    if_neg (hno "mod_item".toList (by decide)), if_neg (hno "source_file".toList (by decide))] at h
  split at h
  · rename_i hf
    exact ⟨hitem _ (by decide) hf, byteRange_extractFunction (Option.mem_toList.1 h)⟩
  split at h
  · rename_i hf
    exact ⟨hitem _ (by decide) hf, byteRange_extractNamedItem (Option.mem_toList.1 h)⟩
  split at h
  · rename_i hf
    exact ⟨hitem _ (by decide) hf, byteRange_extractNamedItem (Option.mem_toList.1 h)⟩
  split at h
  · rename_i hf
    exact ⟨hitem _ (by decide) hf, byteRange_extractUseDeclaration (Option.mem_toList.1 h)⟩
  · cases h

/-- A container with its items. -/
def withBody (children : List SyntaxNode) (ps : List (Text × Text)) (b : Bool) : Option Entity → List Entity
  | some entity => entity :: extractBody digest source filePath children (ps ++ [(entity.id, entity.qualifiedName)]) b
  | none => []

theorem extractEntities_trait {n : SyntaxNode} (hk : n.kind = "trait_item".toList) (ps : List (Text × Text)) (b : Bool) :
    extractEntities digest source filePath n ps b = withBody digest source filePath n.children ps false
      (extractNamedItem digest source filePath n ps .trait ["type_identifier".toList]) := by
  obtain ⟨kind, field, s, e, r₁, r₂, named, children⟩ := n
  change kind = _ at hk
  subst hk
  unfold extractEntities
  rfl

theorem extractEntities_impl {n : SyntaxNode} (hk : n.kind = "impl_item".toList) (ps : List (Text × Text)) (b : Bool) :
    extractEntities digest source filePath n ps b = withBody digest source filePath n.children ps true
      (extractImplItem digest source filePath n ps) := by
  obtain ⟨kind, field, s, e, r₁, r₂, named, children⟩ := n
  change kind = _ at hk
  subst hk
  unfold extractEntities
  rfl

theorem extractEntities_mod {n : SyntaxNode} (hk : n.kind = "mod_item".toList) (ps : List (Text × Text)) (b : Bool) :
    extractEntities digest source filePath n ps b = withBody digest source filePath n.children ps false
      (extractNamedItem digest source filePath n ps .module ["identifier".toList]) := by
  obtain ⟨kind, field, s, e, r₁, r₂, named, children⟩ := n
  change kind = _ at hk
  subst hk
  unfold extractEntities
  rfl

theorem extractEntities_file {n : SyntaxNode} (hk : n.kind = "source_file".toList) (ps : List (Text × Text)) (b : Bool) :
    extractEntities digest source filePath n ps b = extractNamed digest source filePath n.children ps false := by
  obtain ⟨kind, field, s, e, r₁, r₂, named, children⟩ := n
  change kind = _ at hk
  subst hk
  unfold extractEntities
  rfl

theorem overlaps_of_rewritten {lo hi : Nat} {c : SyntaxNode} {ps : List (Text × Text)} {b : Bool} {en : Entity}
    (hc : Rewritten lo hi c) (hwf : WellFormed c) (h : en ∈ extractEntities digest source filePath c ps b) :
    Overlaps lo hi en.byteRange.1 en.byteRange.2 := by
  rcases hc with ⟨hlo, hhi⟩ | ⟨hk, -, hover⟩
  · have hspan := (extractEntities_spans digest source filePath c ps b hwf).1 en h
    exact ⟨by omega, by omega⟩
  · rw [(byteRange_of_not_container digest source filePath hk h).2]
    exact hover

end

/-! ## The entities outside the edit -/

def outsideOf (lo hi : Nat) (es : List Entity) : List Entity :=
  es.filter (fun e => ¬ Overlaps lo hi e.byteRange.1 e.byteRange.2)

section

variable (digest : Bytes → Text) (filePath : Path) (x : Edit)

/-- An entity outside the stretch, before the edit and after it. -/
def Mates (e e' : Entity) : Prop :=
  Twin digest filePath id e e' ∧ e.byteRange.2 ≤ x.lo ∨ Twin digest filePath x.move e e' ∧ x.hi ≤ e.byteRange.1

/-- The entities outside the stretch are mates, one by one. -/
def Paired (es es' : List Entity) : Prop :=
  List.Forall₂ (Mates digest filePath x) (outsideOf x.lo x.hi es) (outsideOf x.lo x.hi' es')

variable {digest filePath x}

theorem Paired.append {as bs as' bs' : List Entity} (h : Paired digest filePath x as as') (h' : Paired digest filePath x bs bs') :
    Paired digest filePath x (as ++ bs) (as' ++ bs') := by
  unfold Paired outsideOf
  rw [List.filter_append, List.filter_append]
  exact List.rel_append h h'

theorem outsideOf_eq_nil {lo hi : Nat} {es : List Entity} (h : ∀ e ∈ es, Overlaps lo hi e.byteRange.1 e.byteRange.2) :
    outsideOf lo hi es = [] :=
  List.filter_eq_nil_iff.2 fun e he => by simpa using h e he

theorem paired_of_overlaps {es es' : List Entity} (h : ∀ e ∈ es, Overlaps x.lo x.hi e.byteRange.1 e.byteRange.2)
    (h' : ∀ e ∈ es', Overlaps x.lo x.hi' e.byteRange.1 e.byteRange.2) : Paired digest filePath x es es' := by
  unfold Paired
  rw [outsideOf_eq_nil h, outsideOf_eq_nil h']
  exact .nil

theorem Paired.cons_overlaps {e e' : Entity} {es es' : List Entity} (h : Overlaps x.lo x.hi e.byteRange.1 e.byteRange.2)
    (h' : Overlaps x.lo x.hi' e'.byteRange.1 e'.byteRange.2) (hp : Paired digest filePath x es es') :
    Paired digest filePath x (e :: es) (e' :: es') :=
  have hone : Paired digest filePath x [e] [e'] := paired_of_overlaps (by simpa using h) (by simpa using h')
  hone.append hp

theorem paired_of_mates {es es' : List Entity} (h : List.Forall₂ (Mates digest filePath x) es es') :
    Paired digest filePath x es es' := by
  have hout : ∀ e e', Mates digest filePath x e e' → ¬ Overlaps x.lo x.hi e.byteRange.1 e.byteRange.2 ∧
      ¬ Overlaps x.lo x.hi' e'.byteRange.1 e'.byteRange.2 := by
    rintro e e' (⟨ht, hlo⟩ | ⟨ht, hhi⟩)
    · have h₂ : e'.byteRange.2 = e.byteRange.2 := by rw [ht.byteRange]; rfl
      exact ⟨fun h => by have := h.2; omega, fun h => by have := h.2; omega⟩
    · have h₁ : e'.byteRange.1 = x.move e.byteRange.1 := by rw [ht.byteRange]
      have := move_add hhi
      exact ⟨fun h => by have := h.1; omega, fun h => by have := h.1; omega⟩
  unfold Paired outsideOf
  induction h with
  | nil => exact .nil
  | cons hm _ ih =>
    obtain ⟨h₁, h₂⟩ := hout _ _ hm
    rw [List.filter_cons_of_pos (by simpa using h₁), List.filter_cons_of_pos (by simpa using h₂)]
    exact .cons hm ih

theorem paired_front {es es' : List Entity} (h : List.Forall₂ (Twin digest filePath id) es es')
    (hlo : ∀ e ∈ es, e.byteRange.2 ≤ x.lo) : Paired digest filePath x es es' := by
  apply paired_of_mates
  induction h with
  | nil => exact .nil
  | cons ht _ ih => exact .cons (.inl ⟨ht, hlo _ List.mem_cons_self⟩) (ih fun e he => hlo e (List.mem_cons_of_mem _ he))

theorem paired_back {es es' : List Entity} (h : List.Forall₂ (Twin digest filePath x.move) es es')
    (hhi : ∀ e ∈ es, x.hi ≤ e.byteRange.1) : Paired digest filePath x es es' := by
  apply paired_of_mates
  induction h with
  | nil => exact .nil
  | cons ht _ ih => exact .cons (.inr ⟨ht, hhi _ List.mem_cons_self⟩) (ih fun e he => hhi e (List.mem_cons_of_mem _ he))

/-! ## Children before and behind the edit -/

theorem inOrder_front : ∀ {l l' : List SyntaxNode} {lo hi B : Nat}, InOrder lo hi (l ++ l') → (∀ c ∈ l, c.endByte ≤ B) →
    InOrder lo B l
  | [], _, _, _, _, _, _ => by unfold InOrder; trivial
  | n :: rest, l', lo, hi, B, h, hB => by
    rw [List.cons_append] at h
    unfold InOrder at h ⊢
    obtain ⟨hlo, -, hwf, hrest⟩ := h
    exact ⟨hlo, hB n List.mem_cons_self, hwf, inOrder_front hrest fun c hc => hB c (List.mem_cons_of_mem _ hc)⟩

theorem inOrder_back : ∀ {l l' : List SyntaxNode} {lo hi A : Nat}, InOrder lo hi (l ++ l') → (∀ c ∈ l', A ≤ c.startByte) →
    InOrder A hi l'
  | [], [], _, _, _, _, _ => by unfold InOrder; trivial
  | [], n :: rest, lo, hi, A, h, hA => by
    rw [List.nil_append] at h
    unfold InOrder at h ⊢
    exact ⟨hA n List.mem_cons_self, h.2⟩
  | n :: rest, l', lo, hi, A, h, hA => by
    rw [List.cons_append] at h
    unfold InOrder at h
    exact inOrder_back h.2.2.2 hA

theorem extractBody_append {source : Bytes} {l l' : List SyntaxNode} (h : (∃ c ∈ l, IsBody c) → ∀ c ∈ l', ¬ IsBody c)
    (ps : List (Text × Text)) (b : Bool) : extractBody digest source filePath (l ++ l') ps b =
      extractBody digest source filePath l ps b ++ extractBody digest source filePath l' ps b := by
  have hnil : ∀ {r : List SyntaxNode}, (∀ c ∈ r, ¬ IsBody c) → extractBody digest source filePath r ps b = [] := by
    intro r hr
    have := extractBody_of_no_body digest source filePath r [] ps b hr
    rwa [List.append_nil, extractBody_nil] at this
  by_cases hl : ∃ c ∈ l, IsBody c
  · rw [extractBody_of_body digest source filePath l l' ps b hl, hnil (h hl), List.append_nil]
  · have hno : ∀ c ∈ l, ¬ IsBody c := fun c hc hb => hl ⟨c, hc, hb⟩
    rw [extractBody_of_no_body digest source filePath l l' ps b hno, hnil hno, List.nil_append]

theorem mem_relocateAll {f g : Nat → Nat} {c' : SyntaxNode} : ∀ {l : List SyntaxNode}, c' ∈ relocateAll f g l →
    ∃ c ∈ l, c' = relocate f g c
  | [], h => by
    unfold relocateAll at h
    cases h
  | n :: rest, h => by
    unfold relocateAll at h
    rcases List.mem_cons.1 h with rfl | h
    · exact ⟨n, List.mem_cons_self, rfl⟩
    · obtain ⟨c, hc, he⟩ := mem_relocateAll h
      exact ⟨c, List.mem_cons_of_mem _ hc, he⟩

section Children

variable {front mid mid' back : List SyntaxNode} {g : Nat → Nat} {lo hi : Nat} {ps ps' : List (Text × Text)} {b : Bool}

variable (digest filePath b) in
theorem front_paired (hin : InOrder lo hi (front ++ mid ++ back)) (hfront : ∀ c ∈ front, c.endByte ≤ x.lo)
    (hps : SameScope ps ps') :
    Paired digest filePath x (extractNamed digest x.before filePath front ps b) (extractNamed digest x.after filePath front ps' b) ∧
    Paired digest filePath x (extractBody digest x.before filePath front ps b) (extractBody digest x.after filePath front ps' b) := by
  rw [List.append_assoc] at hin
  have hin' := inOrder_front hin hfront
  have hsub : ∀ c ∈ front, ∀ en : Entity, (∃ es, Spans c.startByte c.endByte es ∧ en ∈ es) → en.byteRange.2 ≤ x.lo := by
    rintro c hc en ⟨es, hes, hen⟩
    have := (hes.1 en hen).2.2
    have := hfront c hc
    omega
  constructor
  · have h := extractNamed_relocated (g := id) digest filePath x.before x.after moves_front front ps ps' b lo x.lo
      (Nat.zero_le _) le_rfl hin' hps
    rw [relocateAll_id] at h
    refine paired_front h fun en hen => ?_
    obtain ⟨c, hc, hen⟩ := mem_extractNamed digest x.before filePath hen
    exact hsub c hc en ⟨_, extractEntities_spans digest x.before filePath c ps b (mem_of_inOrder hin' hc).2.2, hen⟩
  · have h := extractBody_relocated (g := id) digest filePath x.before x.after moves_front front ps ps' b lo x.lo
      (Nat.zero_le _) le_rfl hin' hps
    rw [relocateAll_id] at h
    refine paired_front h fun en hen => ?_
    obtain ⟨c, hc, -, hen⟩ := mem_extractBody digest x.before filePath hen
    have hwf := (mem_of_inOrder hin' hc).2.2
    exact hsub c hc en ⟨_, extractNamed_spans digest x.before filePath c.children ps b _ _ (le_of_wellFormed hwf)
      (wellFormed_inOrder hwf), hen⟩

variable (digest filePath g b) in
theorem back_paired (hin : InOrder lo hi (front ++ mid ++ back)) (hback : ∀ c ∈ back, x.hi ≤ c.startByte)
    (hlen : hi ≤ x.before.length) (hps : SameScope ps ps') :
    Paired digest filePath x (extractNamed digest x.before filePath back ps b)
      (extractNamed digest x.after filePath (relocateAll x.move g back) ps' b) ∧
    Paired digest filePath x (extractBody digest x.before filePath back ps b)
      (extractBody digest x.after filePath (relocateAll x.move g back) ps' b) := by
  have hin' := inOrder_back hin hback
  have hsub : ∀ c ∈ back, ∀ en : Entity, (∃ es, Spans c.startByte c.endByte es ∧ en ∈ es) → x.hi ≤ en.byteRange.1 := by
    rintro c hc en ⟨es, hes, hen⟩
    have := (hes.1 en hen).1
    have := hback c hc
    omega
  constructor
  · refine paired_back (extractNamed_relocated digest filePath x.before x.after moves_back back ps ps' b x.hi hi le_rfl hlen
      hin' hps) fun en hen => ?_
    obtain ⟨c, hc, hen⟩ := mem_extractNamed digest x.before filePath hen
    exact hsub c hc en ⟨_, extractEntities_spans digest x.before filePath c ps b (mem_of_inOrder hin' hc).2.2, hen⟩
  · refine paired_back (extractBody_relocated digest filePath x.before x.after moves_back back ps ps' b x.hi hi le_rfl hlen
      hin' hps) fun en hen => ?_
    obtain ⟨c, hc, -, hen⟩ := mem_extractBody digest x.before filePath hen
    have hwf := (mem_of_inOrder hin' hc).2.2
    exact hsub c hc en ⟨_, extractNamed_spans digest x.before filePath c.children ps b _ _ (le_of_wellFormed hwf)
      (wellFormed_inOrder hwf), hen⟩

end Children

/-! ## The node around the edit -/

section Frame

variable {g : Nat → Nat} {n n' : SyntaxNode} {mid mid' : List SyntaxNode}

/-- The children of two framed nodes, when those of the stretch are paired. -/
theorem Framed.children_paired (h : Framed x g n n' mid mid') (hwf : WellFormed n) (hlen : n.endByte ≤ x.before.length)
    {ps ps' : List (Text × Text)} {b : Bool} (hps : SameScope ps ps') :
    (Paired digest filePath x (extractNamed digest x.before filePath mid ps b)
        (extractNamed digest x.after filePath mid' ps' b) →
      Paired digest filePath x (extractNamed digest x.before filePath n.children ps b)
        (extractNamed digest x.after filePath n'.children ps' b)) ∧
    (Paired digest filePath x (extractBody digest x.before filePath mid ps b)
        (extractBody digest x.after filePath mid' ps' b) →
      Paired digest filePath x (extractBody digest x.before filePath n.children ps b)
        (extractBody digest x.after filePath n'.children ps' b)) := by
  obtain ⟨front, back, hn, hn', hfront, hback, hbody⟩ := h.children
  have hin := wellFormed_inOrder hwf
  rw [hn] at hin
  obtain ⟨hf₁, hf₂⟩ := front_paired digest filePath b hin hfront hps
  obtain ⟨hb₁, hb₂⟩ := back_paired digest filePath g b hin hback hlen hps
  rw [hn, hn']
  constructor
  · intro hmid
    simp only [extractNamed_append]
    exact (hf₁.append hmid).append hb₁
  · intro hmid
    rw [List.append_assoc, List.append_assoc]
    by_cases hbf : ∃ c ∈ front, IsBody c
    · rw [extractBody_of_body _ _ _ _ _ _ _ hbf, extractBody_of_body _ _ _ _ _ _ _ hbf]
      exact hf₂
    · have hno : ∀ c ∈ front, ¬ IsBody c := fun c hc hb => hbf ⟨c, hc, hb⟩
      have hback' : (∃ c ∈ mid', IsBody c) → ∀ c ∈ relocateAll x.move g back, ¬ IsBody c := by
        rintro ⟨m, hm, hmb⟩ c' hc'
        obtain ⟨c, hc, rfl⟩ := mem_relocateAll hc'
        unfold IsBody
        rw [field_relocate]
        exact hbody ⟨m, List.mem_append_right _ hm, hmb⟩ c hc
      rw [extractBody_of_no_body _ _ _ _ _ _ _ hno, extractBody_of_no_body _ _ _ _ _ _ _ hno,
        extractBody_append (fun ⟨m, hm, hmb⟩ => hbody ⟨m, List.mem_append_left _ hm, hmb⟩), extractBody_append hback']
      exact hmid.append hb₂

/-- One entity under two files. -/
def Renders (n n' : SyntaxNode) (e e' : Entity) : Prop :=
  e'.id = e.id ∧ e'.qualifiedName = e.qualifiedName ∧ e.byteRange = (n.startByte, n.endByte) ∧
    e'.byteRange = (n'.startByte, n'.endByte)

theorem header_cases (h : Framed x g n n' mid mid') (name : Text) (hname : name ∈ headerFields) :
    n.childByFieldName name = none ∧ n'.childByFieldName name = none ∨
    ∃ c c', n.childByFieldName name = some c ∧ n'.childByFieldName name = some c' ∧ c'.kind = c.kind ∧
      nodeText x.after c' = nodeText x.before c := by
  have he := h.header name hname
  unfold RustSource.header at he
  cases hc : n.childByFieldName name with
  | none =>
    rw [hc] at he
    exact .inl ⟨rfl, Option.map_eq_none_iff.1 he⟩
  | some c =>
    rw [hc] at he
    obtain ⟨c', hc', hp⟩ := Option.map_eq_some_iff.1 he
    exact .inr ⟨c, c', rfl, hc', (Prod.mk.injEq .. ▸ hp).1, (Prod.mk.injEq .. ▸ hp).2⟩

theorem extractNamedItem_framed (h : Framed x g n n' mid mid') {ps ps' : List (Text × Text)} (hps : SameScope ps ps')
    (k : EntityKind) (ks : List Text) : Option.Rel (Renders n n') (extractNamedItem digest x.before filePath n ps k ks)
      (extractNamedItem digest x.after filePath n' ps' k ks) := by
  unfold extractNamedItem
  rcases header_cases h "name".toList (by decide) with ⟨h₁, h₂⟩ | ⟨c, c', h₁, h₂, hkind, htext⟩
  · rw [h₁, h₂]
    exact .none
  · rw [h₁, h₂, Option.bind_eq_bind, Option.bind_eq_bind, Option.bind_some, Option.bind_some, htext, hkind]
    split
    · cases nodeText x.before c with
      | none => exact .none
      | some name =>
        refine .some ⟨?_, hps.qualify name, rfl, rfl⟩
        simp [entityAt, hps.qualify]
    · exact .none

theorem extractImplItem_framed (h : Framed x g n n' mid mid') {ps ps' : List (Text × Text)} (hps : SameScope ps ps') :
    Option.Rel (Renders n n') (extractImplItem digest x.before filePath n ps) (extractImplItem digest x.after filePath n' ps') := by
  unfold extractImplItem
  rcases header_cases h "type".toList (by decide) with ⟨h₁, h₂⟩ | ⟨c, c', h₁, h₂, -, htext⟩
  · rw [h₁, h₂]
    exact .none
  · rw [h₁, h₂, Option.bind_eq_bind, Option.bind_eq_bind, Option.bind_some, Option.bind_some, htext]
    cases nodeText x.before c with
    | none => exact .none
    | some typeName =>
      rcases header_cases h "trait".toList (by decide) with ⟨h₃, h₄⟩ | ⟨u, u', h₃, h₄, -, htrait⟩
      · rw [h₃, h₄]
        refine .some ⟨?_, ?_, rfl, rfl⟩ <;> simp [entityAt, hps.qualify, h.start]
      · rw [h₃, h₄]
        refine .some ⟨?_, ?_, rfl, rfl⟩ <;> simp [entityAt, hps.qualify, h.start, htrait]

theorem Renders.sameScope {e e' : Entity} (h : Renders n n' e e') (ps ps' : List (Text × Text)) :
    SameScope (ps ++ [(e.id, e.qualifiedName)]) (ps' ++ [(e'.id, e'.qualifiedName)]) := by
  unfold SameScope
  rw [List.getLast?_concat, List.getLast?_concat, Option.map_some, Option.map_some, h.2.1]

theorem Framed.overlaps (h : Framed x g n n' mid mid') (hk : n.kind ∈ itemKinds) :
    Overlaps x.lo x.hi n.startByte n.endByte ∧ Overlaps x.lo x.hi' n'.startByte n'.endByte := by
  obtain ⟨hlo, hhi, hhi'⟩ := h.encloses hk
  have hstart := h.start
  have hle : x.lo ≤ x.hi := Nat.le_add_right _ _
  have hle' : x.lo ≤ x.hi' := Nat.le_add_right _ _
  exact ⟨⟨by omega, by omega⟩, by omega, by omega⟩

/-- The entities of a node around the edit, when those of the stretch are paired. -/
theorem Framed.entities_paired (h : Framed x g n n' mid mid') (hwf : WellFormed n) (hlen : n.endByte ≤ x.before.length)
    (hmid : ∀ {ps ps' : List (Text × Text)} {b : Bool}, SameScope ps ps' →
      Paired digest filePath x (extractNamed digest x.before filePath mid ps b)
          (extractNamed digest x.after filePath mid' ps' b) ∧
        Paired digest filePath x (extractBody digest x.before filePath mid ps b)
          (extractBody digest x.after filePath mid' ps' b))
    {ps ps' : List (Text × Text)} {b : Bool} (hps : SameScope ps ps') :
    Paired digest filePath x (extractEntities digest x.before filePath n ps b)
      (extractEntities digest x.after filePath n' ps' b) := by
  by_cases hc : n.kind ∈ containerKinds
  · have hchildren : ∀ {qs qs' : List (Text × Text)} {b : Bool}, SameScope qs qs' →
        Paired digest filePath x (extractNamed digest x.before filePath n.children qs b)
            (extractNamed digest x.after filePath n'.children qs' b) ∧
          Paired digest filePath x (extractBody digest x.before filePath n.children qs b)
            (extractBody digest x.after filePath n'.children qs' b) := fun hqs =>
      ⟨(h.children_paired hwf hlen hqs).1 (hmid hqs).1, (h.children_paired hwf hlen hqs).2 (hmid hqs).2⟩
    have hbody : ∀ {o o' : Option Entity} (b : Bool), n.kind ∈ itemKinds → Option.Rel (Renders n n') o o' →
        Paired digest filePath x (withBody digest x.before filePath n.children ps b o)
          (withBody digest x.after filePath n'.children ps' b o') := by
      intro o o' b hk ho
      cases ho with
      | none => exact .nil
      | some hr =>
        obtain ⟨h₁, h₂⟩ := h.overlaps hk
        refine Paired.cons_overlaps ?_ ?_ (hchildren (hr.sameScope ps ps')).2
        · rw [hr.2.2.1]
          exact h₁
        · rw [hr.2.2.2]
          exact h₂
    simp only [containerKinds, List.map_cons, List.map_nil, List.mem_cons, List.not_mem_nil, or_false] at hc
    rcases hc with hk | hk | hk | hk
    · rw [extractEntities_trait _ _ _ hk, extractEntities_trait _ _ _ (h.kind.trans hk)]
      exact hbody false (hk ▸ by decide) (extractNamedItem_framed h hps _ _)
    · rw [extractEntities_impl _ _ _ hk, extractEntities_impl _ _ _ (h.kind.trans hk)]
      exact hbody true (hk ▸ by decide) (extractImplItem_framed h hps)
    · rw [extractEntities_mod _ _ _ hk, extractEntities_mod _ _ _ (h.kind.trans hk)]
      exact hbody false (hk ▸ by decide) (extractNamedItem_framed h hps _ _)
    · rw [extractEntities_file _ _ _ hk, extractEntities_file _ _ _ (h.kind.trans hk)]
      exact (hchildren hps).1
  · have hc' : n'.kind ∉ containerKinds := by rwa [h.kind]
    apply paired_of_overlaps
    · intro e he
      obtain ⟨hk, hr⟩ := byteRange_of_not_container digest x.before filePath hc he
      rw [hr]
      exact (h.overlaps hk).1
    · intro e he
      obtain ⟨hk, hr⟩ := byteRange_of_not_container digest x.after filePath hc' he
      rw [hr]
      exact (h.overlaps (h.kind ▸ hk)).2

theorem Edited.framed (h : Edited x g n n') : ∃ mid mid', Framed x g n n' mid mid' := by
  cases h with
  | rewritten h _ _ => exact ⟨_, _, h⟩
  | inside h _ => exact ⟨_, _, h⟩

theorem Framed.mem (h : Framed x g n n' mid mid') : (∀ c ∈ mid, c ∈ n.children) ∧ ∀ c ∈ mid', c ∈ n'.children := by
  obtain ⟨front, back, hn, hn', -⟩ := h.children
  rw [hn, hn']
  exact ⟨fun c hc => by simp [hc], fun c hc => by simp [hc]⟩

theorem rewritten_overlaps {source : Bytes} {lo hi : Nat} {l : List SyntaxNode} (hl : ∀ c ∈ l, Rewritten lo hi c)
    (hwf : ∀ c ∈ l, WellFormed c) {ps : List (Text × Text)} {b : Bool} {en : Entity}
    (h : en ∈ extractNamed digest source filePath l ps b ∨ en ∈ extractBody digest source filePath l ps b) :
    Overlaps lo hi en.byteRange.1 en.byteRange.2 := by
  rcases h with h | h
  · obtain ⟨c, hc, hen⟩ := mem_extractNamed digest source filePath h
    exact overlaps_of_rewritten digest source filePath (hl c hc) (hwf c hc) hen
  · obtain ⟨c, hc, hb, hen⟩ := mem_extractBody digest source filePath h
    have hspan := (extractNamed_spans digest source filePath c.children ps b _ _ (le_of_wellFormed (hwf c hc))
      (wellFormed_inOrder (hwf c hc))).1 en hen
    rcases hl c hc with ⟨hlo, hhi⟩ | ⟨-, hno, -⟩
    · exact ⟨by omega, by omega⟩
    · exact absurd hb hno

/-- **Outside the edit**, the entities of the two trees are the same ones, where they were or moved. -/
theorem Edited.paired (h : Edited x g n n') (hwf : WellFormed n) (hwf' : WellFormed n') (hlen : n.endByte ≤ x.before.length)
    {ps ps' : List (Text × Text)} {b : Bool} (hps : SameScope ps ps') :
    Paired digest filePath x (extractEntities digest x.before filePath n ps b) (extractEntities digest x.after filePath n' ps' b) ∧
      Paired digest filePath x (extractNamed digest x.before filePath n.children ps b)
        (extractNamed digest x.after filePath n'.children ps' b) := by
  induction h generalizing ps ps' b with
  | @rewritten n n' mid mid' h hold hnew =>
    have hin := wellFormed_inOrder hwf
    have hin' := wellFormed_inOrder hwf'
    have hm : ∀ c ∈ mid, WellFormed c := fun c hc => (mem_of_inOrder hin (h.mem.1 c hc)).2.2
    have hm' : ∀ c ∈ mid', WellFormed c := fun c hc => (mem_of_inOrder hin' (h.mem.2 c hc)).2.2
    refine ⟨h.entities_paired hwf hlen (fun hqs => ⟨?_, ?_⟩) hps, (h.children_paired hwf hlen hps).1 ?_⟩
    · exact paired_of_overlaps (fun e he => rewritten_overlaps hold hm (.inl he))
        fun e he => rewritten_overlaps hnew hm' (.inl he)
    · exact paired_of_overlaps (fun e he => rewritten_overlaps hold hm (.inr he))
        fun e he => rewritten_overlaps hnew hm' (.inr he)
    · exact paired_of_overlaps (fun e he => rewritten_overlaps hold hm (.inl he))
        fun e he => rewritten_overlaps hnew hm' (.inl he)
  | @inside n n' c c' h hc ih =>
    obtain ⟨-, hend, hcwf⟩ := mem_of_inOrder (wellFormed_inOrder hwf) (h.mem.1 c List.mem_cons_self)
    obtain ⟨-, -, hcwf'⟩ := mem_of_inOrder (wellFormed_inOrder hwf') (h.mem.2 c' List.mem_cons_self)
    obtain ⟨_, _, hframe⟩ := hc.framed
    have hsub : ∀ {qs qs' : List (Text × Text)} {b : Bool}, SameScope qs qs' →
        Paired digest filePath x (extractNamed digest x.before filePath [c] qs b)
            (extractNamed digest x.after filePath [c'] qs' b) ∧
          Paired digest filePath x (extractBody digest x.before filePath [c] qs b)
            (extractBody digest x.after filePath [c'] qs' b) := by
      intro qs qs' b hqs
      obtain ⟨h₁, h₂⟩ := ih hcwf hcwf' (le_trans hend hlen) hqs (b := b)
      constructor
      · rw [extractNamed_cons, extractNamed_cons, extractNamed_nil, extractNamed_nil, List.append_nil, List.append_nil,
          hframe.named]
        split
        · exact h₁
        · exact .nil
      · by_cases hb : IsBody c
        · have hb' : IsBody c' := hframe.field.trans hb
          rw [extractBody_cons_of_body _ _ _ hb, extractBody_cons_of_body _ _ _ hb']
          exact h₂
        · have hb' : ¬ IsBody c' := fun h' => hb (hframe.field.symm.trans h')
          rw [extractBody_cons_of_not_body _ _ _ hb, extractBody_cons_of_not_body _ _ _ hb', extractBody_nil, extractBody_nil]
          exact .nil
    exact ⟨h.entities_paired hwf hlen hsub hps, (h.children_paired hwf hlen hps).1 (hsub hps).1⟩

end Frame

end

/-! ## Identity -/

/-- The same id and the same text in both files. -/
def Unchanged (x : Edit) (e e' : Entity) : Prop := e'.id = e.id ∧ Merge.span x.after e' = Merge.span x.before e

/-- The edit overlaps an entity of this id, in one of the two files. -/
def Touched (x : Edit) (bs ms : List Entity) (id : Text) : Prop :=
  (∃ e ∈ bs, e.id = id ∧ Overlaps x.lo x.hi e.byteRange.1 e.byteRange.2) ∨
    ∃ e ∈ ms, e.id = id ∧ Overlaps x.lo x.hi' e.byteRange.1 e.byteRange.2

section

variable {digest : Bytes → Text} {filePath : Path} {x : Edit} {bs ms : List Entity}

theorem move_eq_self (h : x.hi' = x.hi) {k : Nat} (hk : x.hi ≤ k) : x.move k = k := by
  have := move_add hk
  omega

/-- An entity that keeps its place, or whose name has no offset, keeps its id. -/
theorem Twin.id_eq {f : Nat → Nat} {e e' : Entity} (h : Twin digest filePath f e e')
    (hf : HasOffset e.kind → f e.byteRange.1 = e.byteRange.1) : e'.id = e.id := by
  rw [h.id.1, h.id.2]
  by_cases hk : HasOffset e.kind
  · obtain ⟨stem, he, he'⟩ := h.offset hk
    rw [he, he', hf hk]
  · rw [h.plain hk]

theorem span_eq_slice {content : Bytes} {e : Entity} (h : e.byteRange.2 ≤ content.length) :
    Merge.span content e = slice content e.byteRange.1 e.byteRange.2 := by
  unfold Merge.span
  rw [Nat.min_eq_left h]

theorem Mates.unchanged {e e' : Entity} (h : Mates digest filePath x e e') (hle : e.byteRange.1 ≤ e.byteRange.2)
    (hlen : e.byteRange.2 ≤ x.before.length) (hlen' : e'.byteRange.2 ≤ x.after.length)
    (hoff : x.hi' = x.hi ∨ (HasOffset e.kind → e.byteRange.1 < x.hi)) : Unchanged x e e' := by
  unfold Unchanged
  rw [span_eq_slice hlen, span_eq_slice hlen']
  rcases h with ⟨ht, hlo⟩ | ⟨ht, hhi⟩
  · refine ⟨ht.id_eq fun _ => rfl, ?_⟩
    rw [ht.byteRange]
    exact moves_front _ _ (Nat.zero_le _) hle hlo
  · refine ⟨ht.id_eq fun hk => ?_, ?_⟩
    · rcases hoff with heq | hno
      · exact move_eq_self heq hhi
      · have := hno hk
        omega
    · rw [ht.byteRange]
      exact moves_back _ _ hhi hle hlen

theorem mem_ids {es : List Entity} {id : Text} : id ∈ Merge.ids es ↔ ∃ e ∈ es, e.id = id := by
  unfold Merge.ids
  rw [List.mem_dedup, List.mem_map]

theorem byId_eq_none {es : List Entity} {id : Text} : Merge.byId es id = none ↔ id ∉ Merge.ids es := by
  unfold Merge.byId
  simp [mem_ids]

theorem byId_outsideOf {lo hi : Nat} {es : List Entity} {id : Text}
    (h : ∀ e ∈ es, e.id = id → ¬ Overlaps lo hi e.byteRange.1 e.byteRange.2) :
    Merge.byId (outsideOf lo hi es) id = Merge.byId es id := by
  unfold Merge.byId outsideOf
  rw [← List.filter_reverse, List.find?_filter]
  apply List.find?_congr
  intro e he
  by_cases hid : e.id = id
  · simpa [hid] using h e (List.mem_reverse.1 he) hid
  · simp [hid]

theorem rel_find {R : Entity → Entity → Prop} {p : Entity → Bool} (hp : ∀ e e', R e e' → p e' = p e) {l l' : List Entity}
    (h : List.Forall₂ R l l') : Option.Rel R (l.find? p) (l'.find? p) := by
  induction h with
  | nil => exact .none
  | @cons e e' _ _ hr _ ih =>
    rw [List.find?_cons, List.find?_cons, hp e e' hr]
    cases p e with
    | true => exact .some hr
    | false => exact ih

theorem rel_byId {id : Text} (h : List.Forall₂ (Unchanged x) (outsideOf x.lo x.hi bs) (outsideOf x.lo x.hi' ms))
    (hid : ¬ Touched x bs ms id) : Option.Rel (Unchanged x) (Merge.byId bs id) (Merge.byId ms id) := by
  have hb : Merge.byId (outsideOf x.lo x.hi bs) id = Merge.byId bs id :=
    byId_outsideOf fun e he hi ho => hid (.inl ⟨e, he, hi, ho⟩)
  have hm : Merge.byId (outsideOf x.lo x.hi' ms) id = Merge.byId ms id :=
    byId_outsideOf fun e he hi ho => hid (.inr ⟨e, he, hi, ho⟩)
  rw [← hb, ← hm]
  exact rel_find (fun e e' hr => by rw [hr.1]) (List.forall₂_reverse_iff.2 h)

/-! ## Reports -/

theorem mem_changedEntityIds {B M : Bytes} {id : Text} (h : id ∈ Merge.changedEntityIds bs B ms M) :
    ¬ Option.Rel (fun e e' => Merge.span M e' = Merge.span B e) (Merge.byId bs id) (Merge.byId ms id) := by
  intro hrel
  unfold Merge.changedEntityIds at h
  rcases List.mem_append.1 h with h | h
  · obtain ⟨hin, hne⟩ := List.mem_filter.1 h
    cases hb : Merge.byId bs id with
    | none =>
      rw [hb] at hrel
      cases hm : Merge.byId ms id with
      | none => exact byId_eq_none.1 hm hin
      | some m =>
        rw [hm] at hrel
        cases hrel
    | some e =>
      rw [hb] at hrel hne
      cases hm : Merge.byId ms id with
      | none => exact byId_eq_none.1 hm hin
      | some m =>
        rw [hm] at hrel hne
        cases hrel with | some he =>
        simp [he] at hne
  · obtain ⟨hin, hnot⟩ := List.mem_filter.1 h
    have hm : Merge.byId ms id = none := byId_eq_none.2 (by simpa using hnot)
    rw [hm] at hrel
    cases hb : Merge.byId bs id with
    | none => exact byId_eq_none.1 hb hin
    | some e =>
      rw [hb] at hrel
      cases hrel

theorem mem_changedEntityIds_added {B M : Bytes} {id : Text} (hb : id ∉ Merge.ids bs) (hm : id ∈ Merge.ids ms) :
    id ∈ Merge.changedEntityIds bs B ms M := by
  unfold Merge.changedEntityIds
  refine List.mem_append_left _ (List.mem_filter.2 ⟨hm, ?_⟩)
  rw [byId_eq_none.2 hb]

theorem mem_changedEntityIds_removed {B M : Bytes} {id : Text} (hb : id ∈ Merge.ids bs) (hm : id ∉ Merge.ids ms) :
    id ∈ Merge.changedEntityIds bs B ms M := by
  unfold Merge.changedEntityIds
  exact List.mem_append_right _ (List.mem_filter.2 ⟨hb, by simpa using hm⟩)

theorem entityId_overlayChange {relPath : Path} {M B : Bytes} {e : Entity} {o : Option Entity} {c : EntityChange}
    (h : Diff.overlayChange relPath M B e o = some c) :
    c.entityId = e.id ∧ ¬ Option.Rel (fun e e' => Merge.span M e' = Merge.span B e) o (some e) := by
  cases o with
  | none =>
    cases h
    exact ⟨rfl, fun hrel => by cases hrel⟩
  | some b =>
    dsimp only [Diff.overlayChange] at h
    split at h
    · rename_i hne
      cases h
      refine ⟨rfl, fun hrel => ?_⟩
      cases hrel with | some he =>
      exact hne (by rw [he])
    · cases h

theorem mem_computeEntityDiff {env : Env} {M B : Bytes} {bs ms : List Entity} {changes : List EntityChange} {c : EntityChange}
    (hbs : (env.parseRustSource filePath B).map Prod.fst = .ok bs)
    (hms : (env.parseRustSource filePath M).map Prod.fst = .ok ms)
    (h : Diff.computeEntityDiff env filePath M (some B) = .ok changes) (hc : c ∈ changes) :
    ¬ Option.Rel (fun e e' => Merge.span M e' = Merge.span B e) (Merge.byId bs c.entityId) (Merge.byId ms c.entityId) := by
  obtain ⟨rb, hrb⟩ := Merge.map_fst_ok hbs
  obtain ⟨rm, hrm⟩ := Merge.map_fst_ok hms
  unfold Diff.computeEntityDiff at h
  rw [hrm] at h
  simp only [hrb] at h
  cases h
  rcases List.mem_append.1 hc with hc | hc
  · obtain ⟨id, -, hid⟩ := List.mem_filterMap.1 hc
    obtain ⟨e, he, hch⟩ := Option.bind_eq_some_iff.1 hid
    obtain ⟨heq, hrel⟩ := entityId_overlayChange hch
    have hide := (Merge.mem_of_byId he).2
    rw [heq, hide, he]
    exact hrel
  · obtain ⟨id, hin, hid⟩ := List.mem_filterMap.1 hc
    split at hid
    · cases hid
    · rename_i hnot
      obtain ⟨e, he, rfl⟩ := Option.map_eq_some_iff.1 hid
      have hide : (Diff.change filePath e .removed none).entityId = id := (Merge.mem_of_byId he).2
      rw [hide, he, byId_eq_none.2 hnot]
      intro hrel
      cases hrel

/-! ## Offsets in names -/

theorem stem_unique {s s' d d' : Text} (hd : '@' ∉ d) (hd' : '@' ∉ d') (h : s ++ '@' :: d = s' ++ '@' :: d') : d = d' := by
  have hr := congrArg (fun l => (l.reverse).takeWhile (· ≠ '@')) h
  have htake : ∀ {u v : Text}, '@' ∉ v → ((u ++ '@' :: v).reverse).takeWhile (· ≠ '@') = v.reverse := by
    intro u v hv
    rw [List.reverse_append, List.reverse_cons, List.append_assoc, List.takeWhile_append_of_pos]
    · simp
    · intro c hc
      have : c ≠ '@' := fun he => hv (by rw [← he]; exact List.mem_reverse.1 hc)
      simpa using this
  rw [htake hd, htake hd'] at hr
  exact List.reverse_injective hr

/-- An offset entity has the qualified name of no other place. -/
theorem offset_eq {f : Nat → Nat} {e e' : Entity} {stem : Text} {k : Nat} (h : Twin digest filePath f e e')
    (hplain : ¬ HasOffset e.kind → '@' ∉ e.qualifiedName) (hq : e.qualifiedName = stem ++ '@' :: Text.ofNat k) :
    HasOffset e.kind ∧ e.byteRange.1 = k := by
  have hdigits : ∀ n, '@' ∉ Text.ofNat n := fun n => Text.not_mem_ofNat (by decide) n
  by_cases hk : HasOffset e.kind
  · obtain ⟨stem', he, -⟩ := h.offset hk
    exact ⟨hk, Text.ofNat_injective (stem_unique (hdigits _) (hdigits _) (he.symm.trans hq))⟩
  · have := hplain hk
    rw [hq] at this
    simp at this

/-! ## Locality -/

/-- The two functions report only ids that the edit touches. -/
structure Confined (env : Env) (filePath : Path) (x : Edit) (bs ms : List Entity) : Prop where
  merge : ∀ id ∈ Merge.changedEntityIds bs x.before ms x.after, Touched x bs ms id
  diff : ∀ changes, Diff.computeEntityDiff env filePath x.after (some x.before) = .ok changes →
    ∀ c ∈ changes, Touched x bs ms c.entityId

theorem confined_of_unchanged {env : Env} (hbs : (env.parseRustSource filePath x.before).map Prod.fst = .ok bs)
    (hms : (env.parseRustSource filePath x.after).map Prod.fst = .ok ms)
    (h : List.Forall₂ (Unchanged x) (outsideOf x.lo x.hi bs) (outsideOf x.lo x.hi' ms)) : Confined env filePath x bs ms := by
  have hrel : ∀ id, ¬ Touched x bs ms id →
      Option.Rel (fun e e' => Merge.span x.after e' = Merge.span x.before e) (Merge.byId bs id) (Merge.byId ms id) := by
    intro id hid
    have hu := rel_byId h hid
    generalize Merge.byId bs id = o at hu ⊢
    generalize Merge.byId ms id = o' at hu ⊢
    cases hu with
    | none => exact .none
    | some h => exact .some h.2
  constructor
  · intro id hid
    by_contra hno
    exact mem_changedEntityIds hid (hrel id hno)
  · intro changes hch c hc
    by_contra hno
    exact mem_computeEntityDiff hbs hms hch hc (hrel _ hno)

theorem exists_last (h : ∃ e ∈ bs, HasOffset e.kind ∧ x.hi ≤ e.byteRange.1) : ∃ e ∈ bs, HasOffset e.kind ∧
    x.hi ≤ e.byteRange.1 ∧ ∀ e' ∈ bs, HasOffset e'.kind → e'.byteRange.1 ≤ e.byteRange.1 := by
  induction bs with
  | nil =>
    obtain ⟨e, he, -⟩ := h
    cases he
  | cons a l ih =>
    by_cases hl : ∃ e ∈ l, HasOffset e.kind ∧ x.hi ≤ e.byteRange.1
    · obtain ⟨e, he, hk, hhi, hmax⟩ := ih hl
      by_cases ha : HasOffset a.kind ∧ e.byteRange.1 < a.byteRange.1
      · refine ⟨a, List.mem_cons_self, ha.1, by omega, fun e' he' hk' => ?_⟩
        rcases List.mem_cons.1 he' with rfl | he'
        · exact le_rfl
        · have := hmax e' he' hk'
          omega
      · refine ⟨e, List.mem_cons_of_mem _ he, hk, hhi, fun e' he' hk' => ?_⟩
        rcases List.mem_cons.1 he' with rfl | he'
        · exact not_lt.1 fun hlt => ha ⟨hk', hlt⟩
        · exact hmax e' he' hk'
    · obtain ⟨e, he, hk, hhi⟩ := h
      rcases List.mem_cons.1 he with rfl | he
      · refine ⟨e, List.mem_cons_self, hk, hhi, fun e' he' hk' => ?_⟩
        rcases List.mem_cons.1 he' with rfl | he'
        · exact le_rfl
        · have := not_le.1 fun hle => hl ⟨e', he', hk', hle⟩
          omega
      · exact absurd ⟨e, he, hk, hhi⟩ hl

theorem forall₂_imp {R S : Entity → Entity → Prop} {l l' : List Entity} (h : List.Forall₂ R l l')
    (hS : ∀ e ∈ l, ∀ e' ∈ l', R e e' → S e e') : List.Forall₂ S l l' := by
  induction h with
  | nil => exact .nil
  | cons hr _ ih =>
    exact .cons (hS _ List.mem_cons_self _ List.mem_cons_self hr)
      (ih fun e he e' he' => hS e (List.mem_cons_of_mem _ he) e' (List.mem_cons_of_mem _ he'))

theorem exists_right {R : Entity → Entity → Prop} {l l' : List Entity} (h : List.Forall₂ R l l') {e : Entity} (he : e ∈ l) :
    ∃ e' ∈ l', R e e' := by
  induction h with
  | nil => cases he
  | @cons a a' _ _ hr _ ih =>
    rcases List.mem_cons.1 he with rfl | he
    · exact ⟨a', List.mem_cons_self, hr⟩
    · obtain ⟨e', he', hr'⟩ := ih he
      exact ⟨e', List.mem_cons_of_mem _ he', hr'⟩

theorem mem_outsideOf {lo hi : Nat} {es : List Entity} {e : Entity} :
    e ∈ outsideOf lo hi es ↔ e ∈ es ∧ ¬ Overlaps lo hi e.byteRange.1 e.byteRange.2 := by
  unfold outsideOf
  simp

/-- What an edit leaves of the entities of a file. -/
structure Edit.Spared (digest : Bytes → Text) (filePath : Path) (x : Edit) (bs ms : List Entity) : Prop where
  before : Spans 0 x.before.length bs
  after : Spans 0 x.after.length ms
  named : ∀ e ∈ bs ++ ms, Twin digest filePath id e e
  paired : Paired digest filePath x bs ms

section Spared

variable (h : x.Spared digest filePath bs ms)
include h

theorem Edit.Spared.unchanged (hoff : x.hi' = x.hi ∨ ∀ e ∈ bs, HasOffset e.kind → e.byteRange.1 < x.hi) :
    List.Forall₂ (Unchanged x) (outsideOf x.lo x.hi bs) (outsideOf x.lo x.hi' ms) := by
  refine forall₂_imp h.paired fun e he e' he' hm => ?_
  have hb := (mem_outsideOf.1 he).1
  have hspan := h.before.1 e hb
  have hspan' := h.after.1 e' (mem_outsideOf.1 he').1
  exact hm.unchanged hspan.2.1.le hspan.2.2 hspan'.2.2 (hoff.imp_right fun hno => hno e hb)

variable (hplain : ∀ e ∈ bs ++ ms, ¬ HasOffset e.kind → '@' ∉ e.qualifiedName)
variable (hinj : ∀ e ∈ bs ++ ms, ∀ e' ∈ bs ++ ms, e.id = e'.id → e.qualifiedName = e'.qualifiedName)
include hplain hinj

/-- An entity with the id of an offset entity starts at the offset. -/
theorem Edit.Spared.start_eq {a e : Entity} {stem : Text} {k : Nat} (ha : a ∈ bs ++ ms) (he : e ∈ bs ++ ms)
    (hq : a.qualifiedName = stem ++ '@' :: Text.ofNat k) (hid : e.id = a.id) : HasOffset e.kind ∧ e.byteRange.1 = k :=
  offset_eq (h.named e he) (hplain e he) ((hinj e he a ha hid).trans hq)

/-- The entity with the last offset gets another one, which is new when the file grows; its own is gone when the file
shrinks. -/
theorem Edit.Spared.exists_untouched (hne : x.hi' ≠ x.hi) (hoff : ∃ e ∈ bs, HasOffset e.kind ∧ x.hi ≤ e.byteRange.1) :
    ∃ i ∈ Merge.changedEntityIds bs x.before ms x.after, ¬ Touched x bs ms i := by
  obtain ⟨e, he, hk, hhi, hmax⟩ := exists_last hoff
  have hlohi : x.lo ≤ x.hi := Nat.le_add_right _ _
  have hmove := move_add hhi
  have hout : e ∈ outsideOf x.lo x.hi bs := mem_outsideOf.2 ⟨he, fun ho => by have := ho.1; omega⟩
  obtain ⟨e', he', hmate⟩ := exists_right h.paired hout
  have htwin : Twin digest filePath x.move e e' := by
    rcases hmate with ⟨-, hlo⟩ | ⟨ht, -⟩
    · have := (h.before.1 e he).2.1
      omega
    · exact ht
  obtain ⟨stem, hq, hq'⟩ := htwin.offset hk
  rcases Nat.lt_or_gt_of_ne hne with hlt | hgt
  · have hstart : ∀ a ∈ bs ++ ms, a.id = e.id → HasOffset a.kind ∧ a.byteRange.1 = e.byteRange.1 := fun a ha hid =>
      h.start_eq hplain hinj (List.mem_append_left _ he) ha hq hid
    have hgone : ∀ m ∈ ms, m.id ≠ e.id := by
      intro m hm hmid
      obtain ⟨hmk, hms⟩ := hstart m (List.mem_append_right _ hm) hmid
      have hmout : m ∈ outsideOf x.lo x.hi' ms := mem_outsideOf.2 ⟨hm, fun ho => by have := ho.1; omega⟩
      obtain ⟨b, hb, hbm⟩ := exists_right h.paired.flip hmout
      have hb' := (mem_outsideOf.1 hb).1
      have hspan := (h.before.1 b hb').2.1
      rcases hbm with ⟨ht, hlo⟩ | ⟨ht, hbhi⟩
      · have : m.byteRange.1 = b.byteRange.1 := by rw [ht.byteRange]; rfl
        omega
      · have hmb : m.byteRange.1 = x.move b.byteRange.1 := by rw [ht.byteRange]
        have := move_add hbhi
        have := hmax b hb' (ht.kind ▸ hmk)
        omega
    refine ⟨e.id, mem_changedEntityIds_removed (mem_ids.2 ⟨e, he, rfl⟩) ?_, ?_⟩
    · intro hmem
      obtain ⟨m, hm, hmid⟩ := mem_ids.1 hmem
      exact hgone m hm hmid
    · rintro (⟨b, hb, hbid, ho⟩ | ⟨m, hm, hmid, -⟩)
      · have := (hstart b (List.mem_append_left _ hb) hbid).2
        have := ho.1
        omega
      · exact hgone m hm hmid
  · have hstart : ∀ a ∈ bs ++ ms, a.id = e'.id → HasOffset a.kind ∧ a.byteRange.1 = x.move e.byteRange.1 := fun a ha hid =>
      h.start_eq hplain hinj (List.mem_append_right _ (mem_outsideOf.1 he').1) ha hq' hid
    have hnew : ∀ b ∈ bs, b.id ≠ e'.id := by
      intro b hb hbid
      obtain ⟨hbk, hbs⟩ := hstart b (List.mem_append_left _ hb) hbid
      have := hmax b hb hbk
      omega
    refine ⟨e'.id, mem_changedEntityIds_added ?_ (mem_ids.2 ⟨e', (mem_outsideOf.1 he').1, rfl⟩), ?_⟩
    · intro hmem
      obtain ⟨b, hb, hbid⟩ := mem_ids.1 hmem
      exact hnew b hb hbid
    · rintro (⟨b, hb, hbid, -⟩ | ⟨m, hm, hmid, ho⟩)
      · exact hnew b hb hbid
      · have := (hstart m (List.mem_append_right _ hm) hmid).2
        have := ho.1
        omega

end Spared

end

/-- **What an edit reports**: the ids that the two functions report are those of entities that the edit touches, exactly
when the file keeps its length or no impl block and no use declaration comes behind the edit. -/
theorem change_detection_local_iff {ts : TreeSitter} {digest : Bytes → Text} {env : Env} {filePath : Path}
    (hparse : ∀ p c, (env.parseRustSource p c).map Prod.fst = entitiesOf ts digest p c)
    {x : Edit} {g : Nat → Nat} {t u : SyntaxNode} (ht : ts.parse x.before = some t) (hu : ts.parse x.after = some u)
    (hedit : Edited x g t u) {bs ms : List Entity} (hbs : entitiesOf ts digest filePath x.before = .ok bs)
    (hms : entitiesOf ts digest filePath x.after = .ok ms)
    (hplain : ∀ e ∈ bs ++ ms, ¬ HasOffset e.kind → '@' ∉ e.qualifiedName)
    (hinj : ∀ e ∈ bs ++ ms, ∀ e' ∈ bs ++ ms, e.id = e'.id → e.qualifiedName = e'.qualifiedName) :
    Confined env filePath x bs ms ↔
      x.new.length = x.old.length ∨ ∀ e ∈ bs, HasOffset e.kind → e.byteRange.1 < x.hi := by
  obtain ⟨hwf, hlen⟩ := ts.wellFormed _ _ ht
  obtain ⟨hwf', -⟩ := ts.wellFormed _ _ hu
  have hpaired : Paired digest filePath x bs ms := by
    have hp : Paired digest filePath x (extractEntities digest x.before filePath t [] false)
        (extractEntities digest x.after filePath u [] false) := (hedit.paired hwf hwf' hlen rfl).1
    unfold entitiesOf at hbs hms
    rw [ht] at hbs
    rw [hu] at hms
    cases hbs
    cases hms
    exact hp
  have hspared : x.Spared digest filePath bs ms :=
    { before := entitiesOf_spans _ _ _ hbs
      after := entitiesOf_spans _ _ _ hms
      named := fun e he => (List.mem_append.1 he).elim (entitiesOf_self _ _ _ hbs) (entitiesOf_self _ _ _ hms)
      paired := hpaired }
  have hlength : x.hi' = x.hi ↔ x.new.length = x.old.length := by
    unfold Edit.hi' Edit.hi
    omega
  constructor
  · intro hconf
    by_contra hno
    rw [not_or] at hno
    obtain ⟨hne, hoff⟩ := hno
    push Not at hoff
    obtain ⟨i, hi, hout⟩ := hspared.exists_untouched hplain hinj (fun heq => hne (hlength.1 heq)) hoff
    exact hout (hconf.merge i hi)
  · intro hcond
    have hunch := hspared.unchanged (hcond.imp_left hlength.2)
    exact confined_of_unchanged ((hparse _ _).trans hbs) ((hparse _ _).trans hms) hunch

/-! ## Edits before an impl block -/

/-- The node of `impl B {}`. -/
def implNode (start row : Nat) : SyntaxNode :=
  .mk "impl_item".toList none start (start + 9) row row true [
    .mk "impl".toList none start (start + 4) row row false [],
    .mk "type_identifier".toList (some "type".toList) (start + 5) (start + 6) row row true [],
    .mk "declaration_list".toList (some "body".toList) (start + 7) (start + 9) row row true []]

/-- A comment line before `impl B {}`. -/
def comment : Edit where
  pre := []
  old := []
  new := Text.intoBytes "//\n".toList
  post := Text.intoBytes "impl B {}".toList

/-- `fn a` becomes `fn b`, before `impl B {}`. -/
def aToB : Edit where
  pre := Text.intoBytes "fn ".toList
  old := Text.intoBytes "a".toList
  new := Text.intoBytes "b".toList
  post := Text.intoBytes "() {} impl B {}".toList

def commentNode : SyntaxNode := .mk "line_comment".toList none 0 2 0 0 true []

def implFile : SyntaxNode := Merge.fileNode 9 [implNode 0 0]
def commentedFile : SyntaxNode := Merge.fileNode 12 [commentNode, implNode 3 1]
def fnThenImpl : SyntaxNode := Merge.fileNode 19 [Merge.functionNode 0 9, implNode 10 0]

def editTrees : List (Bytes × SyntaxNode) :=
  [(comment.before, implFile), (comment.after, commentedFile), (aToB.before, fnThenImpl), (aToB.after, fnThenImpl)]

theorem editTrees_wellFormed : ∀ q ∈ editTrees, WellFormed q.2 ∧ q.2.endByte ≤ q.1.length := by
  simp [editTrees, WellFormed, InOrder, itemKinds, implFile, commentedFile, fnThenImpl, commentNode, implNode, Merge.fileNode,
    Merge.functionNode, SyntaxNode.startByte, SyntaxNode.endByte, SyntaxNode.field]
  decide +kernel

def editParser : TreeSitter := .ofTable editTrees editTrees_wellFormed

theorem edited_aToB : Edited aToB id fnThenImpl fnThenImpl := by
  have hframe : Framed aToB id fnThenImpl fnThenImpl [Merge.functionNode 0 9] [Merge.functionNode 0 9] :=
    { kind := rfl
      field := rfl
      named := rfl
      start := rfl
      children := ⟨[], [implNode 10 0], rfl, rfl, by simp, by simp [implNode, SyntaxNode.startByte]; decide,
        by simp [IsBody, implNode, SyntaxNode.field]⟩
      encloses := fun hk => absurd hk (by decide)
      header := by decide }
  have hfn : ∀ c ∈ [Merge.functionNode 0 9], Rewritten 3 4 c := by
    simp only [List.mem_singleton, forall_eq]
    exact .inr ⟨by decide, by simp [IsBody, Merge.functionNode, SyntaxNode.field], by decide⟩
  exact .rewritten hframe hfn hfn

theorem edited_comment : Edited comment (· + 1) implFile commentedFile := by
  have hframe : Framed comment (· + 1) implFile commentedFile [] [commentNode] :=
    { kind := rfl
      field := rfl
      named := rfl
      start := rfl
      children := ⟨[], [implNode 0 0], rfl, rfl, by simp, by simp [implNode, SyntaxNode.startByte]; decide,
        by simp [IsBody, implNode, SyntaxNode.field]⟩
      encloses := fun hk => absurd hk (by decide)
      header := by decide }
  have hnew : ∀ c ∈ [commentNode], Rewritten 0 3 c := by
    simp only [List.mem_singleton, forall_eq]
    exact .inl ⟨by decide, by decide⟩
  exact .rewritten hframe (by simp) hnew

theorem change_detection_local_iff_renamed :
    Confined (Merge.parsingEnv editParser) "a.rs".toList aToB (Merge.entitiesIn editParser aToB.before)
      (Merge.entitiesIn editParser aToB.after) := by
  have hparsed : ∀ {c : Bytes}, (editParser.parse c).isSome →
      entitiesOf editParser Text.fromUtf8Lossy "a.rs".toList c = .ok (Merge.entitiesIn editParser c) := fun h =>
    (Merge.parsingEnv_parse editParser _ _).symm.trans (Merge.parsed_entitiesIn h)
  exact (change_detection_local_iff (Merge.parsingEnv_parse editParser) (t := fnThenImpl) (u := fnThenImpl) rfl rfl edited_aToB
    (hparsed (by decide +kernel)) (hparsed (by decide +kernel)) (by unfold HasOffset; decide +kernel)
    (by decide +kernel)).2 (.inl rfl)

/-- A comment line before `impl B {}`, outside of all entities: the block is reported as removed and as added. -/
theorem moved_impl_is_reported :
    Edited comment (· + 1) implFile commentedFile ∧
    Merge.changedEntityIds (Merge.entitiesIn editParser comment.before) comment.before
      (Merge.entitiesIn editParser comment.after) comment.after = ["a.rs::B@3".toList, "a.rs::B@0".toList] ∧
    ¬ Confined (Merge.parsingEnv editParser) "a.rs".toList comment (Merge.entitiesIn editParser comment.before)
      (Merge.entitiesIn editParser comment.after) := by
  refine ⟨edited_comment, by decide +kernel, fun h => ?_⟩
  have hid := h.merge "a.rs::B@0".toList (by decide +kernel)
  revert hid
  unfold Touched
  decide +kernel

end RustSource
end Vai
