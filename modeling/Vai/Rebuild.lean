import Vai.BlastRadius
import Vai.EntityIds
import Vai.Parts
/-!
# Rebuild — the graph after any updates is the graph of the last sources

A run of `update_file` and `remove_file` from an empty snapshot, against parsing what each file was last given into an
empty snapshot.  `remove_file` deletes a relationship by either of its ends, and an end need not have a row: what the
parser finds of a file begins at the file's own entities, and the ids it names are no other file's (`Env.GraphIds`).  A
source that does not parse leaves nothing of its file, in both.

The grammars of `SourceFile` are such parsers for paths none of which goes on from another with a colon (`graphIds_parse`).
-/
namespace Vai

open Parts

/-- The ids of what a parse finds: its entities, and where its relationships lead. -/
def parsedIds (r : List Entity × List Relationship) : List Text := r.1.map Entity.id ++ r.2.map Relationship.toEntity

/-- What the rebuild takes from the parsers, for the sources that they are given: entities carry the path of their file, a
relationship starts at an entity of the same file, and ids of different files do not collide. -/
structure Env.GraphIds (env : Env) (given : Path → Bytes → Prop) : Prop where
  filePath : ∀ {p c r}, given p c → env.parseSourceFile p c = .ok r → ∀ e ∈ r.1, e.filePath = p
  starts : ∀ {p c r}, given p c → env.parseSourceFile p c = .ok r → ∀ rel ∈ r.2, rel.fromEntity ∈ r.1.map Entity.id
  apart : ∀ {p c r p' c' r'}, given p c → given p' c' → env.parseSourceFile p c = .ok r →
    env.parseSourceFile p' c' = .ok r' → ∀ i ∈ parsedIds r, i ∈ parsedIds r' → p = p'
  relationshipsApart : ∀ {p c r p' c' r'}, given p c → given p' c' → env.parseSourceFile p c = .ok r →
    env.parseSourceFile p' c' = .ok r' → ∀ rel ∈ r.2, ∀ rel' ∈ r'.2, rel.id = rel'.id → p = p'

def Anything (_ : Path) (_ : Bytes) : Prop := True

/-- The parsers, for what they are given; there is nothing in anything else. -/
noncomputable def Env.restrict (env : Env) (given : Path → Bytes → Prop) : Env :=
  { env with
    parseSourceFile := fun p c =>
      open Classical in if given p c then env.parseSourceFile p c else .ok ([], []) }

theorem Env.parseSourceFile_restrict {env : Env} {given : Path → Bytes → Prop} {p : Path} {c : Bytes} (h : given p c) :
    (env.restrict given).parseSourceFile p c = env.parseSourceFile p c := if_pos h

/-- What the restricted parsers find is in a given source, unless it is nothing. -/
theorem Env.given_of_parseSourceFile_restrict {env : Env} {given : Path → Bytes → Prop} {p : Path} {c : Bytes}
    {r : List Entity × List Relationship} (h : (env.restrict given).parseSourceFile p c = .ok r) :
    (given p c ∧ env.parseSourceFile p c = .ok r) ∨ r = ([], []) := by
  by_cases hg : given p c
  · rw [parseSourceFile_restrict hg] at h
    exact Or.inl ⟨hg, h⟩
  · have hnone : (env.restrict given).parseSourceFile p c = .ok ([], []) := if_neg hg
    rw [hnone] at h
    exact Or.inr (Except.ok.inj h).symm

theorem Env.GraphIds.restrict {env : Env} {given : Path → Bytes → Prop} (hi : env.GraphIds given) :
    (env.restrict given).GraphIds Anything where
  filePath := by
    intro p c r _ hr e he
    rcases given_of_parseSourceFile_restrict hr with ⟨hg, hr⟩ | rfl
    · exact hi.filePath hg hr e he
    · cases he
  starts := by
    intro p c r _ hr rel hrel
    rcases given_of_parseSourceFile_restrict hr with ⟨hg, hr⟩ | rfl
    · exact hi.starts hg hr rel hrel
    · cases hrel
  apart := by
    intro p c r p' c' r' _ _ hr hr' i hmem hmem'
    rcases given_of_parseSourceFile_restrict hr with ⟨hg, hr⟩ | rfl
    · rcases given_of_parseSourceFile_restrict hr' with ⟨hg', hr'⟩ | rfl
      · exact hi.apart hg hg' hr hr' i hmem hmem'
      · cases hmem'
    · cases hmem
  relationshipsApart := by
    intro p c r p' c' r' _ _ hr hr' rel hrel rel' hrel' hid
    rcases given_of_parseSourceFile_restrict hr with ⟨hg, hr⟩ | rfl
    · rcases given_of_parseSourceFile_restrict hr' with ⟨hg', hr'⟩ | rfl
      · exact hi.relationshipsApart hg hg' hr hr' rel hrel rel' hrel' hid
      · cases hrel'
    · cases hrel

/-! ## The grammars of a file -/

/-- A relationship's id tells where it starts, for ids without a colon. -/
theorem Relationship.fromEntity_eq_of_id {digest : Bytes → Text} (hdigest : Function.Injective digest)
    {kind kind' : RelationshipKind} {a b a' b' : Text} (ha : ':' ∉ a) (ha' : ':' ∉ a')
    (h : (Relationship.new digest kind a b).id = (Relationship.new digest kind' a' b').id) : a = a' := by
  have hkind : ∀ k : RelationshipKind, ':' ∉ k.asStr := by
    intro k
    cases k <;> decide
  have hsplit : ∀ (k : RelationshipKind) {a : Text} (b : Text), ':' ∉ a →
      ((Text.splitOnce ':' (k.asStr ++ "::".toList ++ a ++ "::".toList ++ b)).bind fun q =>
        Text.splitOnce ':' (q.2.drop 1)).map Prod.fst = some a := by
    intro k a b ha
    have hk : Text.splitOnce ':' (k.asStr ++ "::".toList ++ a ++ "::".toList ++ b) =
        some (k.asStr, ':' :: (a ++ ':' :: (':' :: b))) := by
      rw [List.append_assoc, List.append_assoc, List.append_assoc]
      exact Text.splitOnce_append _ (hkind k)
    rw [hk, Option.bind_some, List.drop_one, List.tail_cons, Text.splitOnce_append _ ha, Option.map_some]
  have htext := SourceFile.intoBytes_injective (hdigest h)
  have hboth := hsplit kind b ha
  rw [htext, hsplit kind' b' ha'] at hboth
  exact (Option.some.inj hboth).symm

/-- Ids of one file name no other, unless a path goes on from another with a colon. -/
theorem SourceFile.path_eq_of_computeId {digest : Bytes → Text} (hdigest : Function.Injective digest) {p p' : Path}
    {q q' : Text} (hp : ¬ p ++ [':'] <+: p') (hp' : ¬ p' ++ [':'] <+: p)
    (h : RustSource.computeId digest p q = RustSource.computeId digest p' q') : p = p' := by
  have hno : ∀ {a b : Path × Text}, Continues a b → a.1 ++ [':'] <+: b.1 := by
    rintro a b (⟨hb, -⟩ | ⟨m, hb, -⟩)
    · rw [hb]
    · refine ⟨':' :: m, ?_⟩
      rw [hb]
      simp
  rcases (computeId_eq_iff hdigest (a := (p, q)) (b := (p', q'))).1 h with h | h | h
  · exact congrArg Prod.fst h
  · exact absurd (hno h) hp
  · exact absurd (hno h) hp'

/-- **The grammars of a file are such parsers**, for a digest without collisions or colons and paths of which none goes on
from another with a colon. -/
theorem graphIds_parse {env : Env} {parsers : SourceFile.Parsers} {digest : Bytes → Text}
    (henv : env.parseSourceFile = SourceFile.parseSourceFile parsers digest) (hdigest : Function.Injective digest)
    (hcolon : ∀ b, ':' ∉ digest b) {given : Path → Bytes → Prop}
    (hpaths : ∀ p c p' c', given p c → given p' c' → ¬ p ++ [':'] <+: p') : env.GraphIds given := by
  have hids : ∀ {p c r}, env.parseSourceFile p c = .ok r → ∀ i ∈ parsedIds r, ∃ q, i = RustSource.computeId digest p q := by
    intro p c r hr i hi
    rw [henv] at hr
    rcases List.mem_append.1 hi with hi | hi
    · obtain ⟨e, he, rfl⟩ := List.mem_map.1 hi
      obtain ⟨d, hd⟩ := SourceFile.exists_reads_of_mem hr he
      exact ⟨d.label, hd.id⟩
    · obtain ⟨rel, hrel, rfl⟩ := List.mem_map.1 hi
      exact (SourceFile.parseSourceFile_emits hr hrel).leads
  have hstarts : ∀ {p c r}, env.parseSourceFile p c = .ok r → ∀ rel ∈ r.2, rel.fromEntity ∈ r.1.map Entity.id := by
    intro p c r hr rel hrel
    rw [henv] at hr
    exact (SourceFile.parseSourceFile_emits hr hrel).starts
  have hapart : ∀ {p c r p' c' r'}, given p c → given p' c' → env.parseSourceFile p c = .ok r →
      env.parseSourceFile p' c' = .ok r' → ∀ i ∈ parsedIds r, i ∈ parsedIds r' → p = p' := by
    intro p c r p' c' r' hg hg' hr hr' i hi hi'
    obtain ⟨q, hq⟩ := hids hr i hi
    obtain ⟨q', hq'⟩ := hids hr' i hi'
    exact SourceFile.path_eq_of_computeId hdigest (hpaths p c p' c' hg hg') (hpaths p' c' p c hg' hg) (hq.symm.trans hq')
  refine { filePath := fun {p c r} _ hr e he => ?_, starts := fun _ => hstarts, apart := hapart,
           relationshipsApart := fun {p c r p' c' r'} hg hg' hr hr' rel hrel rel' hrel' hid => ?_ }
  · rw [henv] at hr
    obtain ⟨d, hd⟩ := SourceFile.exists_reads_of_mem hr he
    exact hd.filePath
  · have hfrom := List.mem_append_left (r.2.map Relationship.toEntity) (hstarts hr rel hrel)
    have hfrom' := List.mem_append_left (r'.2.map Relationship.toEntity) (hstarts hr' rel' hrel')
    obtain ⟨q, hq⟩ := hids hr _ hfrom
    obtain ⟨q', hq'⟩ := hids hr' _ hfrom'
    have hplain : ':' ∉ rel.fromEntity := by
      rw [hq]
      exact hcolon _
    have hplain' : ':' ∉ rel'.fromEntity := by
      rw [hq']
      exact hcolon _
    have heq : rel.fromEntity = rel'.fromEntity := by
      rw [henv] at hr hr'
      rw [(SourceFile.parseSourceFile_emits hr hrel).new, (SourceFile.parseSourceFile_emits hr' hrel').new] at hid
      exact Relationship.fromEntity_eq_of_id hdigest hplain hplain' hid
    rw [← heq] at hfrom'
    exact hapart hg hg' hr hr' _ hfrom hfrom'

namespace GraphSnapshot

/-- The relationships of a file, as they are stored: of two with one id the later. -/
def parsedRelationships (env : Env) (p : Path) (c : Bytes) : FMap Text Relationship :=
  match env.parseSourceFile p c with
  | .ok r => FMap.ofList (r.2.map (fun rel => (rel.id, rel)))
  | .error _ => ∅

/-! ## What is stored of one file -/

variable {env : Env} {g : GraphSnapshot} {m : FMap Path Bytes} {p : Path} {c : Bytes}

theorem get_parsedRelationships {i : Text} {rel : Relationship} (h : (parsedRelationships env p c).get i = some rel) :
    rel.id = i ∧ ∃ r, env.parseSourceFile p c = .ok r ∧ rel ∈ r.2 := by
  unfold parsedRelationships at h
  cases hr : env.parseSourceFile p c with
  | error x =>
    rw [hr] at h
    simp at h
  | ok r =>
    rw [hr] at h
    obtain ⟨rel', hrel', heq⟩ := List.mem_map.1 (FMap.get_ofList_mem h)
    cases heq
    exact ⟨rfl, r, rfl, hrel'⟩

theorem isSome_parsed_fromEntity (hi : env.GraphIds Anything) {i : Text} {rel : Relationship}
    (h : (parsedRelationships env p c).get i = some rel) : ((parsed env p c).get rel.fromEntity).isSome := by
  obtain ⟨-, r, hr, hrel⟩ := get_parsedRelationships h
  obtain ⟨e, he, hid⟩ := List.mem_map.1 (hi.starts trivial hr rel hrel)
  unfold parsed
  rw [hr, ← hid]
  exact FMap.isSome_get_ofList (List.mem_map_of_mem (f := fun e : Entity => (e.id, e)) he)

theorem apart_parsed (hi : env.GraphIds Anything) : Apart (parsed env) := by
  intro p c p' c' k e e' h h'
  obtain ⟨rfl, r, hr, he⟩ := get_parsed h
  obtain ⟨hid, r', hr', he'⟩ := get_parsed h'
  refine hi.apart trivial trivial hr hr' e.id (List.mem_append_left _ (List.mem_map_of_mem he)) ?_
  rw [← hid]
  exact List.mem_append_left _ (List.mem_map_of_mem he')

theorem apart_parsedRelationships (hi : env.GraphIds Anything) : Apart (parsedRelationships env) := by
  intro p c p' c' k rel rel' h h'
  obtain ⟨rfl, r, hr, hrel⟩ := get_parsedRelationships h
  obtain ⟨hid, r', hr', hrel'⟩ := get_parsedRelationships h'
  exact hi.relationshipsApart trivial trivial hr hr' rel hrel rel' hrel' hid.symm

/-- No end of a file's relationship is an entity of another file. -/
theorem ends_apart (hi : env.GraphIds Anything) {p' : Path} {c' : Bytes} {i : Text} {rel : Relationship} {e : Entity} {k : Text}
    (h : (parsedRelationships env p c).get i = some rel) (hk : rel.fromEntity = k ∨ rel.toEntity = k)
    (he : (parsed env p' c').get k = some e) : p = p' := by
  obtain ⟨-, r, hr, hrel⟩ := get_parsedRelationships h
  obtain ⟨rfl, r', hr', he'⟩ := get_parsed he
  refine hi.apart trivial trivial hr hr' e.id ?_ (List.mem_append_left _ (List.mem_map_of_mem he'))
  rcases hk with hk | hk
  · rw [← hk]
    exact List.mem_append_left _ (hi.starts trivial hr rel hrel)
  · rw [← hk]
    exact List.mem_append_right _ (List.mem_map_of_mem hrel)

/-! ## The snapshot of some sources -/

/-- Both tables hold what the parses of the sources find. -/
structure Built (env : Env) (m : FMap Path Bytes) (g : GraphSnapshot) : Prop where
  entities : Unites (parsed env) m g.entities
  relationships : Unites (parsedRelationships env) m g.relationships

theorem built_empty (env : Env) : Built env ∅ ∅ := ⟨unites_empty _, unites_empty _⟩

theorem relationships_foldl_upsertEntity (es : List Entity) (g : GraphSnapshot) :
    (es.foldl upsertEntity g).relationships = g.relationships := by
  induction es generalizing g with
  | nil => rfl
  | cons e es ih => exact ih (g.upsertEntity e)

theorem relationships_foldl_upsertRelationship (rels : List Relationship) (g : GraphSnapshot) :
    (rels.foldl upsertRelationship g).relationships =
      (rels.map (fun rel => (rel.id, rel))).foldl (fun m q => m.insert q.1 q.2) g.relationships := by
  induction rels generalizing g with
  | nil => rfl
  | cons rel rels ih => exact ih (g.upsertRelationship rel)

theorem get_relationships_updateFile (p : Path) (c : Bytes) (i : Text) :
    (updateFile env p c g).2.relationships.get i =
      ((parsedRelationships env p c).get i).or ((g.removeFile p).relationships.get i) := by
  unfold updateFile parsedRelationships
  cases env.parseSourceFile p c with
  | error x => simp
  | ok r =>
    dsimp only
    rw [relationships_foldl_upsertRelationship, relationships_foldl_upsertEntity]
    exact FMap.get_foldl_insert _ _ i

theorem Built.mem_getEntityIdsForFile (hi : env.GraphIds Anything) (h : Built env m g) {k : Text} :
    k ∈ g.getEntityIdsForFile p ↔ ∃ c e, m.get p = some c ∧ (parsed env p c).get k = some e := by
  unfold getEntityIdsForFile
  simp only [List.mem_map, List.mem_filter, decide_eq_true_iff]
  constructor
  · rintro ⟨⟨k', e⟩, ⟨hmem, hpath⟩, rfl⟩
    obtain ⟨p', c, hm, he⟩ := (h.entities k' e).1 (FMap.mem_pairs.1 hmem)
    obtain ⟨-, r, hr, he'⟩ := get_parsed he
    obtain rfl : p' = p := (hi.filePath trivial hr e he').symm.trans hpath
    exact ⟨c, e, hm, he⟩
  · rintro ⟨c, e, hm, he⟩
    obtain ⟨-, r, hr, he'⟩ := get_parsed he
    exact ⟨(k, e), ⟨FMap.mem_pairs.2 ((h.entities k e).2 ⟨p, c, hm, he⟩), hi.filePath trivial hr e he'⟩, rfl⟩

/-- **Removing a file** removes what its source has put there, and nothing of another file. -/
theorem Built.removeFile (hi : env.GraphIds Anything) (h : Built env m g) (p : Path) : Built env (m.erase p) (g.removeFile p) where
  entities := by
    refine h.entities.erase (apart_parsed hi) (fun k e hk => ?_) fun k e hk => (get_removeFile.1 hk).1
    rw [get_removeFile, and_iff_right hk]
    obtain ⟨p', c, hm, he⟩ := (h.entities k e).1 hk
    obtain ⟨-, r, hr, he'⟩ := get_parsed he
    constructor
    · rintro hne ⟨c', -, he''⟩
      exact hne ((hi.filePath trivial hr e he').trans (apart_parsed hi he he''))
    · intro hno hpath
      obtain rfl : p' = p := (hi.filePath trivial hr e he').symm.trans hpath
      exact hno ⟨c, hm, he⟩
  relationships := by
    refine h.relationships.erase (apart_parsedRelationships hi) (fun k rel hk => ?_)
      fun k rel hk => (get_relationships_removeFile.1 hk).1
    rw [get_relationships_removeFile, and_iff_right hk, h.mem_getEntityIdsForFile hi, h.mem_getEntityIdsForFile hi]
    constructor
    · -- its start has a row, under which it is found
      rintro ⟨hfrom, -⟩ ⟨c, hm, hrel⟩
      obtain ⟨e, he⟩ := Option.isSome_iff_exists.1 (isSome_parsed_fromEntity hi hrel)
      exact hfrom ⟨c, e, hm, he⟩
    · intro hno
      obtain ⟨p', c, hm, hrel⟩ := (h.relationships k rel).1 hk
      constructor
      · rintro ⟨c', e, hm', he⟩
        cases ends_apart hi hrel (Or.inl rfl) he
        exact hno ⟨c, hm, hrel⟩
      · rintro ⟨c', e, hm', he⟩
        cases ends_apart hi hrel (Or.inr rfl) he
        exact hno ⟨c, hm, hrel⟩

/-- **Updating a file** puts what its new source has there. -/
theorem Built.updateFile (hi : env.GraphIds Anything) (h : Built env m g) (p : Path) (c : Bytes) :
    Built env (m.insert p c) (updateFile env p c g).2 where
  entities := (h.removeFile hi p).entities.insert (apart_parsed hi) (get_updateFile p c)
  relationships := (h.removeFile hi p).relationships.insert (apart_parsedRelationships hi) (get_relationships_updateFile p c)

/-! ## Runs -/

/-- A call that changes the graph. -/
inductive Call where
  | updateFile (p : Path) (source : Bytes)
  | removeFile (p : Path)

/-- A call; one that fails has done what it did before. -/
def step (env : Env) (g : GraphSnapshot) : Call → GraphSnapshot
  | .updateFile p source => (GraphSnapshot.updateFile env p source g).2
  | .removeFile p => g.removeFile p

def run (env : Env) (calls : List Call) : GraphSnapshot := calls.foldl (step env) ∅

/-- The last source given for each file not removed since. -/
def lastSources (calls : List Call) : FMap Path Bytes :=
  calls.foldl (fun m call => match call with
    | .updateFile p source => m.insert p source
    | .removeFile p => m.erase p) ∅

/-- The files parsed into an empty snapshot, in this order. -/
def rebuilt (env : Env) (files : List (Path × Bytes)) : GraphSnapshot :=
  run env (files.map fun q => .updateFile q.1 q.2)

theorem built_run (hi : env.GraphIds Anything) (calls : List Call) : Built env (lastSources calls) (run env calls) := by
  unfold lastSources run
  induction calls using List.reverseRecOn with
  | nil => exact built_empty env
  | append_singleton calls call ih =>
    rw [List.foldl_append, List.foldl_append]
    cases call with
    | updateFile p source => exact ih.updateFile hi p source
    | removeFile p => exact ih.removeFile hi p

theorem lastSources_updates (files : List (Path × Bytes)) :
    lastSources (files.map fun q => .updateFile q.1 q.2) = FMap.ofList files := by
  unfold lastSources FMap.ofList
  rw [List.foldl_map]

/-- The sources that the calls give to the parsers. -/
def Given (calls : List Call) (p : Path) (c : Bytes) : Prop := .updateFile p c ∈ calls

theorem given_of_lastSources {calls : List Call} {p : Path} {c : Bytes} (h : (lastSources calls).get p = some c) :
    Given calls p c := by
  unfold lastSources at h
  unfold Given
  induction calls using List.reverseRecOn with
  | nil => simp at h
  | append_singleton calls call ih =>
    rw [List.foldl_append] at h
    cases call with
    | updateFile p' c' =>
      rw [List.foldl_cons, List.foldl_nil, FMap.get_insert] at h
      split at h
      · rename_i hp
        cases h
        rw [hp]
        simp
      · exact List.mem_append_left _ (ih h)
    | removeFile p' =>
      rw [List.foldl_cons, List.foldl_nil, FMap.get_erase] at h
      split at h
      · cases h
      · exact List.mem_append_left _ (ih h)

/-- A run reads of the parsers what they say of the sources given. -/
theorem run_restrict {given : Path → Bytes → Prop} {calls : List Call} (h : ∀ p c, Given calls p c → given p c) :
    run (env.restrict given) calls = run env calls := by
  unfold run
  refine List.foldl_ext _ _ _ fun g call hcall => ?_
  cases call with
  | updateFile p c =>
    have hparse : (env.restrict given).parseSourceFile p c = env.parseSourceFile p c :=
      Env.parseSourceFile_restrict (h p c hcall)
    dsimp only [step]
    unfold GraphSnapshot.updateFile
    rw [hparse]
  | removeFile p => rfl

/-- **Incremental updates are a rebuild**: after any calls, both tables hold what parsing the last source of every file
not removed since stores in an empty snapshot, in whatever order the files are parsed. -/
theorem run_eq_rebuilt (calls : List Call) (hi : env.GraphIds (Given calls)) (files : List (Path × Bytes))
    (hfiles : files.Perm (lastSources calls).pairs) :
    (∀ i, (run env calls).entities.get i = (rebuilt env files).entities.get i) ∧
      ∀ i, (run env calls).relationships.get i = (rebuilt env files).relationships.get i := by
  have hsources : ∀ p, (lastSources calls).get p = (lastSources (files.map fun q => .updateFile q.1 q.2)).get p := by
    intro p
    rw [lastSources_updates]
    refine (FMap.get_ofList_of_mem_iff (fun p c => ?_) p).symm
    rw [hfiles.mem_iff, FMap.mem_pairs]
  have hgiven : ∀ p c, Given (files.map fun q => .updateFile q.1 q.2) p c → Given calls p c := by
    intro p c h
    obtain ⟨q, hq, heq⟩ := List.mem_map.1 h
    cases heq
    exact given_of_lastSources (FMap.mem_pairs.1 (hfiles.mem_iff.1 hq))
  have hrun := built_run hi.restrict calls
  have hrebuilt := built_run hi.restrict (files.map fun q => .updateFile q.1 q.2)
  rw [run_restrict fun p c h => h] at hrun
  rw [run_restrict hgiven] at hrebuilt
  exact ⟨hrun.entities.get_eq hrebuilt.entities hsources, hrun.relationships.get_eq hrebuilt.relationships hsources⟩

/-- `class A extends B{}`: there is no `B` in the file. -/
def extendsSource : Bytes := Text.intoBytes "class A extends B{}".toList

open SourceFile (nodeAt tokenAt) in
def extendsFile : SyntaxNode :=
  nodeAt "program" none 0 19 [
    nodeAt "class_declaration" none 0 19 [
      tokenAt "class" 0,
      nodeAt "type_identifier" (some "name") 6 7 [],
      nodeAt "class_heritage" none 8 17 [
        nodeAt "extends_clause" none 8 17 [tokenAt "extends" 8, nodeAt "identifier" (some "value") 16 17 []]],
      nodeAt "class_body" (some "body") 17 19 [tokenAt "\x7b" 17, tokenAt "\x7d" 18]]]

theorem extendsFile_wellFormed : TsSource.WellFormed extendsFile := by
  simp [extendsFile, SourceFile.nodeAt, SourceFile.tokenAt, TsSource.WellFormed, TsSource.InOrder, TsSource.statementKinds,
    TsSource.scopeKinds, SyntaxNode.startByte, SyntaxNode.endByte, SyntaxNode.field]
  decide

/-- Grammars that know two files. -/
def classParsers : SourceFile.Parsers :=
  .ofTable [(extendsSource, extendsFile), (SourceFile.accessorsSource, SourceFile.accessorsFile)]
    (by simp [extendsFile_wellFormed, SourceFile.accessorsFile_wellFormed])

def classEnv : Env := { Env.plain with parseSourceFile := SourceFile.parseSourceFile classParsers SourceFile.spelled }

/-- Two files that change places, one of them removed in between. -/
def classCalls : List Call :=
  [.updateFile "a.ts".toList extendsSource, .updateFile "b.ts".toList SourceFile.accessorsSource, .removeFile "a.ts".toList,
    .updateFile "b.ts".toList extendsSource, .updateFile "a.ts".toList SourceFile.accessorsSource]

theorem classCalls_eq_rebuilt :
    (∀ i, (run classEnv classCalls).entities.get i =
        (rebuilt classEnv [("a.ts".toList, SourceFile.accessorsSource), ("b.ts".toList, extendsSource)]).entities.get i) ∧
      ∀ i, (run classEnv classCalls).relationships.get i =
        (rebuilt classEnv [("a.ts".toList, SourceFile.accessorsSource), ("b.ts".toList, extendsSource)]).relationships.get i := by
  refine run_eq_rebuilt classCalls (graphIds_parse rfl SourceFile.spelled_injective SourceFile.not_mem_spelled ?_) _
    (by decide +kernel)
  intro p c p' c' h h'
  have hmem : ∀ {p c}, Given classCalls p c → p ∈ ["a.ts".toList, "b.ts".toList] := by
    intro p c h
    unfold Given classCalls at h
    simp only [List.mem_cons, Call.updateFile.injEq, reduceCtorEq, List.not_mem_nil, or_false, false_or] at h
    rcases h with ⟨rfl, -⟩ | ⟨rfl, -⟩ | ⟨rfl, -⟩ | ⟨rfl, -⟩ <;> decide
  have hdistinct : ∀ p ∈ ["a.ts".toList, "b.ts".toList], ∀ p' ∈ ["a.ts".toList, "b.ts".toList], ¬ p ++ [':'] <+: p' := by decide
  exact hdistinct p (hmem h) p' (hmem h')

end GraphSnapshot
end Vai
