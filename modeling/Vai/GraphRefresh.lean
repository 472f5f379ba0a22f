import Vai.ServerGraph
import Vai.Rebuild
/-!
# GraphRefresh — the server's graph after refreshes that may fail

`refresh_graph_from_files` of `server/graph.rs`: the rows of every file that is scanned are deleted and stored again, with
one statement for each and no transaction around them.  A statement may fail, with or without its effect, and the refresh
ends there.  A file that is not listed, ignored, not readable or not parseable is passed over, and so are its rows.

What is in `vai.toml` is a parameter, as are the parsers.  The lock of the repository keeps refreshes apart, those that
follow a submit too.  The endpoint's walk over a local repository is left out.
-/
namespace Vai
namespace GraphRefresh

open Proc GraphSnapshot

/-! ## The stores -/

/-- One reading of a repository's files: a path is there once, and listed by what it begins with. -/
structure FileStore where
  get : Path → Except StorageError Bytes
  list : Text → Except StorageError (List Path)
  nodup : ∀ {pre paths}, list pre = .ok paths → paths.Nodup
  within : ∀ {pre paths}, list pre = .ok paths → ∀ p ∈ paths, pre <+: p

/-- What becomes of a statement: done, not done, or done with its answer lost. -/
inductive Reply where
  | done | refused | lost
deriving DecidableEq, Repr

/-- The tables, and what becomes of the statements to come; those after the last are done. -/
structure Db where
  tables : GraphSnapshot
  replies : List Reply

def execute (f : GraphSnapshot → GraphSnapshot) : Proc Db StorageError Unit := fun db =>
  match db.replies with
  | [] => (.ok (), ⟨f db.tables, []⟩)
  | .done :: rest => (.ok (), ⟨f db.tables, rest⟩)
  | .refused :: rest => (.error (.database []), ⟨db.tables, rest⟩)
  | .lost :: rest => (.error (.database []), ⟨f db.tables, rest⟩)

def deleteRelationships (p : Path) (g : GraphSnapshot) : GraphSnapshot :=
  { g with relationships := g.relationships.filter fun _ r => r.fromEntity ∉ g.getEntityIdsForFile p }

def deleteEntities (p : Path) (g : GraphSnapshot) : GraphSnapshot :=
  { g with entities := g.entities.filter fun _ e => e.filePath ≠ p }

def clearFile (p : Path) : Proc Db StorageError Unit := do
  execute (deleteRelationships p)
  execute (deleteEntities p)

def upsertEntities (entities : List Entity) : Proc Db StorageError Unit :=
  entities.forM fun e => execute fun g => g.upsertEntity e

def upsertRelationships (rels : List Relationship) : Proc Db StorageError Unit :=
  rels.forM fun r => execute fun g => g.upsertRelationship r

/-! ## The refresh -/

def graphParseableExtensions : List Text := ["rs".toList, "ts".toList, "js".toList, "tsx".toList, "jsx".toList]

def currentPrefix : Text := "current/".toList

/-- `VaiToml::default().ignore`. -/
def defaultIgnore : List Text :=
  [".vai/", ".git/", "target/", "node_modules/", "*.o", "*.class", ".env", ".env.local", ".env.development", ".env.production",
    ".env.test", "*.pem", "*.key", "id_rsa", "id_ed25519"].map String.toList

section Refresh

variable (env : Env) (vaiToml : Bytes → Option (List Text)) (store : FileStore)

/-- The patterns of `vai.toml`; the default ones only where it does not parse. -/
def ignore : List Text :=
  match store.get (currentPrefix ++ "vai.toml".toList) with
  | .ok bytes => (vaiToml bytes).getD defaultIgnore
  | .error _ => []

def relative (path : Path) : Path := (Text.stripPrefix currentPrefix path).getD path

/-- A file that is refreshed, its source, and what is in it; `none` for one that is passed over. -/
def scanned (path : Path) : Option (Path × Bytes × List Entity × List Relationship) :=
  let rel := relative path
  if (ignore vaiToml store).any (·.isPrefixOf rel) then none
  else if (FilePath.extension rel).getD [] ∉ graphParseableExtensions then none
  else match store.get path with
    | .error _ => none
    | .ok source => match env.parseSourceFile rel source with
      | .error _ => none
      | .ok r => some (rel, source, r)

/-- One file; the totals are of files, entities and relationships. -/
def refreshFile (totals : Nat × Nat × Nat) (path : Path) : Proc Db ApiError (Nat × Nat × Nat) :=
  match scanned env vaiToml store path with
  | none => pure totals
  | some (rel, _, entities, rels) => do
    mapErr (fun _ => .internal) (clearFile rel)
    (if entities ≠ [] then mapErr (fun _ => .internal) (upsertEntities entities) else pure ())
    (if rels ≠ [] then mapErr (fun _ => .internal) (upsertRelationships rels) else pure ())
    pure (totals.1 + 1, totals.2.1 + entities.length, totals.2.2 + rels.length)

def refreshGraphFromFiles : Proc Db ApiError (Nat × Nat × Nat) := do
  let allFiles ← ofExcept (fun _ => .internal) (store.list currentPrefix)
  allFiles.foldlM (refreshFile env vaiToml store) (0, 0, 0)

end Refresh

/-! ## Rows of one file -/

/-- A row of the file. -/
def EntityIn (g : GraphSnapshot) (p : Path) (i : Text) (e : Entity) : Prop := g.entities.get i = some e ∧ e.filePath = p

/-- A relationship that starts at a row of the file. -/
def RelationshipIn (g : GraphSnapshot) (p : Path) (i : Text) (rel : Relationship) : Prop :=
  g.relationships.get i = some rel ∧ ∃ e, EntityIn g p rel.fromEntity e

/-- The rows of one file are the same in both. -/
structure Same (p : Path) (g g' : GraphSnapshot) : Prop where
  entities : ∀ i e, EntityIn g' p i e ↔ EntityIn g p i e
  relationships : ∀ i rel, RelationshipIn g' p i rel ↔ RelationshipIn g p i rel

theorem Same.refl (p : Path) (g : GraphSnapshot) : Same p g g := ⟨fun _ _ => Iff.rfl, fun _ _ => Iff.rfl⟩

theorem Same.trans {p : Path} {g g' g'' : GraphSnapshot} (h : Same p g g') (h' : Same p g' g'') : Same p g g'' :=
  ⟨fun i e => (h'.entities i e).trans (h.entities i e), fun i rel => (h'.relationships i rel).trans (h.relationships i rel)⟩

/-- The rows of a file are those of one parse. -/
structure Exact (env : Env) (p : Path) (c : Bytes) (g : GraphSnapshot) : Prop where
  entities : ∀ i e, EntityIn g p i e ↔ (parsed env p c).get i = some e
  relationships : ∀ i rel, RelationshipIn g p i rel ↔ (parsedRelationships env p c).get i = some rel

theorem Exact.same {env : Env} {p : Path} {c : Bytes} {g g' : GraphSnapshot} (h : Exact env p c g) (hs : Same p g g') :
    Exact env p c g' :=
  ⟨fun i e => (hs.entities i e).trans (h.entities i e), fun i rel => (hs.relationships i rel).trans (h.relationships i rel)⟩

/-- Every row is of a given source, and every relationship starts at a row. -/
structure Sound (env : Env) (given : Path → Bytes → Prop) (g : GraphSnapshot) : Prop where
  entities : ∀ {i e}, g.entities.get i = some e →
    ∃ c r, given e.filePath c ∧ env.parseSourceFile e.filePath c = .ok r ∧ e ∈ r.1 ∧ e.id = i
  relationships : ∀ {i rel}, g.relationships.get i = some rel → ∃ e c r, g.entities.get rel.fromEntity = some e ∧
    given e.filePath c ∧ env.parseSourceFile e.filePath c = .ok r ∧ rel ∈ r.2 ∧ rel.id = i

theorem sound_empty (env : Env) (given : Path → Bytes → Prop) : Sound env given ∅ := by
  constructor
  · intro i e h
    have h : FMap.get (∅ : FMap Text Entity) i = some e := h
    rw [FMap.get_empty] at h
    cases h
  · intro i rel h
    have h : FMap.get (∅ : FMap Text Relationship) i = some rel := h
    rw [FMap.get_empty] at h
    cases h

/-- What statements on one file keep: the tables are sound, and the rows of the others are the same. -/
structure Spares (env : Env) (given : Path → Bytes → Prop) (q : Path) (g g' : GraphSnapshot) : Prop where
  sound : Sound env given g'
  others : ∀ p, p ≠ q → Same p g g'

section Statements

variable {env : Env} {given : Path → Bytes → Prop} {g g' g'' : GraphSnapshot} {q : Path} {c : Bytes}
  {r : List Entity × List Relationship}

theorem Spares.trans (h : Spares env given q g g') (h' : Spares env given q g' g'') : Spares env given q g g'' :=
  ⟨h'.sound, fun p hp => (h.others p hp).trans (h'.others p hp)⟩

theorem Sound.spares (h : Sound env given g) (q : Path) : Spares env given q g g := ⟨h, fun p _ => .refl p g⟩

theorem mem_getEntityIdsForFile {p : Path} {k : Text} : k ∈ g.getEntityIdsForFile p ↔ ∃ e, EntityIn g p k e := by
  unfold getEntityIdsForFile EntityIn
  simp only [List.mem_map, List.mem_filter, decide_eq_true_iff]
  constructor
  · rintro ⟨⟨k', e⟩, ⟨hmem, hpath⟩, rfl⟩
    exact ⟨e, FMap.mem_pairs.1 hmem, hpath⟩
  · rintro ⟨e, hget, hpath⟩
    exact ⟨(k, e), ⟨FMap.mem_pairs.2 hget, hpath⟩, rfl⟩

theorem EntityIn.path_eq {p p' : Path} {i : Text} {e e' : Entity} (h : EntityIn g p i e) (h' : EntityIn g p' i e') : p = p' := by
  obtain ⟨hget, rfl⟩ := h
  obtain ⟨hget', rfl⟩ := h'
  rw [hget] at hget'
  cases hget'
  rfl

theorem Sound.filePath_eq (hi : env.GraphIds given) (hs : Sound env given g) (hg : given q c)
    (hr : env.parseSourceFile q c = .ok r) {e e' : Entity} (he : e ∈ r.1) (hget : g.entities.get e.id = some e') :
    e'.filePath = q := by
  obtain ⟨c', r', hg', hr', he', hid⟩ := hs.entities hget
  refine hi.apart hg' hg hr' hr e'.id (List.mem_append_left _ (List.mem_map_of_mem he')) ?_
  rw [hid]
  exact List.mem_append_left _ (List.mem_map_of_mem he)

/-- Where the rows of a file are the same, so are the relationships that are in both tables. -/
theorem same_of_entities {p : Path} (he : ∀ i e, EntityIn g' p i e ↔ EntityIn g p i e)
    (hr : ∀ i rel, (∃ e, EntityIn g p rel.fromEntity e) → (g'.relationships.get i = some rel ↔ g.relationships.get i = some rel)) :
    Same p g g' := by
  refine ⟨he, fun i rel => ?_⟩
  unfold RelationshipIn
  simp only [he]
  exact and_congr_left fun h => hr i rel h

/-! ### Deleting -/

theorem spares_deleteRelationships (hs : Sound env given g) (q : Path) :
    Spares env given q g (deleteRelationships q g) ∧ ∀ i rel, ¬ RelationshipIn (deleteRelationships q g) q i rel := by
  have hget : ∀ i rel, (deleteRelationships q g).relationships.get i = some rel ↔
      g.relationships.get i = some rel ∧ ¬ ∃ e, EntityIn g q rel.fromEntity e := by
    intro i rel
    unfold deleteRelationships
    dsimp only
    rw [FMap.get_filter, decide_eq_true_iff, mem_getEntityIdsForFile]
  refine ⟨⟨⟨hs.entities, fun h => hs.relationships ((hget _ _).1 h).1⟩, fun p hp => ?_⟩, ?_⟩
  · refine same_of_entities (fun _ _ => Iff.rfl) fun i rel ⟨e, he⟩ => ?_
    rw [hget]
    exact and_iff_left fun ⟨e', he'⟩ => hp (he.path_eq he')
  · rintro i rel ⟨hrel, hrow⟩
    exact ((hget i rel).1 hrel).2 hrow

theorem spares_deleteEntities (hs : Sound env given g) (hnone : ∀ i rel, ¬ RelationshipIn g q i rel) :
    Spares env given q g (deleteEntities q g) ∧ ∀ i e, ¬ EntityIn (deleteEntities q g) q i e := by
  have hget : ∀ i e, (deleteEntities q g).entities.get i = some e ↔ g.entities.get i = some e ∧ e.filePath ≠ q := by
    intro i e
    unfold deleteEntities
    dsimp only
    rw [FMap.get_filter, decide_eq_true_iff]
  refine ⟨⟨⟨fun h => hs.entities ((hget _ _).1 h).1, fun {i rel} h => ?_⟩, fun p hp => ?_⟩, ?_⟩
  · -- the row at which it starts is of another file, and stays
    obtain ⟨e, c, r, hrow, hsource⟩ := hs.relationships h
    have hother : e.filePath ≠ q := fun hpath => hnone i rel ⟨h, e, hrow, hpath⟩
    exact ⟨e, c, r, (hget _ _).2 ⟨hrow, hother⟩, hsource⟩
  · refine same_of_entities (fun i e => ?_) fun _ _ _ => Iff.rfl
    unfold EntityIn
    rw [hget, and_assoc]
    refine and_congr_right fun _ => ?_
    constructor
    · exact fun h => h.2
    · rintro rfl
      exact ⟨hp, rfl⟩
  · rintro i e ⟨hrow, hpath⟩
    exact ((hget i e).1 hrow).2 hpath

/-! ### Storing -/

theorem Sound.upsertEntity (hi : env.GraphIds given) (hs : Sound env given g) (hg : given q c)
    (hr : env.parseSourceFile q c = .ok r) {e : Entity} (he : e ∈ r.1) : Spares env given q g (g.upsertEntity e) := by
  have hpath : e.filePath = q := hi.filePath hg hr e he
  have hget : ∀ i, (g.upsertEntity e).entities.get i = if i = e.id then some e else g.entities.get i := fun i =>
    FMap.get_insert _ _ _ _
  refine ⟨⟨fun {i e'} h => ?_, fun {i rel} h => ?_⟩, fun p hp => same_of_entities (fun i e' => ?_) fun _ _ _ => Iff.rfl⟩
  · rw [hget] at h
    split at h
    · rename_i hid
      cases h
      exact ⟨c, r, by rw [hpath]; exact hg, by rw [hpath]; exact hr, he, hid.symm⟩
    · exact hs.entities h
  · obtain ⟨e', c', r', hrow, hg', hr', hrel⟩ := hs.relationships h
    by_cases hid : rel.fromEntity = e.id
    · rw [hid] at hrow
      have hsame : e'.filePath = e.filePath := (hs.filePath_eq hi hg hr he hrow).trans hpath.symm
      rw [hsame] at hg' hr'
      exact ⟨e, c', r', by rw [hget, if_pos hid], hg', hr', hrel⟩
    · exact ⟨e', c', r', by rw [hget, if_neg hid, hrow], hg', hr', hrel⟩
  · unfold EntityIn
    rw [hget]
    by_cases hid : i = e.id
    · -- no row of another file is overwritten
      rw [if_pos hid, hid]
      constructor
      · rintro ⟨heq, hp'⟩
        cases heq
        exact absurd (hp'.symm.trans hpath) hp
      · rintro ⟨hrow, hp'⟩
        exact absurd (hp'.symm.trans (hs.filePath_eq hi hg hr he hrow)) hp
    · rw [if_neg hid]

theorem Sound.upsertRelationship (hi : env.GraphIds given) (hs : Sound env given g) (hg : given q c)
    (hr : env.parseSourceFile q c = .ok r) {rel : Relationship} (hrel : rel ∈ r.2) (hrow : ∃ e, EntityIn g q rel.fromEntity e) :
    Spares env given q g (g.upsertRelationship rel) := by
  have hget : ∀ i, (g.upsertRelationship rel).relationships.get i =
      if i = rel.id then some rel else g.relationships.get i := fun i => FMap.get_insert _ _ _ _
  refine ⟨⟨hs.entities, fun {i rel'} h => ?_⟩, fun p hp => same_of_entities (fun _ _ => Iff.rfl) fun i rel' hrow' => ?_⟩
  · rw [hget] at h
    split at h
    · rename_i hid
      cases h
      obtain ⟨e, hgete, hpath⟩ := hrow
      rw [← hpath] at hg hr
      exact ⟨e, c, r, hgete, hg, hr, hrel, hid.symm⟩
    · exact hs.relationships h
  · rw [hget]
    obtain ⟨e', hrow'⟩ := hrow'
    by_cases hid : i = rel.id
    · rw [if_pos hid, hid]
      constructor
      · rintro heq
        cases heq
        obtain ⟨e, hrow⟩ := hrow
        exact absurd (hrow'.path_eq hrow) hp
      · intro h
        obtain ⟨e₀, c', r', hget₀, hg', hr', hmem, hid'⟩ := hs.relationships h
        have hsame := hi.relationshipsApart hg' hg hr' hr rel' hmem rel hrel hid'
        exact absurd (hrow'.path_eq ⟨hget₀, hsame⟩) hp
    · rw [if_neg hid]

/-! ### All of a file's -/

theorem spares_upsertEntities (hi : env.GraphIds given) (hg : given q c) (hr : env.parseSourceFile q c = .ok r)
    (es : List Entity) (hes : ∀ e ∈ es, e ∈ r.1) (hs : Sound env given g) :
    Spares env given q g (es.foldl GraphSnapshot.upsertEntity g) := by
  induction es generalizing g with
  | nil => exact hs.spares q
  | cons e es ih =>
    have hstep := hs.upsertEntity hi hg hr (hes e List.mem_cons_self)
    exact hstep.trans (ih (fun e' he' => hes e' (List.mem_cons_of_mem e he')) hstep.sound)

theorem spares_upsertRelationships (hi : env.GraphIds given) (hg : given q c) (hr : env.parseSourceFile q c = .ok r)
    (rels : List Relationship) (hrels : ∀ rel ∈ rels, rel ∈ r.2) (hs : Sound env given g)
    (hrows : ∀ rel ∈ rels, ∃ e, EntityIn g q rel.fromEntity e) :
    Spares env given q g (rels.foldl GraphSnapshot.upsertRelationship g) := by
  induction rels generalizing g with
  | nil => exact hs.spares q
  | cons rel rels ih =>
    have hstep := hs.upsertRelationship hi hg hr (hrels rel List.mem_cons_self) (hrows rel List.mem_cons_self)
    exact hstep.trans (ih (fun rel' hrel' => hrels rel' (List.mem_cons_of_mem rel hrel')) hstep.sound
      fun rel' hrel' => hrows rel' (List.mem_cons_of_mem rel hrel'))

/-- What is in the table of entities when those of a file have been stored. -/
theorem get_upsertEntities (hr : env.parseSourceFile q c = .ok r) (g : GraphSnapshot) (i : Text) :
    (r.1.foldl GraphSnapshot.upsertEntity g).entities.get i = ((parsed env q c).get i).or (g.entities.get i) := by
  unfold parsed
  rw [hr, entities_foldl_upsertEntity]
  exact FMap.get_foldl_insert _ _ i

theorem get_upsertRelationships (hr : env.parseSourceFile q c = .ok r) (g : GraphSnapshot) (i : Text) :
    (r.2.foldl GraphSnapshot.upsertRelationship g).relationships.get i =
      ((parsedRelationships env q c).get i).or (g.relationships.get i) := by
  unfold parsedRelationships
  rw [hr, relationships_foldl_upsertRelationship]
  exact FMap.get_foldl_insert _ _ i

/-- Over tables without a row of the file, its entities are its rows. -/
theorem entityIn_upsertEntities (hi : env.GraphIds given) (hg : given q c) (hr : env.parseSourceFile q c = .ok r)
    (hnone : ∀ i e, ¬ EntityIn g q i e) (i : Text) (e : Entity) :
    EntityIn (r.1.foldl GraphSnapshot.upsertEntity g) q i e ↔ (parsed env q c).get i = some e := by
  unfold EntityIn
  rw [get_upsertEntities hr]
  cases hp : (parsed env q c).get i with
  | some e' =>
    obtain ⟨-, r', hr', he'⟩ := get_parsed hp
    rw [Option.some_or]
    refine and_iff_left_of_imp fun h => ?_
    cases h
    exact hi.filePath hg hr' _ he'
  | none =>
    rw [Option.none_or]
    constructor
    · exact fun h => absurd h (hnone i e)
    · intro h
      cases h

/-- Every relationship of a file starts at one of its entities. -/
theorem exists_parsed_fromEntity (hi : env.GraphIds given) (hg : given q c) (hr : env.parseSourceFile q c = .ok r)
    {rel : Relationship} (hrel : rel ∈ r.2) : ∃ e, (parsed env q c).get rel.fromEntity = some e := by
  obtain ⟨e, he, hid⟩ := List.mem_map.1 (hi.starts hg hr rel hrel)
  unfold parsed
  rw [hr, ← hid]
  exact Option.isSome_iff_exists.1 (FMap.isSome_get_ofList (List.mem_map_of_mem (f := fun e : Entity => (e.id, e)) he))

/-- **Over tables without a row of the file, what is stored is exactly its parse**, and nothing of another file changes. -/
theorem exact_upserts (hi : env.GraphIds given) (hg : given q c) (hr : env.parseSourceFile q c = .ok r)
    (hs : Sound env given g) (hnone : ∀ i e, ¬ EntityIn g q i e) :
    Spares env given q g (r.2.foldl GraphSnapshot.upsertRelationship (r.1.foldl GraphSnapshot.upsertEntity g)) ∧
      Exact env q c (r.2.foldl GraphSnapshot.upsertRelationship (r.1.foldl GraphSnapshot.upsertEntity g)) := by
  have hentity := entityIn_upsertEntities hi hg hr hnone
  have hrows : ∀ rel ∈ r.2, ∃ e, EntityIn (r.1.foldl GraphSnapshot.upsertEntity g) q rel.fromEntity e := by
    intro rel hrel
    obtain ⟨e, he⟩ := exists_parsed_fromEntity hi hg hr hrel
    exact ⟨e, (hentity _ _).2 he⟩
  have hfirst := spares_upsertEntities hi hg hr r.1 (fun _ h => h) hs
  have hspares := hfirst.trans (spares_upsertRelationships hi hg hr r.2 (fun _ h => h) hfirst.sound hrows)
  have hexact : ∀ i e, EntityIn (r.2.foldl GraphSnapshot.upsertRelationship (r.1.foldl GraphSnapshot.upsertEntity g)) q i e ↔
      (parsed env q c).get i = some e := by
    intro i e
    rw [← hentity i e]
    unfold EntityIn
    rw [entities_foldl_upsertRelationship]
  refine ⟨hspares, hexact, fun i rel => ⟨fun ⟨hrel, e, he⟩ => ?_, fun h => ?_⟩⟩
  · have htable := hrel
    rw [get_upsertRelationships hr] at htable
    cases hp : (parsedRelationships env q c).get i with
    | some rel' =>
      rw [hp, Option.some_or] at htable
      exact htable
    | none =>
      -- one that has been there starts at a row of another file
      rw [hp, Option.none_or, relationships_foldl_upsertEntity] at htable
      obtain ⟨e₀, -, -, hrow, -⟩ := hs.relationships htable
      have hother : e₀.filePath ≠ q := fun hpath => hnone _ _ ⟨hrow, hpath⟩
      obtain ⟨-, e', he'⟩ := ((hspares.others _ hother).relationships i rel).2 ⟨htable, e₀, hrow, rfl⟩
      exact absurd (he'.path_eq he) hother
  · obtain ⟨hid, r', hr', hmem⟩ := get_parsedRelationships h
    obtain ⟨e, he⟩ := exists_parsed_fromEntity hi hg hr' hmem
    exact ⟨by rw [get_upsertRelationships hr, h, Option.some_or], e, (hexact _ _).2 he⟩

/-! ## Statements that may fail -/

variable {db : Db}

theorem ends_execute (f : GraphSnapshot → GraphSnapshot) (db : Db) :
    Ends (execute f) db (fun _ db' => db'.tables = f db.tables)
      (fun _ db' => db'.tables = db.tables ∨ db'.tables = f db.tables) := by
  obtain ⟨tables, replies⟩ := db
  unfold Ends execute
  cases replies with
  | nil => rfl
  | cons reply rest =>
    cases reply with
    | done => rfl
    | refused => exact .inl rfl
    | lost => exact .inr rfl

/-- One statement for each element, and nothing for none: a failure leaves some first part of them done. -/
theorem ends_statements {α : Type} [DecidableEq α] (f : GraphSnapshot → α → GraphSnapshot) {l : List α} {I : GraphSnapshot → Prop}
    (hpart : ∀ done rest, l = done ++ rest → I (done.foldl f db.tables)) :
    Ends (if l ≠ [] then mapErr (fun _ => ApiError.internal) (l.forM fun a => execute fun g => f g a) else pure ()) db
      (fun _ db' => db'.tables = l.foldl f db.tables) (fun _ db' => I db'.tables) := by
  by_cases hempty : l = []
  · rw [if_neg (not_not_intro hempty), hempty]
    exact ends_pure rfl
  · rw [if_pos hempty]
    refine ends_mapErr (ends_forM (fun done db' => db'.tables = done.foldl f db.tables) l [] db rfl fun done a rest db' hl hdone => ?_)
    have hl : l = done ++ a :: rest := hl
    have hnext : (done ++ [a]).foldl f db.tables = f db'.tables a := by
      rw [List.foldl_append, ← hdone]
      rfl
    refine (ends_execute (fun g => f g a) db').mono (fun _ db'' h => by rw [h, hnext]) fun _ db'' h => ?_
    rcases h with h | h
    · rw [h, hdone]
      exact hpart done (a :: rest) hl
    · rw [h, ← hnext]
      exact hpart (done ++ [a]) rest (by rw [hl]; simp)

/-- The relationships go first, while the rows at which they start are there. -/
theorem ends_clearFile (hs : Sound env given db.tables) (q : Path) :
    Ends (clearFile q) db (fun _ db' => Spares env given q db.tables db'.tables ∧ ∀ i e, ¬ EntityIn db'.tables q i e)
      (fun _ db' => Spares env given q db.tables db'.tables) := by
  obtain ⟨hfirst, hnorels⟩ := spares_deleteRelationships hs q
  unfold clearFile
  refine Ends.bind (ends_execute (deleteRelationships q) db) (fun _ db' h => ?_) fun _ db' h => ?_
  · rcases h with h | h
    · rw [h]
      exact hs.spares q
    · rw [h]
      exact hfirst
  · rw [← h] at hfirst hnorels
    obtain ⟨hsecond, hnone⟩ := spares_deleteEntities hfirst.sound hnorels
    refine (ends_execute (deleteEntities q) db').mono (fun _ db'' h' => ?_) fun _ db'' h' => ?_
    · rw [h']
      exact ⟨hfirst.trans hsecond, hnone⟩
    · rcases h' with h' | h'
      · rw [h']
        exact hfirst
      · rw [h']
        exact hfirst.trans hsecond

/-- **One file is cleared and stored again**: its rows are then those of the parse, and whichever statement fails, the rows
of the other files are the same. -/
theorem ends_refreshFile (hi : env.GraphIds given) {vaiToml : Bytes → Option (List Text)} {store : FileStore} {path : Path}
    (hscan : scanned env vaiToml store path = some (q, c, r)) (hg : given q c) (hr : env.parseSourceFile q c = .ok r)
    (hs : Sound env given db.tables) (totals : Nat × Nat × Nat) :
    Ends (refreshFile env vaiToml store totals path) db
      (fun _ db' => Spares env given q db.tables db'.tables ∧ Exact env q c db'.tables)
      (fun _ db' => Spares env given q db.tables db'.tables) := by
  obtain ⟨entities, rels⟩ := r
  have hpart : ∀ {α : Type} {l done rest : List α}, l = done ++ rest → ∀ a ∈ done, a ∈ l := fun hl a ha => by
    rw [hl]
    exact List.mem_append_left _ ha
  unfold refreshFile
  rw [hscan]
  refine Ends.bind (ends_mapErr (ends_clearFile hs q)) (fun _ _ h => h) fun _ db₁ ⟨hcleared, hnone⟩ => ?_
  obtain ⟨hstored, hexact⟩ := exact_upserts hi hg hr hcleared.sound hnone
  refine Ends.bind (ends_statements GraphSnapshot.upsertEntity (I := Spares env given q db₁.tables) fun done rest hl =>
      spares_upsertEntities hi hg hr done (hpart hl) hcleared.sound)
    (fun _ _ h => hcleared.trans h) fun _ db₂ htables => ?_
  have hfirst : Spares env given q db₁.tables db₂.tables := by
    rw [htables]
    exact spares_upsertEntities hi hg hr entities (fun _ h => h) hcleared.sound
  have hrows : ∀ rel ∈ rels, ∃ e, EntityIn db₂.tables q rel.fromEntity e := by
    intro rel hrel
    obtain ⟨e, he⟩ := exists_parsed_fromEntity hi hg hr hrel
    refine ⟨e, ?_⟩
    rw [htables]
    exact (entityIn_upsertEntities hi hg hr hnone _ _).2 he
  refine Ends.bind (ends_statements GraphSnapshot.upsertRelationship (I := Spares env given q db₂.tables) fun done rest hl =>
      spares_upsertRelationships hi hg hr done (hpart hl) hfirst.sound fun rel hrel => hrows rel (hpart hl rel hrel))
    (fun _ _ h => (hcleared.trans hfirst).trans h) fun _ db₃ htables' => ends_pure ?_
  rw [htables', htables]
  exact ⟨hcleared.trans hstored, hexact⟩

/-! ## Refreshes -/

/-- A refresh has `c` of the file `p`. -/
def Scans (env : Env) (vaiToml : Bytes → Option (List Text)) (store : FileStore) (p : Path) (c : Bytes) : Prop :=
  ∃ paths path r, store.list currentPrefix = .ok paths ∧ path ∈ paths ∧ scanned env vaiToml store path = some (p, c, r)

/-- What a refresh keeps, whichever statements fail: the tables are sound, and the rows of what it does not scan the same. -/
structure Spared (env : Env) (given : Path → Bytes → Prop) (vaiToml : Bytes → Option (List Text)) (store : FileStore)
    (g g' : GraphSnapshot) : Prop where
  sound : Sound env given g'
  others : ∀ p, (∀ c, ¬ Scans env vaiToml store p c) → Same p g g'

section Loop

variable {vaiToml : Bytes → Option (List Text)} {store : FileStore} {path : Path} {p : Path}

theorem Spared.next (h : Spared env given vaiToml store g g') (hscans : Scans env vaiToml store q c)
    (hs : Spares env given q g' g'') : Spared env given vaiToml store g g'' :=
  ⟨hs.sound, fun p hp => (h.others p hp).trans (hs.others p fun heq => hp c (by rw [heq]; exact hscans))⟩

theorem scanned_spec (h : scanned env vaiToml store path = some (p, c, r)) :
    relative path = p ∧ env.parseSourceFile p c = .ok r := by
  unfold scanned at h
  dsimp only at h
  split at h
  · cases h
  split at h
  · cases h
  cases hget : store.get path with
  | error x =>
    rw [hget] at h
    cases h
  | ok source =>
    rw [hget] at h
    dsimp only at h
    cases hparse : env.parseSourceFile (relative path) source with
    | error x =>
      rw [hparse] at h
      cases h
    | ok r' =>
      rw [hparse] at h
      cases h
      exact ⟨rfl, hparse⟩

theorem path_eq_of_scanned {paths : List Path} (hlist : store.list currentPrefix = .ok paths) {path' : Path} {c' : Bytes}
    {r' : List Entity × List Relationship} (hmem : path ∈ paths) (hmem' : path' ∈ paths)
    (h : scanned env vaiToml store path = some (p, c, r)) (h' : scanned env vaiToml store path' = some (p, c', r')) :
    path = path' := by
  obtain ⟨rest, rfl⟩ := store.within hlist path hmem
  obtain ⟨rest', rfl⟩ := store.within hlist path' hmem'
  have hrel := (scanned_spec h).1.trans (scanned_spec h').1.symm
  unfold relative at hrel
  rw [Text.stripPrefix_append, Text.stripPrefix_append] at hrel
  rw [show rest = rest' from hrel]

/-- **A refresh**: the rows of every file that it scans are those of its source when it succeeds, and whether it does or
not, the rows of the others are the same. -/
theorem ends_refreshGraphFromFiles (hi : env.GraphIds given) (hgiven : ∀ p c, Scans env vaiToml store p c → given p c)
    (hs : Sound env given db.tables) :
    Ends (refreshGraphFromFiles env vaiToml store) db
      (fun _ db' => Spared env given vaiToml store db.tables db'.tables ∧
        ∀ p c, Scans env vaiToml store p c → Exact env p c db'.tables)
      (fun _ db' => Spared env given vaiToml store db.tables db'.tables) := by
  have hstart : Spared env given vaiToml store db.tables db.tables := ⟨hs, fun p _ => .refl p _⟩
  unfold refreshGraphFromFiles
  cases hlist : store.list currentPrefix with
  | error e => exact ends_fail hstart
  | ok paths =>
    have hloop := ends_foldlM (f := refreshFile env vaiToml store)
      (E := fun _ db' => Spared env given vaiToml store db.tables db'.tables)
      (fun done _ db' => Spared env given vaiToml store db.tables db'.tables ∧
        ∀ path ∈ done, ∀ p c r, scanned env vaiToml store path = some (p, c, r) → Exact env p c db'.tables)
      paths [] (0, 0, 0) db ⟨hstart, fun path h => by cases h⟩ ?_
    · refine hloop.mono (fun _ db' h => ⟨h.1, fun p c => ?_⟩) fun _ _ h => h
      rintro ⟨paths', path, r, hlist', hmem, hscan⟩
      rw [hlist] at hlist'
      cases hlist'
      exact h.2 path hmem p c r hscan
    · rintro done path rest totals db' hl ⟨hspared, hexact⟩
      have hl : paths = done ++ path :: rest := hl
      have hmem : path ∈ paths := by simp [hl]
      cases hscan : scanned env vaiToml store path with
      | none =>
        unfold refreshFile
        rw [hscan]
        refine ends_pure ⟨hspared, fun path' hpath' p c r hscan' => ?_⟩
        rcases List.mem_append.1 hpath' with hpath' | hpath'
        · exact hexact path' hpath' p c r hscan'
        · rw [List.mem_singleton.1 hpath', hscan] at hscan'
          cases hscan'
      | some x =>
        obtain ⟨q, c, r⟩ := x
        have hscans : Scans env vaiToml store q c := ⟨paths, path, r, hlist, hmem, hscan⟩
        refine (ends_refreshFile hi hscan (hgiven q c hscans) (scanned_spec hscan).2 hspared.sound totals).mono
          (fun _ db'' h => ⟨hspared.next hscans h.1, fun path' hpath' p c' r' hscan' => ?_⟩) fun _ _ h => hspared.next hscans h
        rcases List.mem_append.1 hpath' with hpath' | hpath'
        · -- it has been another path, and so another file
          have hne : p ≠ q := by
            rintro rfl
            have heq := path_eq_of_scanned hlist (by simp [hl, hpath']) hmem hscan' hscan
            have hnodup := store.nodup hlist
            rw [hl, ← heq] at hnodup
            exact (List.disjoint_of_nodup_append hnodup) hpath' List.mem_cons_self
          exact (hexact path' hpath' p c' r' hscan').same (h.1.others p hne)
        · rw [List.mem_singleton.1 hpath', hscan] at hscan'
          cases hscan'
          exact h.2

theorem scans_unique {c' : Bytes} (h : Scans env vaiToml store p c) (h' : Scans env vaiToml store p c') : c = c' := by
  obtain ⟨paths, path, r, hlist, hmem, hscan⟩ := h
  obtain ⟨paths', path', r', hlist', hmem', hscan'⟩ := h'
  rw [hlist] at hlist'
  cases hlist'
  obtain rfl := path_eq_of_scanned hlist hmem hmem' hscan hscan'
  rw [hscan] at hscan'
  cases hscan'
  rfl

end Loop

end Statements

/-! ## Runs -/

/-- The files that one refresh finds, and what becomes of its statements. -/
structure Refresh where
  store : FileStore
  replies : List Reply

section Runs

variable (env : Env) (vaiToml : Bytes → Option (List Text))

def refresh (g : GraphSnapshot) (x : Refresh) : Except ApiError (Nat × Nat × Nat) × GraphSnapshot :=
  let (result, db) := refreshGraphFromFiles env vaiToml x.store ⟨g, x.replies⟩
  (result, db.tables)

/-- The tables after refreshes, from empty ones. -/
def refreshes (xs : List Refresh) : GraphSnapshot := xs.foldl (fun g x => (refresh env vaiToml g x).2) ∅

/-- The sources that refreshes give to the parsers. -/
def Given (xs : List Refresh) (p : Path) (c : Bytes) : Prop := ∃ x ∈ xs, Scans env vaiToml x.store p c

end Runs

section Results

variable {env : Env} {vaiToml : Bytes → Option (List Text)} {given : Path → Bytes → Prop}

theorem refresh_spec (hi : env.GraphIds given) {g : GraphSnapshot} (hs : Sound env given g) {x : Refresh}
    (hgiven : ∀ p c, Scans env vaiToml x.store p c → given p c) :
    Spared env given vaiToml x.store g (refresh env vaiToml g x).2 ∧
      ((∃ totals, (refresh env vaiToml g x).1 = .ok totals) →
        ∀ p c, Scans env vaiToml x.store p c → Exact env p c (refresh env vaiToml g x).2) := by
  have hsound : Sound env given (Db.mk g x.replies).tables := hs
  have hends := ends_refreshGraphFromFiles hi hgiven hsound
  unfold refresh
  unfold Ends at hends
  rcases hrun : refreshGraphFromFiles env vaiToml x.store ⟨g, x.replies⟩ with ⟨e | totals, db⟩
  · rw [hrun] at hends
    refine ⟨hends, ?_⟩
    rintro ⟨totals, h⟩
    cases h
  · rw [hrun] at hends
    exact ⟨hends.1, fun _ => hends.2⟩

theorem refreshes_append (xs ys : List Refresh) :
    refreshes env vaiToml (xs ++ ys) = ys.foldl (fun g x => (refresh env vaiToml g x).2) (refreshes env vaiToml xs) :=
  List.foldl_append

theorem same_refreshes (hi : env.GraphIds given) {p : Path} (ys : List Refresh) {g : GraphSnapshot} (hs : Sound env given g)
    (hgiven : ∀ y ∈ ys, ∀ p c, Scans env vaiToml y.store p c → given p c)
    (hnone : ∀ y ∈ ys, ∀ c, ¬ Scans env vaiToml y.store p c) :
    Same p g (ys.foldl (fun g x => (refresh env vaiToml g x).2) g) := by
  induction ys generalizing g with
  | nil => exact .refl p g
  | cons y ys ih =>
    have hspared := (refresh_spec hi hs (hgiven y List.mem_cons_self)).1
    exact (hspared.others p (hnone y List.mem_cons_self)).trans (ih hspared.sound (fun z hz => hgiven z (List.mem_cons_of_mem y hz))
      fun z hz => hnone z (List.mem_cons_of_mem y hz))

theorem sound_refreshes (hi : env.GraphIds given) (xs : List Refresh)
    (hgiven : ∀ x ∈ xs, ∀ p c, Scans env vaiToml x.store p c → given p c) : Sound env given (refreshes env vaiToml xs) := by
  induction xs using List.reverseRecOn with
  | nil => exact sound_empty env given
  | append_singleton xs x ih =>
    rw [refreshes_append]
    exact (refresh_spec hi (ih fun y hy => hgiven y (List.mem_append_left _ hy)) (hgiven x (by simp))).1.sound

/-- **After any refreshes, whichever of their statements have failed**, the rows of a file are exactly the parse of what the
last of them that scans it finds there, if that one succeeds; they stay when the file is gone. -/
theorem refreshes_exact (before after : List Refresh) (x : Refresh)
    (hi : env.GraphIds (Given env vaiToml (before ++ x :: after)))
    (hok : ∃ totals, (refresh env vaiToml (refreshes env vaiToml before) x).1 = .ok totals) {p : Path} {c : Bytes}
    (hscans : Scans env vaiToml x.store p c) (hafter : ∀ y ∈ after, ∀ c, ¬ Scans env vaiToml y.store p c) :
    Exact env p c (refreshes env vaiToml (before ++ x :: after)) := by
  have hgiven : ∀ y ∈ before ++ x :: after, ∀ p c, Scans env vaiToml y.store p c →
      Given env vaiToml (before ++ x :: after) p c := fun y hy p c h => ⟨y, hy, h⟩
  have hbefore : Sound env _ (refreshes env vaiToml before) :=
    sound_refreshes hi before fun y hy => hgiven y (List.mem_append_left _ hy)
  obtain ⟨hspared, hexact⟩ := refresh_spec hi hbefore (hgiven x (by simp))
  rw [refreshes_append, List.foldl_cons]
  refine (hexact hok p c hscans).same (same_refreshes hi after hspared.sound (fun y hy => hgiven y ?_) hafter)
  exact List.mem_append_right _ (List.mem_cons_of_mem x hy)

/-- One file, with two functions in it. -/
def oneFile : FileStore where
  get path := if path = "current/a.rs".toList then .ok [] else .error (.notFound path)
  list pre := if pre = currentPrefix then .ok ["current/a.rs".toList] else .ok []
  nodup {pre paths} h := by
    split at h
    · cases h
      decide
    · cases h
      decide
  within {pre paths} h := by
    split at h
    · rename_i hpre
      cases h
      rw [hpre]
      decide
    · cases h
      intro p hp
      cases hp

def noFiles : FileStore where
  get path := .error (.notFound path)
  list _ := .ok []
  nodup h := by
    cases h
    decide
  within h := by
    cases h
    intro p hp
    cases hp

theorem scans_oneFile : Scans ServerGraph.callingFile (fun _ => none) oneFile "a.rs".toList [] :=
  ⟨["current/a.rs".toList], "current/a.rs".toList, _, rfl, List.mem_cons_self, rfl⟩

theorem not_scans_noFiles {p : Path} {c : Bytes} : ¬ Scans ServerGraph.callingFile (fun _ => none) noFiles p c := by
  rintro ⟨paths, path, r, hlist, hmem, -⟩
  cases hlist
  cases hmem

theorem eq_of_scans_oneFile {p : Path} {c : Bytes} (h : Scans ServerGraph.callingFile (fun _ => none) oneFile p c) :
    p = "a.rs".toList := by
  obtain ⟨paths, path, r, hlist, hmem, hscan⟩ := h
  cases hlist
  rw [← (scanned_spec hscan).1, List.mem_singleton.1 hmem]
  rfl

theorem graphIds_oneFile {xs : List Refresh} (hxs : ∀ x ∈ xs, x.store = oneFile ∨ x.store = noFiles) :
    ServerGraph.callingFile.GraphIds (Given ServerGraph.callingFile (fun _ => none) xs) := by
  have hpath : ∀ {p c}, Given ServerGraph.callingFile (fun _ => none) xs p c → p = "a.rs".toList := by
    rintro p c ⟨x, hx, h⟩
    rcases hxs x hx with hstore | hstore
    · rw [hstore] at h
      exact eq_of_scans_oneFile h
    · rw [hstore] at h
      exact absurd h not_scans_noFiles
  constructor
  · rintro p c r - hr e he
    cases hr
    rcases List.mem_cons.1 he with rfl | he
    · rfl
    · rw [List.mem_singleton.1 he]
  · rintro p c r - hr rel hrel
    cases hr
    rcases List.mem_cons.1 hrel with rfl | hrel
    · exact List.mem_cons_self
    · rw [List.mem_singleton.1 hrel]
      exact List.mem_cons_self
  · intro p c r p' c' r' hg hg' _ _ _ _ _
    rw [hpath hg, hpath hg']
  · intro p c r p' c' r' hg hg' _ _ _ _ _ _ _
    rw [hpath hg, hpath hg']

/-- A refresh that fails half way, one that succeeds, and one when the file is gone. -/
theorem refreshes_oneFile : Exact ServerGraph.callingFile "a.rs".toList []
    (refreshes ServerGraph.callingFile (fun _ => none)
      ([⟨oneFile, [.done, .done, .done, .lost]⟩] ++ ⟨oneFile, []⟩ :: [⟨noFiles, []⟩])) :=
  refreshes_exact _ _ _ (graphIds_oneFile (by simp)) ⟨_, rfl⟩ scans_oneFile (by simpa using fun _ => not_scans_noFiles)

/-- Tables with the exact rows of some files and with no others are built from those files. -/
theorem built_of_exact {g : GraphSnapshot} (hs : Sound env given g) {m : FMap Path Bytes}
    (hgiven : ∀ p c, m.get p = some c → given p c) (hall : ∀ {p c}, given p c → ∃ c', m.get p = some c')
    (hexact : ∀ p c, m.get p = some c → Exact env p c g) : Built (env.restrict given) m g := by
  have hparse : ∀ {p c}, m.get p = some c → (env.restrict given).parseSourceFile p c = env.parseSourceFile p c := fun h =>
    Env.parseSourceFile_restrict (hgiven _ _ h)
  constructor
  · intro i e
    constructor
    · intro h
      obtain ⟨c, r, hg, hr, he, hid⟩ := hs.entities h
      obtain ⟨c', hm⟩ := hall hg
      refine ⟨e.filePath, c', hm, ?_⟩
      unfold parsed
      rw [hparse hm]
      exact ((hexact _ _ hm).entities i e).1 ⟨h, rfl⟩
    · rintro ⟨p, c, hm, h⟩
      unfold parsed at h
      rw [hparse hm] at h
      exact (((hexact p c hm).entities i e).2 h).1
  · intro i rel
    constructor
    · intro h
      obtain ⟨e, c, r, hrow, hg, -⟩ := hs.relationships h
      obtain ⟨c', hm⟩ := hall hg
      refine ⟨e.filePath, c', hm, ?_⟩
      unfold parsedRelationships
      rw [hparse hm]
      exact ((hexact _ _ hm).relationships i rel).1 ⟨h, e, hrow, rfl⟩
    · rintro ⟨p, c, hm, h⟩
      unfold parsedRelationships at h
      rw [hparse hm] at h
      exact (((hexact p c hm).relationships i rel).2 h).1

/-- **A refresh that succeeds and scans every file that has ever been scanned leaves the graph that parsing its files into
an empty snapshot leaves**, whatever earlier ones have left behind. -/
theorem refreshes_rebuild (before : List Refresh) (x : Refresh) (hi : env.GraphIds (Given env vaiToml (before ++ [x])))
    (hok : ∃ totals, (refresh env vaiToml (refreshes env vaiToml before) x).1 = .ok totals)
    (hall : ∀ y ∈ before, ∀ p c, Scans env vaiToml y.store p c → ∃ c', Scans env vaiToml x.store p c')
    (files : List (Path × Bytes)) (hfiles : ∀ p c, (p, c) ∈ files ↔ Scans env vaiToml x.store p c) :
    (∀ i, (refreshes env vaiToml (before ++ [x])).entities.get i = (rebuilt env files).entities.get i) ∧
      ∀ i, (refreshes env vaiToml (before ++ [x])).relationships.get i = (rebuilt env files).relationships.get i := by
  have hgiven : ∀ p c, Scans env vaiToml x.store p c → Given env vaiToml (before ++ [x]) p c :=
    fun p c h => ⟨x, by simp, h⟩
  have hsound : Sound env _ (refreshes env vaiToml (before ++ [x])) := sound_refreshes hi _ fun y hy p c h => ⟨y, hy, h⟩
  have hexact : ∀ p c, Scans env vaiToml x.store p c → Exact env p c (refreshes env vaiToml (before ++ [x])) := by
    rw [refreshes_append]
    exact (refresh_spec hi (sound_refreshes hi before fun y hy p c h => ⟨y, by simp [hy], h⟩) hgiven).2 hok
  -- every row is of a file that is scanned
  have hscanned : ∀ {p c}, Given env vaiToml (before ++ [x]) p c → ∃ c', Scans env vaiToml x.store p c' := by
    rintro p c ⟨y, hy, h⟩
    rcases List.mem_append.1 hy with hy | hy
    · exact hall y hy p c h
    · rw [List.mem_singleton.1 hy] at h
      exact ⟨c, h⟩
  have hget : ∀ p c, (FMap.ofList files).get p = some c ↔ Scans env vaiToml x.store p c := by
    intro p c
    constructor
    · exact fun h => (hfiles p c).1 (FMap.get_ofList_mem h)
    · intro h
      obtain ⟨c', hc'⟩ := Option.isSome_iff_exists.1 (FMap.isSome_get_ofList ((hfiles p c).2 h))
      rw [hc', scans_unique ((hfiles p c').1 (FMap.get_ofList_mem hc')) h]
  have hbuilt : Built (env.restrict (Given env vaiToml (before ++ [x]))) (FMap.ofList files)
      (refreshes env vaiToml (before ++ [x])) :=
    built_of_exact hsound (fun p c h => hgiven p c ((hget p c).1 h)) (fun hg => (hscanned hg).imp fun c' h => (hget _ c').2 h)
      fun p c h => hexact p c ((hget p c).1 h)
  have hrebuilt := built_run hi.restrict (files.map fun q => .updateFile q.1 q.2)
  rw [lastSources_updates, run_restrict fun p c h => ?_] at hrebuilt
  · exact ⟨hbuilt.entities.get_eq hrebuilt.entities fun _ => rfl, hbuilt.relationships.get_eq hrebuilt.relationships fun _ => rfl⟩
  · obtain ⟨q, hq, heq⟩ := List.mem_map.1 h
    cases heq
    exact hgiven _ _ ((hfiles _ _).1 hq)

theorem refreshes_rebuild_oneFile : (refreshes ServerGraph.callingFile (fun _ => none)
    ([⟨oneFile, [.done, .refused]⟩] ++ [⟨oneFile, []⟩])).entities.get =
      (rebuilt ServerGraph.callingFile [("a.rs".toList, [])]).entities.get := by
  funext i
  refine (refreshes_rebuild _ _ (graphIds_oneFile (by simp)) ⟨_, rfl⟩ (fun y hy p c h => ⟨[], ?_⟩) _ fun p c => ?_).1 i
  · rw [List.mem_singleton.1 hy] at h
    rw [eq_of_scans_oneFile h]
    exact scans_oneFile
  · constructor
    · intro h
      cases List.mem_singleton.1 h
      exact scans_oneFile
    · intro h
      obtain rfl := eq_of_scans_oneFile h
      rw [scans_unique h scans_oneFile]
      exact List.mem_cons_self

end Results
end GraphRefresh
end Vai
