import Vai.GraphDistance
import Vai.EdgeDistance
/-!
# BlastRadius — what `reachable_entities` answers

The search of `graph/mod.rs` with its queue, and what it makes of the ids it has visited: the entities among them, which
one statement asks for, and the relationships between them.  A relationship leads in both directions, and from and to ids
without a row.  In which order hash sets and hash maps come is left to `Env.hashOrder`.  `predict_scope` is modelled with
the search by levels, which answers the same (`reachableEntities_levels`).

`GraphTables` is the database: both tables under their primary keys.  Every change of the graph keeps that.
-/
namespace Vai

open Bfs

namespace GraphSnapshot

/-- Rows of relationships under their primary key. -/
def RelationshipsKeyed (g : GraphSnapshot) : Prop := ∀ i r, g.relationships.get i = some r → r.id = i

def HoldsRelationship (g : GraphSnapshot) (r : Relationship) : Prop := g.relationships.get r.id = some r

/-- The relationships as the edges of an undirected graph. -/
def undirected (g : GraphSnapshot) : SimpleGraph Text :=
  SimpleGraph.fromRel fun a b => ∃ i r, g.relationships.get i = some r ∧ r.fromEntity = a ∧ r.toEntity = b

variable {g : GraphSnapshot}

theorem relationshipsKeyed_empty : RelationshipsKeyed ∅ := fun i r h => by
  have h : FMap.get (∅ : FMap Text Relationship) i = some r := h
  rw [FMap.get_empty] at h
  cases h

theorem relationshipsKeyed_upsertRelationship (hk : g.RelationshipsKeyed) (r : Relationship) :
    (g.upsertRelationship r).RelationshipsKeyed := by
  intro i r' h
  unfold upsertRelationship at h
  dsimp only at h
  rw [FMap.get_insert] at h
  split at h
  · rename_i hi
    cases h
    exact hi.symm
  · exact hk i r' h

theorem relationshipsKeyed_upsertRelationships (rs : List Relationship) (hk : g.RelationshipsKeyed) :
    (rs.foldl upsertRelationship g).RelationshipsKeyed := by
  induction rs generalizing g with
  | nil => exact hk
  | cons r rs ih => exact ih (relationshipsKeyed_upsertRelationship hk r)

theorem relationshipsKeyed_upsertEntities (es : List Entity) (hk : g.RelationshipsKeyed) :
    (es.foldl upsertEntity g).RelationshipsKeyed := by
  induction es generalizing g with
  | nil => exact hk
  | cons e es ih => exact ih (g := g.upsertEntity e) hk

theorem get_relationships_removeFile {p : Path} {i : Text} {r : Relationship} :
    (g.removeFile p).relationships.get i = some r ↔ g.relationships.get i = some r ∧
      r.fromEntity ∉ g.getEntityIdsForFile p ∧ r.toEntity ∉ g.getEntityIdsForFile p := by
  unfold removeFile
  dsimp only
  rw [FMap.get_filter, decide_eq_true_iff]

theorem relationshipsKeyed_removeFile (hk : g.RelationshipsKeyed) (p : Path) : (g.removeFile p).RelationshipsKeyed :=
  fun i r h => hk i r (get_relationships_removeFile.1 h).1

theorem relationshipsKeyed_updateFile (hk : g.RelationshipsKeyed) (env : Env) (p : Path) (source : Bytes) :
    (updateFile env p source g).2.RelationshipsKeyed := by
  unfold updateFile
  cases env.parseSourceFile p source with
  | error e => exact relationshipsKeyed_removeFile hk p
  | ok r =>
    exact relationshipsKeyed_upsertRelationships r.2
      (relationshipsKeyed_upsertEntities r.1 (relationshipsKeyed_removeFile hk p))

theorem mem_relationshipRows (hk : g.RelationshipsKeyed) {r : Relationship} :
    r ∈ g.relationships.pairs.map Prod.snd ↔ g.HoldsRelationship r := by
  rw [mem_relationships]
  constructor
  · rintro ⟨i, hi⟩
    unfold HoldsRelationship
    rw [hk i r hi]
    exact hi
  · exact fun h => ⟨r.id, h⟩

theorem holdsRelationship_unique {r r' : Relationship} (h : g.HoldsRelationship r) (h' : g.HoldsRelationship r')
    (hid : r.id = r'.id) : r = r' := by
  unfold HoldsRelationship at h h'
  rw [← hid, h] at h'
  exact Option.some.inj h'

theorem neighbouring_neighbours (g : GraphSnapshot) : Neighbouring g.undirected g.neighbours := by
  intro a b hab
  rw [mem_neighbours]
  unfold undirected Related
  rw [SimpleGraph.fromRel_adj]
  constructor
  · rintro ⟨i, r, hi, h | h⟩
    · exact ⟨hab, Or.inl ⟨i, r, hi, h⟩⟩
    · exact ⟨hab, Or.inr ⟨i, r, hi, h⟩⟩
  · rintro ⟨-, ⟨i, r, hi, h⟩ | ⟨i, r, hi, h⟩⟩
    · exact ⟨i, r, hi, Or.inl h⟩
    · exact ⟨i, r, hi, Or.inr h⟩

end GraphSnapshot

/-- The two tables of the database, rows under their primary keys. -/
def GraphTables := { g : GraphSnapshot // g.Keyed ∧ g.RelationshipsKeyed }

namespace GraphTables

open GraphSnapshot

def empty : GraphTables := ⟨∅, keyed_empty, relationshipsKeyed_empty⟩

def updateFile (env : Env) (p : Path) (source : Bytes) (g : GraphTables) : GraphTables :=
  ⟨(GraphSnapshot.updateFile env p source g.1).2, keyed_updateFile g.2.1 env p source,
    relationshipsKeyed_updateFile g.2.2 env p source⟩

def removeFile (p : Path) (g : GraphTables) : GraphTables :=
  ⟨g.1.removeFile p, keyed_removeFile g.2.1 p, relationshipsKeyed_removeFile g.2.2 p⟩

end GraphTables

/-! ## The query -/

namespace BlastRadius

open GraphSnapshot

variable (env : Env) (g : GraphSnapshot) (seeds : List Text) (maxHops : Nat)

/-- `get_relationships_for_entity`. -/
def getRelationshipsForEntity (id : Text) : List Relationship :=
  (g.relationships.pairs.map Prod.snd).filter fun r => r.fromEntity = id || r.toEntity = id

/-- The set `visited` when the queue is empty: every seed once, then the other ends of the relationships of what leaves
the queue. -/
def visited : FMap Text Nat := distances g.neighbours maxHops g.endpoints seeds.eraseDups

/-- `seen_rels.entry(rel.id).or_insert(rel)`, for a relationship within the ids. -/
def orInsert (ids : List Text) (seen : FMap Text Relationship) (rel : Relationship) : FMap Text Relationship :=
  if rel.fromEntity ∈ ids ∧ rel.toEntity ∈ ids then
    if (seen.get rel.id).isSome then seen else seen.insert rel.id rel
  else seen

def seenRels (ids : List Text) : FMap Text Relationship :=
  (ids.flatMap (getRelationshipsForEntity g)).foldl (orInsert ids) ∅

def reachableEntities : Except GraphError (List Entity × List Relationship) := do
  let ids := env.hashOrder (visited g seeds maxHops).keys
  let entities ← g.getEntitiesByIds ids
  let seen := seenRels g ids
  pure (entities, (env.hashOrder seen.keys).filterMap seen.get)

/-! ## What it answers -/

variable {env g seeds maxHops} {e : Entity} {r : Relationship} {a : Text} {ids : List Text}

/-- Within the hops of a seed, over relationships in either direction. -/
def Reached (g : GraphSnapshot) (seeds : List Text) (maxHops : Nat) (a : Text) : Prop :=
  ∃ s ∈ seeds, g.undirected.edist s a ≤ maxHops

theorem Reached.mono {seeds' : List Text} {maxHops' : Nat} (hs : ∀ s ∈ seeds, s ∈ seeds') (hh : maxHops ≤ maxHops')
    (h : Reached g seeds maxHops a) : Reached g seeds' maxHops' a := by
  obtain ⟨s, hmem, hle⟩ := h
  exact ⟨s, hs s hmem, hle.trans (Nat.cast_le.2 hh)⟩

/-- **The queue visits what is near.** -/
theorem isSome_visited : ((visited g seeds maxHops).get a).isSome ↔ Reached g seeds maxHops a := by
  have hseeds : ∀ s, s ∈ seeds.eraseDups ↔ s ∈ seeds := fun s => List.mem_eraseDups
  unfold visited Reached
  rw [← exists_walk_le_iff (neighbouring_neighbours g), Option.isSome_iff_exists]
  simp only [get_distances fun _ _ h => mem_endpoints h, distance_congr hseeds]
  constructor
  · rintro ⟨n, hd, hn⟩
    exact ⟨n, hn, hd.1⟩
  · rintro ⟨n, hn, hw⟩
    obtain ⟨m, hm, hd⟩ := distance_of_walk hw
    exact ⟨m, hd, hm.trans hn⟩

theorem mem_ids (env : Env) : a ∈ env.hashOrder (visited g seeds maxHops).keys ↔ Reached g seeds maxHops a := by
  rw [Env.mem_hashOrder, FMap.mem_keys, isSome_visited]

/-- What `reachable_entities` gives where it answers. -/
def reachedEntities (env : Env) (g : GraphSnapshot) (seeds : List Text) (maxHops : Nat) : List Entity :=
  g.select fun e => e.id ∈ env.hashOrder (visited g seeds maxHops).keys

def reachedRelationships (env : Env) (g : GraphSnapshot) (seeds : List Text) (maxHops : Nat) : List Relationship :=
  let seen := seenRels g (env.hashOrder (visited g seeds maxHops).keys)
  (env.hashOrder seen.keys).filterMap seen.get

/-- **It answers where the ids that it has reached fit into one statement.** -/
theorem reachableEntities_eq_ok {es : List Entity} {rs : List Relationship} :
    reachableEntities env g seeds maxHops = .ok (es, rs) ↔ Askable (Reached g seeds maxHops) ∧
      es = reachedEntities env g seeds maxHops ∧ rs = reachedRelationships env g seeds maxHops := by
  have hids : (env.hashOrder (visited g seeds maxHops).keys).Nodup :=
    (env.hashOrderPerm _).nodup_iff.2 (AList.keys_nodup _)
  unfold reachableEntities
  dsimp only
  rw [ok_bind_iff]
  simp only [getEntitiesByIds_eq_ok hids fun _ => mem_ids env, pure, Except.pure, Except.ok.injEq, Prod.mk.injEq]
  constructor
  · rintro ⟨_, ⟨hask, rfl⟩, rfl, rfl⟩
    exact ⟨hask, rfl, rfl⟩
  · rintro ⟨hask, rfl, rfl⟩
    exact ⟨_, ⟨hask, rfl⟩, rfl, rfl⟩

theorem get_orInsert {seen : FMap Text Relationship} {i : Text} {r' : Relationship} :
    (orInsert ids seen r).get i = some r' ↔ seen.get i = some r' ∨
      (seen.get i = none ∧ r.id = i ∧ r = r' ∧ r.fromEntity ∈ ids ∧ r.toEntity ∈ ids) := by
  unfold orInsert
  by_cases hends : r.fromEntity ∈ ids ∧ r.toEntity ∈ ids
  · rw [if_pos hends]
    cases hseen : seen.get r.id with
    | some r₀ =>
      simp only [Option.isSome_some, if_true]
      refine (or_iff_left ?_).symm
      rintro ⟨hnone, rfl, -⟩
      rw [hseen] at hnone
      cases hnone
    | none =>
      simp only [Option.isSome_none, Bool.false_eq_true, if_false]
      rw [FMap.get_insert]
      by_cases hi : i = r.id
      · rw [if_pos hi, hi, hseen]
        simp [hends]
      · rw [if_neg hi]
        refine (or_iff_left ?_).symm
        rintro ⟨-, h, -⟩
        exact hi h.symm
  · rw [if_neg hends]
    refine (or_iff_left ?_).symm
    rintro ⟨-, -, -, h⟩
    exact hends h

/-- Where an id stands for one relationship, the first under it is all there is. -/
theorem get_foldl_orInsert {rels : List Relationship} (hid : ∀ r ∈ rels, ∀ r' ∈ rels, r.id = r'.id → r = r') {i : Text} :
    (rels.foldl (orInsert ids) ∅).get i = some r ↔ r ∈ rels ∧ r.id = i ∧ r.fromEntity ∈ ids ∧ r.toEntity ∈ ids := by
  induction rels using List.reverseRecOn generalizing r with
  | nil => simp
  | append_singleton rels r₀ ih =>
    have hid' : ∀ r ∈ rels, ∀ r' ∈ rels, r.id = r'.id → r = r' := fun r hr r' hr' =>
      hid r (List.mem_append_left _ hr) r' (List.mem_append_left _ hr')
    rw [List.foldl_append, List.foldl_cons, List.foldl_nil, get_orInsert, ih hid', List.mem_append, List.mem_singleton]
    constructor
    · rintro (⟨hr, h⟩ | ⟨-, rfl, rfl, h⟩)
      · exact ⟨Or.inl hr, h⟩
      · exact ⟨Or.inr rfl, rfl, h⟩
    · rintro ⟨hr | rfl, h⟩
      · exact Or.inl ⟨hr, h⟩
      · cases hget : (rels.foldl (orInsert ids) ∅).get i with
        | none => exact Or.inr ⟨rfl, h.1, rfl, h.2⟩
        | some r' =>
          -- the id has been seen: it is the same relationship
          obtain ⟨hr', hid'', -⟩ := (ih hid').1 hget
          have heq : r' = r := hid r' (List.mem_append_left _ hr') r
            (List.mem_append_right _ List.mem_cons_self) (hid''.trans h.1.symm)
          exact Or.inl ⟨heq ▸ hr', h⟩

theorem mem_getRelationshipsForEntity (hk : g.RelationshipsKeyed) :
    r ∈ getRelationshipsForEntity g a ↔ g.HoldsRelationship r ∧ (r.fromEntity = a ∨ r.toEntity = a) := by
  unfold getRelationshipsForEntity
  rw [List.mem_filter, mem_relationshipRows hk]
  simp

theorem get_seenRels (hk : g.RelationshipsKeyed) {i : Text} :
    (seenRels g ids).get i = some r ↔ g.HoldsRelationship r ∧ r.id = i ∧ r.fromEntity ∈ ids ∧ r.toEntity ∈ ids := by
  have hheld : ∀ r ∈ ids.flatMap (getRelationshipsForEntity g), g.HoldsRelationship r := fun r hr => by
    obtain ⟨a, -, hr⟩ := List.mem_flatMap.1 hr
    exact ((mem_getRelationshipsForEntity hk).1 hr).1
  unfold seenRels
  rw [get_foldl_orInsert fun r hr r' hr' => holdsRelationship_unique (hheld r hr) (hheld r' hr')]
  constructor
  · rintro ⟨hr, h⟩
    exact ⟨hheld r hr, h⟩
  · rintro ⟨hr, h⟩
    exact ⟨List.mem_flatMap.2 ⟨r.fromEntity, h.2.1, (mem_getRelationshipsForEntity hk).2 ⟨hr, Or.inl rfl⟩⟩, h⟩

theorem nodup_values {m : FMap Text Relationship} (hm : ∀ i r, m.get i = some r → r.id = i) {keys : List Text}
    (hkeys : keys.Nodup) : ((keys.filterMap m.get).map Relationship.id).Nodup := by
  have hmap : (keys.filterMap m.get).map Relationship.id = keys.filter fun i => (m.get i).isSome := by
    clear hkeys
    induction keys with
    | nil => rfl
    | cons i keys ih =>
      rw [List.filterMap_cons, List.filter_cons]
      cases hi : m.get i with
      | none => simpa using ih
      | some r => simpa [hm i r hi] using ih
  rw [hmap]
  exact hkeys.filter _

theorem reachableEntities_levels : (reachableEntities env g seeds maxHops).map Prod.fst = g.reachableEntities seeds maxHops := by
  have hsame : ∀ a, a ∈ env.hashOrder (visited g seeds maxHops).keys ↔
      a ∈ g.reach maxHops seeds.eraseDups seeds.eraseDups := fun a => by
    rw [mem_ids, ← isSome_visited]
    unfold visited
    rw [isSome_distances_iff, mem_reach, mem_reach]
    simp only [walk_congr fun s => List.mem_eraseDups (l := seeds) (a := s)]
  have hids : (env.hashOrder (visited g seeds maxHops).keys).Nodup :=
    (env.hashOrderPerm _).nodup_iff.2 (AList.keys_nodup _)
  unfold GraphSnapshot.reachableEntities
  rw [← getEntitiesByIds_congr hids (nodup_reach (nodup_eraseDups seeds)) hsame]
  unfold reachableEntities
  dsimp only
  cases g.getEntitiesByIds (env.hashOrder (visited g seeds maxHops).keys) with
  | error e => rfl
  | ok es => rfl

theorem mem_reachedEntities (hk : g.Keyed) :
    e ∈ reachedEntities env g seeds maxHops ↔ g.Holds e ∧ Reached g seeds maxHops e.id := by
  unfold reachedEntities
  rw [mem_select hk, decide_eq_true_iff, mem_ids]

theorem mem_reachedRelationships (hk : g.RelationshipsKeyed) : r ∈ reachedRelationships env g seeds maxHops ↔
    g.HoldsRelationship r ∧ Reached g seeds maxHops r.fromEntity ∧ Reached g seeds maxHops r.toEntity := by
  unfold reachedRelationships
  dsimp only
  rw [List.mem_filterMap]
  constructor
  · rintro ⟨i, -, hi⟩
    obtain ⟨hr, -, hf, ht⟩ := (get_seenRels hk).1 hi
    exact ⟨hr, (mem_ids env).1 hf, (mem_ids env).1 ht⟩
  · rintro ⟨hr, hf, ht⟩
    have hi := (get_seenRels hk).2 ⟨hr, rfl, (mem_ids env).2 hf, (mem_ids env).2 ht⟩
    refine ⟨r.id, ?_, hi⟩
    rw [Env.mem_hashOrder, FMap.mem_keys, hi]
    rfl

theorem nodup_reachedRelationships (hk : g.RelationshipsKeyed) :
    ((reachedRelationships env g seeds maxHops).map Relationship.id).Nodup := by
  unfold reachedRelationships
  refine nodup_values (fun i r h => ((get_seenRels hk).1 h).2.1) ?_
  exact (env.hashOrderPerm _).nodup_iff.2 (AList.keys_nodup _)

/-- **The blast radius.**  The stored entities within the hops of a seed and the stored relationships between ids within
them, each once; it is contained in every answer to more seeds and more hops. -/
structure Radius (env : Env) (g : GraphSnapshot) (seeds : List Text) (maxHops : Nat) (es : List Entity)
    (rs : List Relationship) : Prop where
  entities : ∀ e, e ∈ es ↔ g.Holds e ∧ ∃ s ∈ seeds, g.undirected.edist s e.id ≤ maxHops
  entitiesOnce : (es.map Entity.id).Nodup
  relationships : ∀ r, r ∈ rs ↔ g.HoldsRelationship r ∧ (∃ s ∈ seeds, g.undirected.edist s r.fromEntity ≤ maxHops) ∧
    ∃ s ∈ seeds, g.undirected.edist s r.toEntity ≤ maxHops
  relationshipsOnce : (rs.map Relationship.id).Nodup
  monotone : ∀ seeds' maxHops' es' rs', (∀ s ∈ seeds, s ∈ seeds') → maxHops ≤ maxHops' →
    reachableEntities env g seeds' maxHops' = .ok (es', rs') → (∀ e ∈ es, e ∈ es') ∧ ∀ r ∈ rs, r ∈ rs'

theorem radius_reached (g : GraphTables) (seeds : List Text) (maxHops : Nat) : Radius env g.1 seeds maxHops
    (reachedEntities env g.1 seeds maxHops) (reachedRelationships env g.1 seeds maxHops) := by
  obtain ⟨g, hk, hrk⟩ := g
  constructor
  · exact fun e => mem_reachedEntities hk
  · exact nodup_select hk _
  · exact fun r => mem_reachedRelationships hrk
  · exact nodup_reachedRelationships hrk
  · intro seeds' maxHops' es' rs' hs hh hok
    obtain ⟨-, rfl, rfl⟩ := reachableEntities_eq_ok.1 hok
    refine ⟨fun e he => ?_, fun r hr => ?_⟩
    · obtain ⟨he, hreached⟩ := (mem_reachedEntities hk).1 he
      exact (mem_reachedEntities hk).2 ⟨he, hreached.mono hs hh⟩
    · obtain ⟨hr, hf, ht⟩ := (mem_reachedRelationships hrk).1 hr
      exact (mem_reachedRelationships hrk).2 ⟨hr, hf.mono hs hh, ht.mono hs hh⟩

/-- **The blast radius is answered, and exact, precisely where one statement can ask for all ids within the hops.** -/
theorem reachableEntities_exact_iff (env : Env) (g : GraphTables) (seeds : List Text) (maxHops : Nat) :
    (∃ es rs, reachableEntities env g.1 seeds maxHops = .ok (es, rs) ∧ Radius env g.1 seeds maxHops es rs) ↔
      Askable fun a => ∃ s ∈ seeds, g.1.undirected.edist s a ≤ maxHops := by
  constructor
  · rintro ⟨es, rs, hok, -⟩
    exact (reachableEntities_eq_ok.1 hok).1
  · exact fun hask => ⟨_, _, reachableEntities_eq_ok.2 ⟨hask, rfl, rfl⟩, radius_reached g seeds maxHops⟩

/-- **Too many seeds are an error**, also where none of them is stored. -/
theorem seeds_are_refused : ¬ ∃ es rs, reachableEntities Env.plain GraphTables.empty.1 tooMany 0 = .ok (es, rs) := by
  rintro ⟨es, rs, hok⟩
  refine not_askable_tooMany (fun a ha => ?_) (reachableEntities_eq_ok.1 hok).1
  exact ⟨a, ha, by simp⟩

end BlastRadius
end Vai
