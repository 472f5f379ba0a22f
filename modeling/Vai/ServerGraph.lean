import Vai.BlastRadius
import Vai.Api
/-!
# ServerGraph — the graph endpoints of the server

`bfs_forward` and `bfs_inverse` of `server/graph.rs` over the `GraphStore` of `storage/postgres/graph.rs`, and the
endpoints that answer from them.  They follow the relationships in one direction, where `reachable_entities` of the local
graph follows them in both.  A node without a row is walked through and not answered.

The check of the caller's role is `Auth`'s.  The order of rows that are not asked for in one is left open.
-/
namespace Vai
namespace ServerGraph

open Bfs

/-! ## The store -/

/-- What the search reads of a `GraphStore`. -/
structure GraphStore where
  getEntity : Text → Except StorageError Entity
  getRelationships : Text → Except StorageError (List Relationship)
  getInverseRelationships : Text → Except StorageError (List Relationship)

/-- `as i32`, and `as usize` when it is read again. -/
def lineOf (n : Nat) : Nat := (Int.bmod n (2 ^ 32) % 2 ^ 64).toNat

/-- `row_to_entity` of the row of an entity: there is no `byte_range` in the table. -/
def rowToEntity (e : Entity) : Entity :=
  { e with byteRange := (0, 0), lineRange := (lineOf e.lineRange.1, lineOf e.lineRange.2) }

/-- The rows of relationships with this id at one of their ends. -/
def rowsAt (side : Relationship → Text) (g : GraphSnapshot) (id : Text) : List Relationship :=
  (g.relationships.pairs.map Prod.snd).filter fun r => side r = id

/-- The tables of one repository; `scan` is the order in which rows come. -/
def postgres (scan : List Relationship → List Relationship) (g : GraphSnapshot) : GraphStore where
  getEntity id := match g.entities.get id with
    | some e => .ok (rowToEntity e)
    | none => .error (.notFound ("entity ".toList ++ id))
  getRelationships id := .ok (scan (rowsAt Relationship.fromEntity g id))
  getInverseRelationships id := .ok (scan (rowsAt Relationship.toEntity g id))

/-! ## The search -/

structure Traversal where
  visited : List Text
  queue : List (Text × Nat)
  entities : FMap Text Entity
  relationships : List Relationship

section Search

variable (store : GraphStore) (rels : Text → Except StorageError (List Relationship)) (far : Relationship → Text) (maxHops : Nat)

/-- An id that is new; what goes wrong with its row is ignored. -/
def see (hop : Nat) (s : Traversal) (id : Text) : Traversal :=
  if id ∈ s.visited then s
  else
    { s with
      visited := s.visited ++ [id]
      queue := s.queue ++ [(id, hop)]
      entities := match store.getEntity id with
        | .ok e => s.entities.insert id e
        | .error _ => s.entities }

def follow (hop : Nat) (s : Traversal) (rel : Relationship) : Traversal :=
  see store (hop + 1) { s with relationships := s.relationships ++ [rel] } (far rel)

/-- The loop, with fuel. -/
def traverse : Nat → Traversal → Except ApiError Traversal
  | 0, s => .ok s
  | fuel + 1, s => match s.queue with
    | [] => .ok s
    | (current, hop) :: rest =>
      if maxHops ≤ hop then traverse fuel { s with queue := rest }
      else match rels current with
        | .error _ => .error .internal
        | .ok l => traverse fuel (l.foldl (follow store far hop) { s with queue := rest })

/-- `bfs_forward` and `bfs_inverse`: the relationships that are read of an id, and the end that is followed. -/
def bfs (env : Env) (fuel : Nat) (seedIds : List Text) : Except ApiError (List Entity × List Relationship) :=
  (traverse store rels far maxHops fuel (seedIds.foldl (see store 0) ⟨[], [], ∅, []⟩)).map fun s =>
    ((env.hashOrder s.entities.keys).filterMap s.entities.get, s.relationships)

end Search

def bfsForward (store : GraphStore) (env : Env) (fuel : Nat) (seedIds : List Text) (maxHops : Nat) :
    Except ApiError (List Entity × List Relationship) :=
  bfs store store.getRelationships Relationship.toEntity maxHops env fuel seedIds

def bfsInverse (store : GraphStore) (env : Env) (fuel : Nat) (seedIds : List Text) (maxHops : Nat) :
    Except ApiError (List Entity × List Relationship) :=
  bfs store store.getInverseRelationships Relationship.fromEntity maxHops env fuel seedIds

/-! ## Endpoints -/

/-- `get_graph_entity_handler` and `get_entity_deps_handler` begin with the entity itself. -/
def entityOf (store : GraphStore) (id : Text) : Except ApiError Entity :=
  match store.getEntity id with
  | .ok e => .ok e
  | .error (.notFound _) => .error (.notFound ("entity '".toList ++ id ++ "' not found".toList))
  | .error _ => .error .internal

/-- The dependencies of an entity, without itself, and the relationships. -/
def getEntityDepsHandler (store : GraphStore) (env : Env) (fuel : Nat) (id : Text) :
    Except ApiError (List Entity × List Relationship) := do
  let _ ← entityOf store id
  let (entities, relationships) ← bfsForward store env fuel [id] 20
  pure (entities.filter fun e => e.id ≠ id, relationships)

/-- The ids between the commas. -/
def seedIds (entities : Text) : List Text := ((entities.splitOn ',').map Text.trim).filter (· ≠ [])

def getBlastRadiusHandler (store : GraphStore) (env : Env) (fuel : Nat) (entities : Text) (hops : Nat) :
    Except ApiError (List Entity × List Relationship) :=
  if seedIds entities = [] then .error (.badRequest "query param `entities` must contain at least one entity ID".toList)
  else bfsInverse store env fuel (seedIds entities) hops

/-! ## The search is a search -/

/-- The store reads the tables `g`; `near` is the end at which relationships are read. -/
structure Reads (store : GraphStore) (rels : Text → Except StorageError (List Relationship)) (near : Relationship → Text)
    (g : GraphSnapshot) : Prop where
  entity : ∀ id e, store.getEntity id = .ok e ↔ ∃ e', g.entities.get id = some e' ∧ e = rowToEntity e'
  relationships : ∀ id, ∃ l, rels id = .ok l ∧ l.Perm (rowsAt near g id)

section Spec

variable {store : GraphStore} {rels : Text → Except StorageError (List Relationship)} {near far : Relationship → Text}
  {g : GraphSnapshot} {maxHops hop : Nat} {s : Traversal} {t : Search Text}

/-- The other ends of what the store reads of an id, in its order. -/
def nextIn (rels : Text → Except StorageError (List Relationship)) (far : Relationship → Text) (id : Text) : List Text :=
  match rels id with
  | .ok l => l.map far
  | .error _ => []

/-- The same ids are seen and queued, and the rows of those that have one. -/
structure Seen (store : GraphStore) (s : Traversal) (t : Search Text) : Prop where
  visited : ∀ a, a ∈ s.visited ↔ (t.dist.get a).isSome = true
  queue : s.queue = t.queue
  entities : ∀ a e, s.entities.get a = some e ↔ a ∈ s.visited ∧ store.getEntity a = .ok e

theorem see_relationships (id : Text) : (see store hop s id).relationships = s.relationships := by
  unfold see
  split <;> rfl

/-- An id that is new. -/
theorem Seen.fresh (h : Seen store s t) {id : Text} (hd : t.dist.get id = none) (hop : Nat) :
    Seen store (see store hop s id) ⟨t.dist.insert id hop, t.queue ++ [(id, hop)]⟩ := by
  have hout : id ∉ s.visited := fun hin => by
    have hseen := (h.visited id).1 hin
    rw [hd] at hseen
    cases hseen
  unfold see
  rw [if_neg hout]
  constructor
  · intro a
    dsimp only
    rw [List.mem_append, List.mem_singleton, FMap.get_insert, h.visited a]
    by_cases ha : a = id
    · simp [ha]
    · simp [ha]
  · dsimp only
    rw [h.queue]
  · intro a e
    dsimp only
    rw [List.mem_append, List.mem_singleton]
    cases hrow : store.getEntity id with
    | ok e' =>
      dsimp only
      rw [FMap.get_insert]
      by_cases ha : a = id
      · subst ha
        rw [if_pos rfl, hrow]
        simp
      · rw [if_neg ha, h.entities a e]
        simp [ha]
    | error x =>
      dsimp only
      rw [h.entities a e]
      by_cases ha : a = id
      · subst ha
        simp [hrow]
      · simp [ha]

theorem Seen.again (h : Seen store s t) {id : Text} (hd : (t.dist.get id).isSome = true) (hop : Nat) : see store hop s id = s := by
  unfold see
  rw [if_pos ((h.visited id).2 hd)]

theorem Seen.see (h : Seen store s t) (id : Text) : Seen store (see store (hop + 1) s id) (visit hop t id) := by
  cases hd : t.dist.get id with
  | some k =>
    rw [visit_seen hd, h.again (by rw [hd]; rfl)]
    exact h
  | none =>
    rw [visit_fresh hd]
    exact h.fresh hd (hop + 1)

theorem Seen.append (h : Seen store s t) (rel : Relationship) :
    Seen store { s with relationships := s.relationships ++ [rel] } t := ⟨h.visited, h.queue, h.entities⟩

/-- All relationships of one id. -/
theorem Seen.follow (h : Seen store s t) (far : Relationship → Text) (hop : Nat) (l : List Relationship) :
    Seen store (l.foldl (follow store far hop) s) ((l.map far).foldl (visit hop) t) ∧
      (l.foldl (follow store far hop) s).relationships = s.relationships ++ l := by
  induction l generalizing s t with
  | nil => exact ⟨h, by simp⟩
  | cons rel l ih =>
    obtain ⟨hseen, hrels⟩ := ih ((h.append rel).see (far rel))
    refine ⟨hseen, hrels.trans ?_⟩
    rw [see_relationships]
    simp

theorem isSome_start {seeds : List Text} {a : Text} : ((start seeds).dist.get a).isSome = true ↔ a ∈ seeds := by
  constructor
  · intro h
    obtain ⟨k, hk⟩ := Option.isSome_iff_exists.1 h
    obtain ⟨b, hb, heq⟩ := List.mem_map.1 (FMap.get_ofList_mem hk)
    cases heq
    exact hb
  · intro h
    have hmem : (a, 0) ∈ seeds.map fun a => (a, 0) := List.mem_map.2 ⟨a, h, rfl⟩
    exact FMap.isSome_get_ofList hmem

theorem seen_start (store : GraphStore) (seeds : List Text) :
    Seen store (seeds.foldl (see store 0) ⟨[], [], ∅, []⟩) (start seeds.eraseDups) ∧ Once (start seeds.eraseDups) ∧
      (seeds.foldl (see store 0) ⟨[], [], ∅, []⟩).relationships = [] := by
  induction seeds using List.reverseRecOn with
  | nil =>
    refine ⟨⟨fun a => ?_, rfl, fun a e => ?_⟩, ⟨List.nodup_nil, fun p hp => by cases hp⟩, rfl⟩
    · simp [start, FMap.ofList]
    · simp
  | append_singleton seeds a ih =>
    obtain ⟨hseen, honce, hrels⟩ := ih
    rw [List.foldl_append, List.foldl_cons, List.foldl_nil, List.eraseDups_append, see_relationships]
    by_cases ha : a ∈ seeds
    · have hnew : [a].removeAll seeds = [] := by simp [List.removeAll, ha]
      rw [hnew, hseen.again (isSome_start.2 (List.mem_eraseDups.2 ha)), List.eraseDups_nil, List.append_nil]
      exact ⟨hseen, honce, hrels⟩
    · have hnew : [a].removeAll seeds = [a] := by simp [List.removeAll, ha]
      have hstart : start (seeds.eraseDups ++ [a].eraseDups) =
          ⟨(start seeds.eraseDups).dist.insert a 0, (start seeds.eraseDups).queue ++ [(a, 0)]⟩ := by
        rw [show [a].eraseDups = [a] by rw [List.eraseDups_cons]; rfl]
        simp [start, FMap.ofList]
      have hnone : (start seeds.eraseDups).dist.get a = none := by
        rw [← Option.not_isSome_iff_eq_none]
        exact fun h => ha (List.mem_eraseDups.1 (isSome_start.1 h))
      rw [hnew, hstart]
      exact ⟨hseen.fresh hnone 0, once_push honce hnone 0, hrels⟩

/-! ### The relationships that have been read -/

theorem mem_rowsAt (hk : g.RelationshipsKeyed) {rel : Relationship} {id : Text} :
    rel ∈ rowsAt near g id ↔ g.HoldsRelationship rel ∧ near rel = id := by
  unfold rowsAt
  rw [List.mem_filter, GraphSnapshot.mem_relationshipRows hk]
  simp

theorem nodup_rowsAt (hk : g.RelationshipsKeyed) (id : Text) : ((rowsAt near g id).map Relationship.id).Nodup := by
  have hids : (g.relationships.pairs.map Prod.snd).map Relationship.id = g.relationships.keys := by
    rw [← FMap.map_fst_pairs, List.map_map]
    refine List.map_congr_left fun p hp => ?_
    exact hk p.1 p.2 (FMap.mem_pairs.1 hp)
  have hall : ((g.relationships.pairs.map Prod.snd).map Relationship.id).Nodup := by
    rw [hids]
    exact AList.keys_nodup _
  exact hall.sublist (List.filter_sublist.map _)

/-- Beside the search: the relationships of all that has left the queue, within the limit. -/
structure Reading (store : GraphStore) (near : Relationship → Text) (g : GraphSnapshot) (maxHops : Nat) (s : Traversal)
    (t : Search Text) : Prop where
  seen : Seen store s t
  once : Once t
  read : ∀ rel, rel ∈ s.relationships ↔ g.HoldsRelationship rel ∧
    ∃ h, t.dist.get (near rel) = some h ∧ h < maxHops ∧ near rel ∉ t.queue.map Prod.fst
  ids : (s.relationships.map Relationship.id).Nodup

theorem reading_start (store : GraphStore) (near : Relationship → Text) (g : GraphSnapshot) (maxHops : Nat) (seeds : List Text) :
    Reading store near g maxHops (seeds.foldl (see store 0) ⟨[], [], ∅, []⟩) (start seeds.eraseDups) := by
  obtain ⟨hseen, honce, hrels⟩ := seen_start store seeds
  refine ⟨hseen, honce, fun rel => ?_, by rw [hrels]; exact List.nodup_nil⟩
  rw [hrels]
  constructor
  · intro h
    cases h
  · rintro ⟨-, h, hd, -, hq⟩
    -- all that has been seen is in the queue
    refine absurd ?_ hq
    obtain ⟨b, hb, heq⟩ := List.mem_map.1 (FMap.get_ofList_mem hd)
    cases heq
    exact List.mem_map.2 ⟨(near rel, 0), List.mem_map.2 ⟨near rel, hb, rfl⟩, rfl⟩

theorem once_pop {d : FMap Text Nat} {p : Text × Nat} {rest : List (Text × Nat)} (h : Once ⟨d, p :: rest⟩) :
    Once ⟨d, rest⟩ ∧ p.1 ∉ rest.map Prod.fst :=
  ⟨⟨(List.nodup_cons.1 h.nodup).2, fun q hq => h.seen q (List.mem_cons_of_mem _ hq)⟩, (List.nodup_cons.1 h.nodup).1⟩

/-- At the limit an id leaves the queue and nothing is read. -/
theorem Reading.drop {d : FMap Text Nat} {current : Text} {rest : List (Text × Nat)}
    (h : Reading store near g maxHops s ⟨d, (current, hop) :: rest⟩) (hd : d.get current = some hop) (hhop : maxHops ≤ hop) :
    Reading store near g maxHops { s with queue := rest } ⟨d, rest⟩ := by
  refine ⟨⟨h.seen.visited, rfl, h.seen.entities⟩, (once_pop h.once).1, fun rel => ?_, h.ids⟩
  rw [h.read rel]
  refine and_congr_right fun _ => exists_congr fun k => and_congr_right fun hk => and_congr_right fun hlt => ?_
  have hne : near rel ≠ current := by
    intro heq
    have hk : d.get (near rel) = some k := hk
    rw [heq, hd] at hk
    have := Option.some.inj hk
    omega
  simp [hne]

/-- **Below the limit its relationships are read and followed.** -/
theorem Reading.expand (hk : g.RelationshipsKeyed) {d : FMap Text Nat} {current : Text} {rest : List (Text × Nat)}
    {l : List Relationship} (h : Reading store near g maxHops s ⟨d, (current, hop) :: rest⟩) (hd : d.get current = some hop)
    (hhop : hop < maxHops) (hl : l.Perm (rowsAt near g current)) :
    Reading store near g maxHops (l.foldl (follow store far hop) { s with queue := rest })
      ((l.map far).foldl (visit hop) ⟨d, rest⟩) := by
  obtain ⟨honce, hcurrent⟩ := once_pop h.once
  have hpop : Seen store { s with queue := rest } ⟨d, rest⟩ := ⟨h.seen.visited, rfl, h.seen.entities⟩
  obtain ⟨hseen, hrels⟩ := hpop.follow far hop l
  have hmem : ∀ rel, rel ∈ l ↔ g.HoldsRelationship rel ∧ near rel = current := fun rel => by
    rw [hl.mem_iff, mem_rowsAt hk]
  have hext := extends_foldl_visit hop (l.map far) ⟨d, rest⟩
  -- an id that has been seen before is in the queue only where it was
  have hqueue : ∀ {a k}, d.get a = some k →
      (a ∈ ((l.map far).foldl (visit hop) ⟨d, rest⟩).queue.map Prod.fst ↔ a ∈ rest.map Prod.fst) := by
    intro a k ha
    constructor
    · intro hin
      obtain ⟨p, hp, rfl⟩ := List.mem_map.1 hin
      rcases mem_queue_foldl_visit hp with hp | hnone
      · exact List.mem_map.2 ⟨p, hp, rfl⟩
      · rw [show d.get p.1 = none from hnone] at ha
        cases ha
    · intro hin
      obtain ⟨p, hp, rfl⟩ := List.mem_map.1 hin
      exact List.mem_map.2 ⟨p, hext.queue hp, rfl⟩
  refine ⟨hseen, once_foldl_visit honce hop, fun rel => ?_, ?_⟩
  · rw [hrels, List.mem_append, hmem]
    constructor
    · rintro (hold | ⟨hheld, hat⟩)
      · obtain ⟨hheld, k, hget, hlt, hout⟩ := (h.read rel).1 hold
        refine ⟨hheld, k, hext.kept hget, hlt, ?_⟩
        rw [hqueue hget]
        exact fun hin => hout (List.mem_cons_of_mem _ hin)
      · refine ⟨hheld, hop, hext.kept (by rw [hat]; exact hd), hhop, ?_⟩
        rw [hat, hqueue hd]
        exact hcurrent
    · rintro ⟨hheld, k, hget, hlt, hout⟩
      rcases hext.fresh hget with hold | hin
      · by_cases hat : near rel = current
        · exact .inr ⟨hheld, hat⟩
        · refine .inl ((h.read rel).2 ⟨hheld, k, hold, hlt, fun hin => ?_⟩)
          rcases List.mem_cons.1 hin with heq | hin
          · exact hat heq
          · exact hout ((hqueue hold).2 hin)
      · exact absurd (List.mem_map.2 ⟨_, hin, rfl⟩) hout
  · rw [hrels, List.map_append, List.nodup_append]
    refine ⟨h.ids, ((hl.map _).nodup_iff).2 (nodup_rowsAt hk current), fun i hi j hj hij => ?_⟩
    obtain ⟨rel, hrel, rfl⟩ := List.mem_map.1 hi
    obtain ⟨rel', hrel', rfl⟩ := List.mem_map.1 hj
    obtain ⟨hheld, k, -, -, hout⟩ := (h.read rel).1 hrel
    obtain ⟨hheld', hat⟩ := (hmem rel').1 hrel'
    rw [GraphSnapshot.holdsRelationship_unique hheld hheld' hij, hat] at hout
    exact hout List.mem_cons_self

/-- **The loop is the search**: it does not fail, and reads what leaves the queue. -/
theorem traverse_search (hk : g.RelationshipsKeyed) (hr : Reads store rels near g) {seeds : List Text} {fuel : Nat}
    (hs : Searching (nextIn rels far) maxHops seeds t) (h : Reading store near g maxHops s t) :
    ∃ s', traverse store rels far maxHops fuel s = .ok s' ∧
      Reading store near g maxHops s' (search (nextIn rels far) maxHops fuel t) := by
  induction fuel generalizing s t with
  | zero => exact ⟨s, rfl, h⟩
  | succ fuel ih =>
    obtain ⟨d, queue⟩ := t
    unfold traverse search
    rw [h.seen.queue]
    cases queue with
    | nil => exact ⟨s, rfl, h⟩
    | cons p rest =>
      obtain ⟨current, hop⟩ := p
      have hd : d.get current = some hop := hs.sound.queued (a := current) (h := hop) List.mem_cons_self
      dsimp only
      by_cases hhop : maxHops ≤ hop
      · rw [if_pos hhop, if_pos hhop]
        exact ih (searching_drop hs hhop) (h.drop hd hhop)
      · rw [if_neg hhop, if_neg hhop]
        obtain ⟨l, hl, hperm⟩ := hr.relationships current
        have hnext : nextIn rels far current = l.map far := by
          unfold nextIn
          rw [hl]
        rw [hl, hnext]
        refine ih ?_ (h.expand hk hd (by omega) hperm)
        rw [← hnext]
        exact searching_expand hs (by omega)

/-- The ids that the relationships lead to from here. -/
def nextOf (near far : Relationship → Text) (g : GraphSnapshot) (id : Text) : List Text := (rowsAt near g id).map far

theorem mem_nextOf (hk : g.RelationshipsKeyed) {a b : Text} :
    b ∈ nextOf near far g a ↔ ∃ rel, g.HoldsRelationship rel ∧ near rel = a ∧ far rel = b := by
  unfold nextOf
  simp only [List.mem_map, mem_rowsAt hk, and_assoc]

theorem mem_nextIn (hr : Reads store rels near g) (a b : Text) : b ∈ nextIn rels far a ↔ b ∈ nextOf near far g a := by
  obtain ⟨l, hl, hperm⟩ := hr.relationships a
  unfold nextIn nextOf
  rw [hl]
  exact (hperm.map far).mem_iff

/-- What there is room for in the queue. -/
def enough (seeds : List Text) (g : GraphSnapshot) : Nat := seeds.length + g.relationships.pairs.length

theorem length_eraseDups_le (seeds : List Text) : seeds.eraseDups.length ≤ seeds.length := by
  have hnodup : seeds.eraseDups.Nodup := by
    have honce := (seen_start (postgres id ∅) seeds).2.1.nodup
    unfold start at honce
    rw [List.map_map] at honce
    simpa [Function.comp_def] using honce
  exact (List.subperm_of_subset hnodup fun a ha => List.mem_eraseDups.1 ha).length_le

variable (far maxHops) in
/-- **What the search answers**: the rows within the hops of a seed, and the relationships that begin below the limit, each
once. -/
theorem bfs_exact (hke : g.Keyed) (hk : g.RelationshipsKeyed) (hr : Reads store rels near g) (env : Env) {fuel : Nat}
    {seeds : List Text} (hfuel : enough seeds g ≤ fuel) : ∃ es rs, bfs store rels far maxHops env fuel seeds = .ok (es, rs) ∧
      (∀ e, e ∈ es ↔ ∃ e', g.Holds e' ∧ e = rowToEntity e' ∧ ∃ n ≤ maxHops, Walk (nextOf near far g) seeds n e'.id) ∧
      (es.map Entity.id).Nodup ∧
      (∀ rel, rel ∈ rs ↔ g.HoldsRelationship rel ∧ ∃ n < maxHops, Walk (nextOf near far g) seeds n (near rel)) ∧
      (rs.map Relationship.id).Nodup := by
  have hsearching : Searching (nextIn rels far) maxHops seeds.eraseDups (start seeds.eraseDups) := searching_start _ _
  obtain ⟨s, hs, hreading⟩ : ∃ s, traverse store rels far maxHops fuel (seeds.foldl (see store 0) ⟨[], [], ∅, []⟩) = .ok s ∧
      Reading store near g maxHops s (search (nextIn rels far) maxHops fuel (start seeds.eraseDups)) :=
    traverse_search hk hr hsearching (reading_start store near g maxHops seeds)
  have hnodes : ∀ a, ∀ b ∈ nextIn rels far a, b ∈ (g.relationships.pairs.map Prod.snd).map far := by
    intro a b hb
    rw [mem_nextIn hr, mem_nextOf hk] at hb
    obtain ⟨rel, hheld, -, rfl⟩ := hb
    exact List.mem_map.2 ⟨rel, (GraphSnapshot.mem_relationshipRows hk).2 hheld, rfl⟩
  have hroom : seeds.eraseDups.length + ((g.relationships.pairs.map Prod.snd).map far).length ≤ fuel := by
    have := length_eraseDups_le seeds
    unfold enough at hfuel
    simp only [List.length_map]
    omega
  -- distances by the order of the store are distances
  have hget : ∀ {a n}, (search (nextIn rels far) maxHops fuel (start seeds.eraseDups)).dist.get a = some n ↔
      Distance (nextOf near far g) seeds n a ∧ n ≤ maxHops := by
    intro a n
    rw [get_search hnodes hroom, distance_next (mem_nextIn hr), distance_congr fun a => List.mem_eraseDups (l := seeds) (a := a)]
  have hempty : (search (nextIn rels far) maxHops fuel (start seeds.eraseDups)).queue = [] :=
    queue_search hnodes ((room_start _ _).trans hroom)
  have hvisited : ∀ a, a ∈ s.visited ↔ ∃ n ≤ maxHops, Walk (nextOf near far g) seeds n a := by
    intro a
    rw [hreading.seen.visited, Option.isSome_iff_exists]
    constructor
    · rintro ⟨n, hn⟩
      obtain ⟨hd, hle⟩ := hget.1 hn
      exact ⟨n, hle, hd.1⟩
    · rintro ⟨n, hle, hw⟩
      obtain ⟨m, hm, hd⟩ := distance_of_walk hw
      exact ⟨m, hget.2 ⟨hd, hm.trans hle⟩⟩
  refine ⟨_, s.relationships, by unfold bfs; rw [hs]; rfl, fun e => ?_, ?_, fun rel => ?_, hreading.ids⟩
  · rw [List.mem_filterMap]
    constructor
    · rintro ⟨a, -, ha⟩
      obtain ⟨hin, hrow⟩ := (hreading.seen.entities a e).1 ha
      obtain ⟨e', he', rfl⟩ := (hr.entity a e).1 hrow
      obtain rfl := hke a e' he'
      exact ⟨e', he', rfl, (hvisited e'.id).1 hin⟩
    · rintro ⟨e', he', rfl, hw⟩
      have hrow := (hreading.seen.entities e'.id (rowToEntity e')).2 ⟨(hvisited e'.id).2 hw, (hr.entity _ _).2 ⟨e', he', rfl⟩⟩
      refine ⟨e'.id, ?_, hrow⟩
      rw [Env.mem_hashOrder, FMap.mem_keys, hrow]
      rfl
  · -- an id is a key of the map at most once, and its row has that id
    have hids : ∀ keys : List Text, (keys.filterMap s.entities.get).map Entity.id =
        keys.filter fun a => (s.entities.get a).isSome := by
      intro keys
      induction keys with
      | nil => rfl
      | cons a keys ih =>
        rw [List.filterMap_cons, List.filter_cons]
        cases ha : s.entities.get a with
        | none => simpa using ih
        | some e =>
          obtain ⟨e', he', rfl⟩ := (hr.entity a e).1 ((hreading.seen.entities a e).1 ha).2
          have hid : (rowToEntity e').id = a := hke a e' he'
          simp only [List.map_cons, Option.isSome_some, if_true, hid, ih]
    rw [hids]
    exact ((env.hashOrderPerm _).nodup_iff.2 (AList.keys_nodup _)).filter _
  · rw [hreading.read rel, hempty]
    refine and_congr_right fun _ => ?_
    constructor
    · rintro ⟨n, hn, hlt, -⟩
      exact ⟨n, hlt, (hget.1 hn).1.1⟩
    · rintro ⟨n, hlt, hw⟩
      obtain ⟨m, hm, hd⟩ := distance_of_walk hw
      exact ⟨m, hget.2 ⟨hd, by omega⟩, by omega, by simp⟩

end Spec

/-! ## What the endpoints answer -/

section Answers

variable {scan : List Relationship → List Relationship} (hscan : ∀ l, (scan l).Perm l) (g : GraphTables) (env : Env)
  {fuel : Nat}

theorem reads_postgres_entity (scan : List Relationship → List Relationship) (g : GraphSnapshot) (id : Text) (e : Entity) :
    (postgres scan g).getEntity id = .ok e ↔ ∃ e', g.entities.get id = some e' ∧ e = rowToEntity e' := by
  unfold postgres
  dsimp only
  cases g.entities.get id with
  | none => simp
  | some e' => simp [eq_comm]

theorem entityOf_none {g : GraphSnapshot} {id : Text} (h : g.entities.get id = none) :
    entityOf (postgres scan g) id = .error (.notFound ("entity '".toList ++ id ++ "' not found".toList)) := by
  have hrow : (postgres scan g).getEntity id = .error (.notFound ("entity ".toList ++ id)) := by
    simp [postgres, h]
  unfold entityOf
  rw [hrow]

theorem entityOf_some {g : GraphSnapshot} {id : Text} {e : Entity} (h : g.entities.get id = some e) :
    entityOf (postgres scan g) id = .ok (rowToEntity e) := by
  unfold entityOf
  rw [(reads_postgres_entity scan g id (rowToEntity e)).2 ⟨e, h, rfl⟩]

include hscan in
theorem reads_forward (g : GraphSnapshot) :
    Reads (postgres scan g) (postgres scan g).getRelationships Relationship.fromEntity g :=
  ⟨reads_postgres_entity scan g, fun _ => ⟨_, rfl, hscan _⟩⟩

include hscan in
theorem reads_inverse (g : GraphSnapshot) :
    Reads (postgres scan g) (postgres scan g).getInverseRelationships Relationship.toEntity g :=
  ⟨reads_postgres_entity scan g, fun _ => ⟨_, rfl, hscan _⟩⟩

/-- The ids that the relationships of an id lead to. -/
abbrev dependsOn (g : GraphSnapshot) : Text → List Text := nextOf Relationship.fromEntity Relationship.toEntity g

/-- The ids whose relationships lead to an id. -/
abbrev usedBy (g : GraphSnapshot) : Text → List Text := nextOf Relationship.toEntity Relationship.fromEntity g

include hscan in
/-- **The dependencies of an entity are exactly the others with a row that relationships lead to in at most twenty steps**,
with the relationships of all that are less than twenty away; the entity itself has to have a row. -/
theorem getEntityDepsHandler_exact (id : Text) (hfuel : enough [id] g.1 ≤ fuel) :
    (g.1.entities.get id = none →
      getEntityDepsHandler (postgres scan g.1) env fuel id = .error (.notFound ("entity '".toList ++ id ++ "' not found".toList))) ∧
    ((g.1.entities.get id).isSome = true → ∃ deps rels, getEntityDepsHandler (postgres scan g.1) env fuel id = .ok (deps, rels) ∧
      (∀ e, e ∈ deps ↔ ∃ e', g.1.Holds e' ∧ e = rowToEntity e' ∧ e'.id ≠ id ∧ ∃ n ≤ 20, Walk (dependsOn g.1) [id] n e'.id) ∧
      (deps.map Entity.id).Nodup ∧
      (∀ rel, rel ∈ rels ↔ g.1.HoldsRelationship rel ∧ ∃ n < 20, Walk (dependsOn g.1) [id] n rel.fromEntity) ∧
      (rels.map Relationship.id).Nodup) := by
  constructor
  · intro hnone
    unfold getEntityDepsHandler
    rw [entityOf_none hnone]
    rfl
  · intro hsome
    obtain ⟨e₀, he₀⟩ := Option.isSome_iff_exists.1 hsome
    obtain ⟨es, rs, hok, hes, hnodup, hrs, hids⟩ :=
      bfs_exact Relationship.toEntity 20 g.2.1 g.2.2 (reads_forward hscan g.1) env hfuel
    refine ⟨es.filter fun e => e.id ≠ id, rs, ?_, fun e => ?_, hnodup.sublist (List.filter_sublist.map _), hrs, hids⟩
    · have hforward : bfsForward (postgres scan g.1) env fuel [id] 20 = .ok (es, rs) := hok
      unfold getEntityDepsHandler
      rw [entityOf_some he₀, hforward]
      rfl
    · rw [List.mem_filter, hes]
      constructor
      · rintro ⟨⟨e', hheld, rfl, hw⟩, hne⟩
        exact ⟨e', hheld, rfl, of_decide_eq_true hne, hw⟩
      · rintro ⟨e', hheld, rfl, hne, hw⟩
        exact ⟨⟨e', hheld, rfl, hw⟩, decide_eq_true hne⟩

/-- Two functions, of which one calls the other and something outside. -/
def callingFile : Env :=
  { Env.plain with
    parseSourceFile := fun p _ => .ok
      ([⟨"f".toList, .function, "f".toList, "f".toList, p, (0, 9), (1, 1), none⟩,
        ⟨"g".toList, .function, "g".toList, "g".toList, p, (10, 19), (2, 2), none⟩],
       [⟨"fg".toList, .calls, "f".toList, "g".toList⟩, ⟨"fh".toList, .calls, "f".toList, "h".toList⟩]) }

def calling : GraphTables := GraphTables.empty.updateFile callingFile "a.rs".toList []

theorem getEntityDepsHandler_calling : ∃ deps rels, getEntityDepsHandler (postgres id calling.1) Env.plain 3 "f".toList =
    .ok (deps, rels) ∧ ∀ e, e ∈ deps ↔ ∃ e', calling.1.Holds e' ∧ e = rowToEntity e' ∧ e'.id ≠ "f".toList ∧
      ∃ n ≤ 20, Walk (dependsOn calling.1) ["f".toList] n e'.id := by
  obtain ⟨deps, rels, hok, hdeps, -⟩ :=
    (getEntityDepsHandler_exact (fun _ => .refl _) calling Env.plain "f".toList
      (show enough ["f".toList] calling.1 ≤ 3 by decide)).2 (by decide)
  exact ⟨deps, rels, hok, hdeps⟩

theorem walk_reversed (g : GraphTables) {n : Nat} {a b : Text} : Walk (dependsOn g.1) [a] n b ↔ Walk (usedBy g.1) [b] n a := by
  apply walk_reverse
  intro a b
  rw [mem_nextOf g.2.2, mem_nextOf g.2.2]
  exact exists_congr fun rel => and_congr_right fun _ => and_comm

theorem reached_of_usedBy {seeds : List Text} {maxHops n : Nat} {a : Text} (hn : n ≤ maxHops) (hw : Walk (usedBy g.1) seeds n a) :
    BlastRadius.Reached g.1 seeds maxHops a := by
  have hstep : ∀ a b, b ∈ usedBy g.1 a → b ∈ g.1.neighbours a := by
    intro a b hb
    obtain ⟨rel, hheld, hto, hfrom⟩ := (mem_nextOf g.2.2).1 hb
    exact GraphSnapshot.mem_neighbours.2 ⟨rel.id, rel, hheld, .inr ⟨hfrom, hto⟩⟩
  have hboth : ∀ {n a}, Walk (usedBy g.1) seeds n a → Walk g.1.neighbours seeds n a := by
    intro n a h
    induction h with
    | seed ha => exact .seed ha
    | step _ hb ih => exact ih.step (hstep _ _ hb)
  exact (exists_walk_le_iff (GraphSnapshot.neighbouring_neighbours g.1)).1 ⟨n, hn, hboth hw⟩

include hscan in
/-- **One entity is in the blast radius of others exactly when one of them is within its dependencies of as many hops**, and
all that the server answers the local search has in its answer, if it gives one. -/
theorem getBlastRadiusHandler_iff (entities : Text) (hops : Nat) (hseeds : seedIds entities ≠ [])
    (hfuel : enough (seedIds entities) g.1 ≤ fuel) (hrows : ∀ s ∈ seedIds entities, (g.1.entities.get s).isSome = true) :
    ∃ es rs, getBlastRadiusHandler (postgres scan g.1) env fuel entities hops = .ok (es, rs) ∧
      ∀ e, g.1.Holds e →
        (rowToEntity e ∈ es ↔ ∃ deps rels, bfsForward (postgres scan g.1) env fuel [e.id] hops = .ok (deps, rels) ∧
          ∃ d ∈ deps, d.id ∈ seedIds entities) ∧
        (rowToEntity e ∈ es → ∀ es' rs', BlastRadius.reachableEntities env g.1 (seedIds entities) hops = .ok (es', rs') →
          e ∈ es') := by
  obtain ⟨es, rs, hok, hes, -, -, -⟩ :=
    bfs_exact Relationship.fromEntity hops g.2.1 g.2.2 (reads_inverse hscan g.1) env hfuel
  have hinverse : bfsInverse (postgres scan g.1) env fuel (seedIds entities) hops = .ok (es, rs) := hok
  refine ⟨es, rs, ?_, fun e he => ?_⟩
  · unfold getBlastRadiusHandler
    rw [if_neg hseeds, hinverse]
  have hmem : rowToEntity e ∈ es ↔ ∃ n ≤ hops, Walk (usedBy g.1) (seedIds entities) n e.id := by
    rw [hes]
    constructor
    · rintro ⟨e', -, heq, hw⟩
      have hid : (rowToEntity e).id = (rowToEntity e').id := congrArg Entity.id heq
      rw [show e.id = e'.id from hid]
      exact hw
    · exact fun hw => ⟨e, he, rfl, hw⟩
  have hlen : enough [e.id] g.1 ≤ fuel := by
    have : 0 < (seedIds entities).length := List.length_pos_iff.2 hseeds
    unfold enough at hfuel ⊢
    simp only [List.length_singleton]
    omega
  obtain ⟨deps, rels, hok', hdeps, -, -, -⟩ :=
    bfs_exact Relationship.toEntity hops g.2.1 g.2.2 (reads_forward hscan g.1) env hlen
  have hforward : bfsForward (postgres scan g.1) env fuel [e.id] hops = .ok (deps, rels) := hok'
  refine ⟨?_, fun h es' rs' hlocal => ?_⟩
  · rw [hmem]
    constructor
    · rintro ⟨n, hn, hw⟩
      obtain ⟨s, hs, hws⟩ := exists_walk hw
      obtain ⟨e', he'⟩ := Option.isSome_iff_exists.1 (hrows s hs)
      obtain rfl := g.2.1 s e' he'
      exact ⟨deps, rels, hforward, rowToEntity e', (hdeps _).2 ⟨e', he', rfl, n, hn, (walk_reversed g).2 hws⟩, hs⟩
    · rintro ⟨deps', rels', hok'', d, hd, hs⟩
      rw [hforward] at hok''
      cases hok''
      obtain ⟨e', he', rfl, n, hn, hw⟩ := (hdeps d).1 hd
      refine ⟨n, hn, ?_⟩
      rw [← Nat.zero_add n]
      refine walk_add (fun b hb => ?_) ((walk_reversed g).1 hw)
      rw [List.mem_singleton.1 hb]
      exact .seed hs
  · obtain ⟨n, hn, hw⟩ := hmem.1 h
    obtain ⟨-, rfl, -⟩ := BlastRadius.reachableEntities_eq_ok.1 hlocal
    exact (BlastRadius.mem_reachedEntities g.2.1).2 ⟨he, reached_of_usedBy g hn hw⟩

theorem getBlastRadiusHandler_calling : ∃ es rs,
    getBlastRadiusHandler (postgres id calling.1) Env.plain 3 "g".toList 2 = .ok (es, rs) ∧ ∀ e, calling.1.Holds e →
      (rowToEntity e ∈ es ↔ ∃ deps rels, bfsForward (postgres id calling.1) Env.plain 3 [e.id] 2 = .ok (deps, rels) ∧
        ∃ d ∈ deps, d.id ∈ seedIds "g".toList) ∧
      (rowToEntity e ∈ es → ∀ es' rs', BlastRadius.reachableEntities Env.plain calling.1 (seedIds "g".toList) 2 =
        .ok (es', rs') → e ∈ es') :=
  getBlastRadiusHandler_iff (fun _ => .refl _) calling Env.plain "g".toList 2 (by decide) (by decide) (by decide)

end Answers
end ServerGraph
end Vai
