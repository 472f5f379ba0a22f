import Vai.Scope
import Vai.Bfs
/-!
# GraphDistance — distances in the semantic graph

A relationship joins its ends in both directions.  What the queries of `graph/mod.rs` reach is told by the distances over
these edges (`mem_reach`, `mem_around`), and whether they answer by the number of ids (`reachableEntities_eq_ok`); the queue
of `reachable_entities` sees the same ids as the levels by which they are modelled (`isSome_distances_iff`).

`id` is the primary key of the table of entities, so that a stored entity is under its id.  `SemanticGraph` carries this:
it holds of the empty graph, and every change of the graph keeps it.
-/
namespace Vai

open Bfs

theorem ok_bind_iff {ε α β : Type} {x : Except ε α} {f : α → Except ε β} {b : β} :
    (x >>= f) = .ok b ↔ ∃ a, x = .ok a ∧ f a = .ok b := by
  cases x with
  | error e => simp [bind, Except.bind]
  | ok a => simp [bind, Except.bind]

theorem mapM_eq_ok {ε α β : Type} {f : α → Except ε β} {P : α → Prop} {f' : α → β}
    (h : ∀ a b, f a = .ok b ↔ P a ∧ b = f' a) (l : List α) (bs : List β) :
    l.mapM f = .ok bs ↔ (∀ a ∈ l, P a) ∧ bs = l.map f' := by
  induction l generalizing bs with
  | nil => simp [pure, Except.pure, eq_comm]
  | cons a l ih =>
    rw [List.mapM_cons, ok_bind_iff]
    simp only [h, ok_bind_iff, ih, List.forall_mem_cons, List.map_cons, pure, Except.pure, Except.ok.injEq]
    constructor
    · rintro ⟨b, ⟨ha, rfl⟩, bs', ⟨hl, rfl⟩, rfl⟩
      exact ⟨⟨ha, hl⟩, rfl⟩
    · rintro ⟨⟨ha, hl⟩, rfl⟩
      exact ⟨_, ⟨ha, rfl⟩, _, ⟨hl, rfl⟩, rfl⟩

namespace GraphSnapshot

/-- Rows under their primary key. -/
def Keyed (g : GraphSnapshot) : Prop := ∀ i e, g.entities.get i = some e → e.id = i

/-- Some relationship joins the two ids, in one direction or the other. -/
def Related (g : GraphSnapshot) (a b : Text) : Prop :=
  ∃ i r, g.relationships.get i = some r ∧ ((r.fromEntity = a ∧ r.toEntity = b) ∨ (r.fromEntity = b ∧ r.toEntity = a))

/-- The ends of all relationships. -/
def endpoints (g : GraphSnapshot) : List Text :=
  (g.relationships.pairs.map Prod.snd).flatMap fun r => [r.fromEntity, r.toEntity]

variable {g : GraphSnapshot} {e : Entity} {a b : Text} {seeds : List Text}

/-! ## The key -/

theorem keyed_empty : Keyed ∅ := fun i e h => by
  have h : FMap.get (∅ : FMap Text Entity) i = some e := h
  rw [FMap.get_empty] at h
  cases h

theorem keyed_upsertEntity (hk : g.Keyed) (e : Entity) : (g.upsertEntity e).Keyed := by
  intro i e' h
  unfold upsertEntity at h
  dsimp only at h
  rw [FMap.get_insert] at h
  split at h
  · rename_i hi
    cases h
    exact hi.symm
  · exact hk i e' h

theorem keyed_upsertRelationship (hk : g.Keyed) (r : Relationship) : (g.upsertRelationship r).Keyed := hk

theorem keyed_removeFile (hk : g.Keyed) (p : Path) : (g.removeFile p).Keyed := fun i e h => hk i e (get_removeFile.1 h).1

theorem keyed_upsertEntities (es : List Entity) (hk : g.Keyed) : (es.foldl upsertEntity g).Keyed := by
  induction es generalizing g with
  | nil => exact hk
  | cons e es ih => exact ih (keyed_upsertEntity hk e)

theorem keyed_upsertRelationships (rs : List Relationship) (hk : g.Keyed) : (rs.foldl upsertRelationship g).Keyed := by
  induction rs generalizing g with
  | nil => exact hk
  | cons r rs ih => exact ih (keyed_upsertRelationship hk r)

theorem keyed_updateFile (hk : g.Keyed) (env : Env) (p : Path) (source : Bytes) : (updateFile env p source g).2.Keyed := by
  unfold updateFile
  cases env.parseSourceFile p source with
  | error e => exact keyed_removeFile hk p
  | ok r => exact keyed_upsertRelationships r.2 (keyed_upsertEntities r.1 (keyed_removeFile hk p))

theorem keyed_rows (es : List Entity) (rs : List Relationship) :
    (rs.foldl upsertRelationship (es.foldl upsertEntity ∅)).Keyed :=
  keyed_upsertRelationships rs (keyed_upsertEntities es keyed_empty)

theorem holds_unique {e' : Entity} (h : g.Holds e) (h' : g.Holds e') (hid : e.id = e'.id) : e = e' := by
  unfold Holds at h h'
  rw [← hid, h] at h'
  exact Option.some.inj h'

theorem mem_rows (hk : g.Keyed) : e ∈ g.entities.pairs.map Prod.snd ↔ g.Holds e := by
  constructor
  · intro h
    obtain ⟨⟨i, e'⟩, hm, rfl⟩ := List.mem_map.1 h
    have hget := FMap.mem_pairs.1 hm
    unfold Holds
    rw [hk i e' hget]
    exact hget
  · exact fun h => List.mem_map.2 ⟨(e.id, e), FMap.mem_pairs.2 h, rfl⟩

theorem mem_ordered {es : List Entity} : e ∈ ordered es ↔ e ∈ es := List.mem_insertionSort _

theorem mem_select (hk : g.Keyed) {p : Entity → Bool} : e ∈ g.select p ↔ g.Holds e ∧ p e = true := by
  unfold select
  rw [mem_ordered, List.mem_filter, mem_rows hk]

theorem nodup_rows (hk : g.Keyed) : ((g.entities.pairs.map Prod.snd).map Entity.id).Nodup := by
  have hids : (g.entities.pairs.map Prod.snd).map Entity.id = g.entities.pairs.map Prod.fst := by
    rw [List.map_map]
    exact List.map_congr_left fun q hq => hk q.1 q.2 (FMap.mem_pairs.1 hq)
  rw [hids, FMap.map_fst_pairs]
  exact g.entities.keys_nodup

theorem nodup_select (hk : g.Keyed) (p : Entity → Bool) : ((g.select p).map Entity.id).Nodup :=
  ((List.perm_insertionSort _ _).map Entity.id).nodup_iff.2 ((nodup_rows hk).sublist (List.filter_sublist.map _))

/-! ## The edges -/

theorem mem_relationships {r : Relationship} :
    r ∈ g.relationships.pairs.map Prod.snd ↔ ∃ i, g.relationships.get i = some r := by
  constructor
  · intro h
    obtain ⟨⟨i, r'⟩, hm, rfl⟩ := List.mem_map.1 h
    exact ⟨i, FMap.mem_pairs.1 hm⟩
  · rintro ⟨i, h⟩
    exact List.mem_map.2 ⟨(i, r), FMap.mem_pairs.2 h, rfl⟩

theorem mem_neighbours : b ∈ g.neighbours a ↔ g.Related a b := by
  unfold neighbours Related
  rw [List.mem_map]
  constructor
  · rintro ⟨r, hr, rfl⟩
    rw [List.mem_filter, mem_relationships] at hr
    obtain ⟨⟨i, hi⟩, hends⟩ := hr
    refine ⟨i, r, hi, ?_⟩
    by_cases hf : r.fromEntity = a
    · rw [if_pos hf]
      exact Or.inl ⟨hf, rfl⟩
    · rw [if_neg hf]
      exact Or.inr ⟨rfl, by simpa [hf] using hends⟩
  · rintro ⟨i, r, hi, hends⟩
    refine ⟨r, List.mem_filter.2 ⟨mem_relationships.2 ⟨i, hi⟩, ?_⟩, ?_⟩
    · rcases hends with h | h
      · simp [h.1]
      · simp [h.2]
    · rcases hends with ⟨hf, ht⟩ | ⟨hf, ht⟩
      · rw [if_pos hf, ht]
      · split
        · rename_i hfa
          rw [ht, ← hfa, hf]
        · exact hf

theorem mem_endpoints (h : b ∈ g.neighbours a) : b ∈ g.endpoints := by
  obtain ⟨i, r, hi, hends⟩ := mem_neighbours.1 h
  unfold endpoints
  rw [List.mem_flatMap]
  refine ⟨r, mem_relationships.2 ⟨i, hi⟩, ?_⟩
  rcases hends with h | h
  · simp [h.2]
  · simp [h.1]

/-! ## What is reached -/

/-- One level after the other: all that is seen is within `k` hops, and the level is what is `k` hops away. -/
theorem mem_reach_from {k : Nat} {seen level : List Text} (hseen : ∀ a, a ∈ seen ↔ ∃ m ≤ k, Walk g.neighbours seeds m a)
    (hlevel : ∀ a, a ∈ level ↔ Distance g.neighbours seeds k a) (hops : Nat) :
    a ∈ g.reach hops seen level ↔ ∃ m ≤ k + hops, Walk g.neighbours seeds m a := by
  induction hops generalizing k seen level with
  | zero => exact hseen a
  | succ hops ih =>
    have hnext : ∀ b, b ∈ ((level.flatMap g.neighbours).filter (· ∉ seen)).eraseDups ↔
        Distance g.neighbours seeds (k + 1) b := by
      intro b
      rw [List.mem_eraseDups, List.mem_filter, List.mem_flatMap, decide_eq_true_iff, hseen, distance_succ]
      simp only [hlevel, not_exists, not_and]
    have hboth : ∀ b, b ∈ seen ++ ((level.flatMap g.neighbours).filter (· ∉ seen)).eraseDups ↔
        ∃ m ≤ k + 1, Walk g.neighbours seeds m b := by
      intro b
      rw [List.mem_append, hnext, hseen]
      constructor
      · rintro (⟨m, hm, hw⟩ | hd)
        · exact ⟨m, by omega, hw⟩
        · exact ⟨k + 1, le_rfl, hd.1⟩
      · rintro ⟨m, hm, hw⟩
        obtain ⟨n, hn, hd⟩ := distance_of_walk hw
        rcases Nat.lt_or_ge k n with hlt | hge
        · have hkn : n = k + 1 := by omega
          exact Or.inr (hkn ▸ hd)
        · exact Or.inl ⟨n, hge, hd.1⟩
    unfold reach
    rw [ih hboth hnext, Nat.add_assoc, Nat.add_comm 1 hops]

theorem mem_reach {hops : Nat} :
    a ∈ g.reach hops seeds.eraseDups seeds.eraseDups ↔ ∃ m ≤ hops, Walk g.neighbours seeds m a := by
  have hseen : ∀ b, b ∈ seeds.eraseDups ↔ ∃ m ≤ 0, Walk g.neighbours seeds m b := by
    intro b
    rw [List.mem_eraseDups]
    constructor
    · exact fun h => ⟨0, le_rfl, walk_zero.2 h⟩
    · rintro ⟨m, hm, hw⟩
      rw [Nat.le_zero.1 hm] at hw
      exact walk_zero.1 hw
  have hlevel : ∀ b, b ∈ seeds.eraseDups ↔ Distance g.neighbours seeds 0 b := by
    intro b
    rw [List.mem_eraseDups, distance_zero]
  rw [mem_reach_from hseen hlevel, Nat.zero_add]

/-- **The queue of `reachable_entities` sees what the levels reach.** -/
theorem isSome_distances_iff {maxHops : Nat} :
    ((distances g.neighbours maxHops g.endpoints seeds).get a).isSome ↔
      a ∈ g.reach maxHops seeds.eraseDups seeds.eraseDups := by
  rw [mem_reach, Option.isSome_iff_exists]
  simp only [get_distances fun _ _ h => mem_endpoints h]
  constructor
  · rintro ⟨n, hd, hn⟩
    exact ⟨n, hn, hd.1⟩
  · rintro ⟨n, hn, hw⟩
    obtain ⟨m, hm, hd⟩ := distance_of_walk hw
    exact ⟨m, hd, hm.trans hn⟩

theorem nodup_eraseDups : ∀ l : List Text, l.eraseDups.Nodup
  | [] => by simp
  | a :: l => by
    rw [List.eraseDups_cons, List.nodup_cons, List.mem_eraseDups, List.mem_filter]
    exact ⟨by simp, nodup_eraseDups _⟩
termination_by l => l.length
decreasing_by exact Nat.lt_succ_of_le (List.length_filter_le _ _)

theorem nodup_reach {hops : Nat} {seen level : List Text} (h : seen.Nodup) : (g.reach hops seen level).Nodup := by
  induction hops generalizing seen level with
  | zero => exact h
  | succ hops ih =>
    refine ih (List.nodup_append.2 ⟨h, nodup_eraseDups _, fun a ha b hb hab => ?_⟩)
    rw [List.mem_eraseDups, List.mem_filter, decide_eq_true_iff] at hb
    exact hb.2 (hab ▸ ha)

/-! ## What a query answers -/

/-- A pattern that a `LIKE` on the entities takes. -/
def Takes (g : GraphSnapshot) (pattern : Text) : Prop :=
  g.entities.pairs = [] ∨ (Text.intoBytes pattern).length ≤ maxLikePatternLength

/-- Ids that one statement can ask for. -/
def Askable (p : Text → Prop) : Prop := ∃ ids : List Text, ids.length ≤ maxVariableNumber ∧ ∀ a, p a → a ∈ ids

theorem Askable.mono {p q : Text → Prop} (h : Askable p) (hqp : ∀ a, q a → p a) : Askable q := by
  obtain ⟨ids, hlen, hids⟩ := h
  exact ⟨ids, hlen, fun a ha => hids a (hqp a ha)⟩

theorem askable_congr {p q : Text → Prop} (h : ∀ a, p a ↔ q a) : Askable p ↔ Askable q :=
  ⟨fun hp => hp.mono fun a => (h a).2, fun hq => hq.mono fun a => (h a).1⟩

theorem askable_iff {p : Text → Prop} {ids : List Text} (hnd : ids.Nodup) (hids : ∀ a, a ∈ ids ↔ p a) :
    Askable p ↔ ids.length ≤ maxVariableNumber := by
  constructor
  · rintro ⟨l, hlen, hl⟩
    have hsub : ids ⊆ l := fun a ha => hl a ((hids a).1 ha)
    exact (List.Nodup.subperm hnd hsub).length_le.trans hlen
  · exact fun h => ⟨ids, h, fun a => (hids a).2⟩

/-- One id more than a statement has parameters. -/
@[irreducible] def tooMany : List Text := (List.range (maxVariableNumber + 1)).map Text.ofNat

theorem not_askable_tooMany {p : Text → Prop} (h : ∀ a ∈ tooMany, p a) : ¬ Askable p := by
  rintro ⟨ids, hlen, hids⟩
  have hnd : tooMany.Nodup := by
    unfold tooMany
    exact List.Nodup.map (fun _ _ => Text.ofNat_injective) List.nodup_range
  have hle := (hnd.subperm fun a ha => hids a (h a ha)).length_le
  unfold tooMany at hle
  rw [List.length_map, List.length_range] at hle
  omega

variable {p : Text → Prop} {es : List Entity} {ids : List Text}

theorem selectLike_eq_ok {pattern : Text} {q : Entity → Bool} :
    g.selectLike pattern q = .ok es ↔ g.Takes pattern ∧ es = g.select q := by
  have htakes : g.Takes pattern ↔
      ¬ (g.entities.pairs ≠ [] ∧ maxLikePatternLength < (Text.intoBytes pattern).length) := by
    unfold Takes
    rw [not_and_or, not_not, Nat.not_lt]
  unfold selectLike
  rw [htakes]
  split
  · rename_i hrefused
    exact iff_of_false (fun h => by cases h) fun h => h.1 hrefused
  · rename_i htaken
    rw [and_iff_right htaken, Except.ok.injEq, eq_comm]

/-- **The ids are asked for where they are not too many.** -/
theorem getEntitiesByIds_eq_ok (hnd : ids.Nodup) (hids : ∀ a, a ∈ ids ↔ p a) :
    g.getEntitiesByIds ids = .ok es ↔ Askable p ∧ es = g.select fun e => e.id ∈ ids := by
  rw [askable_iff hnd hids]
  unfold getEntitiesByIds
  split
  · rename_i hnone
    subst hnone
    simp [select, ordered, eq_comm]
  · split
    · rename_i hmany
      exact iff_of_false (fun h => by cases h) fun h => absurd h.1 (Nat.not_le.2 hmany)
    · rename_i hfew
      rw [and_iff_right (Nat.not_lt.1 hfew), Except.ok.injEq, eq_comm]

theorem getEntitiesByIds_congr {ids' : List Text} (hnd : ids.Nodup) (hnd' : ids'.Nodup) (h : ∀ a, a ∈ ids ↔ a ∈ ids') :
    g.getEntitiesByIds ids = g.getEntitiesByIds ids' := by
  have hperm : ids.Perm ids' := (List.perm_ext_iff_of_nodup hnd hnd').2 h
  have hnil : ids = [] ↔ ids' = [] := by rw [← List.length_eq_zero_iff, hperm.length_eq, List.length_eq_zero_iff]
  unfold getEntitiesByIds
  simp only [hnil, hperm.length_eq, h]

/-- The stored entities within the hops of a seed. -/
def around (g : GraphSnapshot) (seeds : List Text) (maxHops : Nat) : List Entity :=
  g.select fun e => e.id ∈ g.reach maxHops seeds.eraseDups seeds.eraseDups

theorem mem_around (hk : g.Keyed) {maxHops : Nat} :
    e ∈ g.around seeds maxHops ↔ g.Holds e ∧ ∃ m ≤ maxHops, Walk g.neighbours seeds m e.id := by
  unfold around
  rw [mem_select hk, decide_eq_true_iff, mem_reach]

theorem reachableEntities_eq_ok {maxHops : Nat} : g.reachableEntities seeds maxHops = .ok es ↔
    Askable (fun a => ∃ m ≤ maxHops, Walk g.neighbours seeds m a) ∧ es = g.around seeds maxHops :=
  getEntitiesByIds_eq_ok (nodup_reach (nodup_eraseDups seeds)) fun _ => mem_reach

/-- The entities whose name contains a text. -/
def named (g : GraphSnapshot) (pattern : Text) : List Entity := g.select fun e => sqliteLike (containing pattern) e.name

theorem mem_named (hk : g.Keyed) {pattern : Text} :
    e ∈ g.named pattern ↔ g.Holds e ∧ sqliteLike (containing pattern) e.name = true := mem_select hk

theorem searchEntitiesByName_eq_ok {pattern : Text} :
    g.searchEntitiesByName pattern = .ok es ↔ g.Takes (containing pattern) ∧ es = g.named pattern := selectLike_eq_ok

end GraphSnapshot

/-- The graph of a repository. -/
def SemanticGraph := { g : GraphSnapshot // g.Keyed }

namespace SemanticGraph

/-- These rows, stored one after the other. -/
def ofRows (es : List Entity) (rs : List Relationship) : SemanticGraph :=
  ⟨rs.foldl GraphSnapshot.upsertRelationship (es.foldl GraphSnapshot.upsertEntity ∅), GraphSnapshot.keyed_rows es rs⟩

end SemanticGraph
end Vai
