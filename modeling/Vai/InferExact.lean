import Vai.ScopeInference
/-!
# InferExact — what `infer` finds

Every candidate of every term is folded into one map, the better confidence winning: `Tallied` says what the map holds
after some of the candidates, whatever their order.  The search from its keys gives every further entity its distance
(`Bfs.get_distances`), so that the result is told by the matches and the distances alone: `infer_exact_iff`.
-/
namespace Vai
namespace ScopeInference

open Bfs GraphSnapshot
open IssueDir (Unicode)

section Spec

variable (unicode : Unicode) (g : GraphSnapshot) (terms : List Text)

/-- The entities whose name, qualified name or path contains a term. -/
def hits (term : Text) : List Entity := g.select fun e =>
  sqliteLike (broad unicode term) (sqliteLower e.name) || sqliteLike (broad unicode term) (sqliteLower e.qualifiedName) ||
    sqliteLike (broad unicode term) (sqliteLower e.filePath)

def allHits : List (Text × Entity) := terms.flatMap fun term => (hits unicode g term).map fun e => (term, e)

def hitScope : FMap Text ScopedEntity := (allHits unicode g terms).foldl (matchEntity unicode) ∅

/-- Some term matches the entity. -/
def Matches (e : Entity) : Prop := ∃ t ∈ terms, e ∈ hits unicode g t

/-- Some term that matches the entity is its name in lower case. -/
def Named (e : Entity) : Prop := ∃ t ∈ terms, e ∈ hits unicode g t ∧ unicode.toLowercase e.name = t

def matchIds : List Text := (allHits unicode g terms).map fun c => c.2.id

/-- Stored or not, within the hops of a match and not itself a match. -/
def Near (maxHops : Nat) (i : Text) : Prop :=
  ∃ n, 1 ≤ n ∧ n ≤ maxHops ∧ Distance g.neighbours (matchIds unicode g terms) n i

/-- SQLite takes the terms as patterns and the ids near a match as parameters. -/
structure Queryable (maxHops : Nat) : Prop where
  patterns : ∀ t ∈ terms, g.Takes (broad unicode t)
  parameters : Askable (Near unicode g terms maxHops)

/-- **What an inference is to be.** -/
structure Exact (maxHops : Nat) (r : ScopeInference) : Prop where
  once : (r.predictedScope.map fun s => s.entity.id).Nodup
  stored : ∀ s ∈ r.predictedScope, g.Holds s.entity
  found : ∀ e, g.Holds e → ((∃ s ∈ r.predictedScope, s.entity = e) ↔
    Matches unicode g terms e ∨ Near unicode g terms maxHops e.id)
  high : ∀ s ∈ r.predictedScope, s.confidence = .high ↔ Named unicode g terms s.entity
  medium : ∀ s ∈ r.predictedScope, s.confidence = .medium ↔
    (Matches unicode g terms s.entity ∧ ¬ Named unicode g terms s.entity) ∨
      Distance g.neighbours (matchIds unicode g terms) 1 s.entity.id
  low : ∀ s ∈ r.predictedScope, s.confidence = .low ↔
    ¬ Matches unicode g terms s.entity ∧ ¬ Distance g.neighbours (matchIds unicode g terms) 1 s.entity.id
  ordered : r.predictedScope.Pairwise fun a b => b.confidence.rank ≤ a.confidence.rank

/-- The entry under an id after some candidates: the entity of some of them, High where one is named by its term. -/
structure Entry (done : List (Text × Entity)) (i : Text) (s : ScopedEntity) : Prop where
  key : s.entity.id = i
  stored : g.Holds s.entity
  source : ∃ t, (t, s.entity) ∈ done
  high : s.confidence = .high ↔ ∃ t, (t, s.entity) ∈ done ∧ unicode.toLowercase s.entity.name = t
  medium : s.confidence ≠ .low

structure Tallied (done : List (Text × Entity)) (scope : FMap Text ScopedEntity) : Prop where
  entry : ∀ {i s}, scope.get i = some s → Entry unicode g done i s
  all : ∀ {t e}, (t, e) ∈ done → (scope.get e.id).isSome

end Spec

section Match

variable {unicode : Unicode} {g : GraphSnapshot} {terms : List Text} {done : List (Text × Entity)}
  {scope : FMap Text ScopedEntity} {t i : Text} {e : Entity} {s : ScopedEntity}

theorem holds_of_hit (hk : g.Keyed) (h : e ∈ hits unicode g t) : g.Holds e := by
  unfold hits at h
  exact ((mem_select hk).1 h).1

theorem mem_allHits : (t, e) ∈ allHits unicode g terms ↔ t ∈ terms ∧ e ∈ hits unicode g t := by
  unfold allHits
  simp only [List.mem_flatMap, List.mem_map, Prod.mk.injEq]
  constructor
  · rintro ⟨t', ht', e', he', rfl, rfl⟩
    exact ⟨ht', he'⟩
  · rintro ⟨ht, he⟩
    exact ⟨t, ht, e, he, rfl, rfl⟩

/-! ## One candidate -/

theorem entry_frame (h : Entry unicode g done i s) (hi : i ≠ e.id) : Entry unicode g (done ++ [(t, e)]) i s := by
  have hother : ∀ t', (t', s.entity) ∈ done ++ [(t, e)] ↔ (t', s.entity) ∈ done := by
    intro t'
    rw [List.mem_append, List.mem_singleton]
    refine or_iff_left fun heq => hi ?_
    rw [← h.key]
    exact congrArg (fun c => c.2.id) heq
  constructor
  · exact h.key
  · exact h.stored
  · simp only [hother]
    exact h.source
  · simp only [hother]
    exact h.high
  · exact h.medium

theorem entry_own (he : g.Holds e) (hs : s.entity = e)
    (hhigh : s.confidence = .high ↔ (∃ t', (t', e) ∈ done ∧ unicode.toLowercase e.name = t') ∨ unicode.toLowercase e.name = t)
    (hlow : s.confidence ≠ .low) : Entry unicode g (done ++ [(t, e)]) e.id s := by
  subst hs
  constructor
  · rfl
  · exact he
  · exact ⟨t, by simp⟩
  · rw [hhigh]
    constructor
    · rintro (⟨t', hm, hn⟩ | hn)
      · exact ⟨t', List.mem_append_left _ hm, hn⟩
      · exact ⟨t, by simp, hn⟩
    · rintro ⟨t', hm, hn⟩
      rcases List.mem_append.1 hm with hm | hm
      · exact Or.inl ⟨t', hm, hn⟩
      · exact Or.inr (hn.trans (congrArg Prod.fst (List.mem_singleton.1 hm)))
  · exact hlow

theorem tallied_put (h : Tallied unicode g done scope) (hentry : Entry unicode g (done ++ [(t, e)]) e.id s)
    {scope' : FMap Text ScopedEntity} (hget : ∀ i, scope'.get i = if i = e.id then some s else scope.get i) :
    Tallied unicode g (done ++ [(t, e)]) scope' := by
  constructor
  · intro i x hx
    rw [hget] at hx
    split at hx
    · rename_i hi
      cases hx
      rw [hi]
      exact hentry
    · rename_i hi
      exact entry_frame (h.entry hx) hi
  · intro t' e' hm
    rw [hget]
    split
    · rfl
    · rename_i hne
      rcases List.mem_append.1 hm with hm | hm
      · exact h.all hm
      · exact absurd (congrArg Entity.id (congrArg Prod.snd (List.mem_singleton.1 hm))) hne

/-- The confidence of one candidate. -/
def confidenceOf (unicode : Unicode) (t : Text) (e : Entity) : ConfidenceLevel :=
  if unicode.toLowercase e.name = t then .high else .medium

theorem confidenceOf_high : confidenceOf unicode t e = .high ↔ unicode.toLowercase e.name = t := by
  unfold confidenceOf
  split
  · simp [*]
  · simp [*]

theorem confidenceOf_low : confidenceOf unicode t e ≠ .low := by
  unfold confidenceOf
  split
  · decide
  · decide

/-- Nothing is better than High, and what is not Low is only worse than High. -/
theorem rank_lt_iff {c c' : ConfidenceLevel} (h : c ≠ .low) (h' : c' ≠ .low) :
    c.rank < c'.rank ↔ c ≠ .high ∧ c' = .high := by
  cases c with
  | low => exact absurd rfl h
  | medium =>
    cases c' with
    | low => exact absurd rfl h'
    | medium => decide
    | high => decide
  | high =>
    cases c' with
    | low => decide
    | medium => decide
    | high => decide

theorem tallied_first (h : Tallied unicode g done scope) (he : g.Holds e) (hnone : scope.get e.id = none)
    (hs : s.entity = e) (hconf : s.confidence = confidenceOf unicode t e) :
    Tallied unicode g (done ++ [(t, e)]) (scope.insert e.id s) := by
  have hnew : ¬ ∃ t', (t', e) ∈ done ∧ unicode.toLowercase e.name = t' := by
    rintro ⟨t', hm, -⟩
    have := h.all hm
    rw [hnone] at this
    cases this
  refine tallied_put h (entry_own he hs ?_ ?_) (FMap.get_insert _ _ _)
  · rw [hconf, confidenceOf_high, or_iff_right hnew]
  · rw [hconf]
    exact confidenceOf_low

theorem tallied_better (h : Tallied unicode g done scope) (he : g.Holds e) {old : ScopedEntity}
    (hold : scope.get e.id = some old) (hlt : old.confidence.rank < (confidenceOf unicode t e).rank) (hs : s.entity = old.entity)
    (hconf : s.confidence = confidenceOf unicode t e) : Tallied unicode g (done ++ [(t, e)]) (scope.insert e.id s) := by
  have hentry := h.entry hold
  have hse : old.entity = e := holds_unique hentry.stored he hentry.key
  have hhigh := hentry.high
  rw [hse] at hhigh
  rw [rank_lt_iff hentry.medium confidenceOf_low] at hlt
  refine tallied_put h (entry_own he (hs.trans hse) ?_ ?_) (FMap.get_insert _ _ _)
  · rw [hconf, confidenceOf_high, ← hhigh, or_iff_right hlt.1]
  · rw [hconf]
    exact confidenceOf_low

theorem tallied_kept (h : Tallied unicode g done scope) (he : g.Holds e) {old : ScopedEntity}
    (hold : scope.get e.id = some old) (hge : ¬ old.confidence.rank < (confidenceOf unicode t e).rank) :
    Tallied unicode g (done ++ [(t, e)]) scope := by
  have hentry := h.entry hold
  have hse : old.entity = e := holds_unique hentry.stored he hentry.key
  have hhigh := hentry.high
  rw [hse] at hhigh
  rw [rank_lt_iff hentry.medium confidenceOf_low, not_and, confidenceOf_high] at hge
  have hsame : ∀ i, scope.get i = if i = e.id then some old else scope.get i := by
    intro i
    split
    · rename_i hi
      rw [hi, hold]
    · rfl
  refine tallied_put h (entry_own he hse ?_ hentry.medium) hsame
  rw [← hhigh]
  refine ⟨Or.inl, fun hor => ?_⟩
  by_contra hnot
  exact hor.elim hnot (hge hnot)

/-- **A candidate is one more.** -/
theorem tallied_matchEntity (h : Tallied unicode g done scope) (he : g.Holds e) :
    Tallied unicode g (done ++ [(t, e)]) (matchEntity unicode scope (t, e)) := by
  unfold matchEntity
  dsimp only
  cases hold : scope.get e.id with
  | none => exact tallied_first h he hold rfl rfl
  | some old =>
    dsimp only
    by_cases hlt : old.confidence.rank < (confidenceOf unicode t e).rank
    · exact (if_pos hlt).symm ▸ tallied_better h he hold hlt rfl rfl
    · exact (if_neg hlt).symm ▸ tallied_kept h he hold hlt

/-! ## All candidates -/

theorem tallied_foldl : ∀ {cs done : List (Text × Entity)} {scope : FMap Text ScopedEntity}, (∀ c ∈ cs, g.Holds c.2) →
    Tallied unicode g done scope → Tallied unicode g (done ++ cs) (cs.foldl (matchEntity unicode) scope)
  | [], done, scope, _, h => by rwa [List.append_nil]
  | c :: cs, done, scope, hcs, h => by
    have hrest := tallied_foldl (fun d hd => hcs d (List.mem_cons_of_mem _ hd))
      (tallied_matchEntity h (hcs c List.mem_cons_self) (t := c.1))
    rwa [List.append_assoc] at hrest

theorem tallied_hitScope (hk : g.Keyed) :
    Tallied unicode g (allHits unicode g terms) (hitScope unicode g terms) := by
  have hempty : Tallied unicode g [] ∅ := by
    constructor
    · intro i s h
      rw [FMap.get_empty] at h
      cases h
    · intro t e h
      cases h
  refine tallied_foldl (fun c hc => ?_) hempty
  obtain ⟨t, e⟩ := c
  exact holds_of_hit hk (mem_allHits.1 hc).2

theorem matches_iff : Matches unicode g terms e ↔ ∃ t, (t, e) ∈ allHits unicode g terms := by
  unfold Matches
  simp only [mem_allHits]

theorem named_iff : Named unicode g terms e ↔
    ∃ t, (t, e) ∈ allHits unicode g terms ∧ unicode.toLowercase e.name = t := by
  unfold Named
  simp only [mem_allHits, and_assoc]

theorem mem_matchIds : i ∈ matchIds unicode g terms ↔ ∃ e, Matches unicode g terms e ∧ e.id = i := by
  unfold matchIds
  simp only [matches_iff, List.mem_map, Prod.exists]
  constructor
  · rintro ⟨t, e, hm, rfl⟩
    exact ⟨e, ⟨t, hm⟩, rfl⟩
  · rintro ⟨e, ⟨t, hm⟩, rfl⟩
    exact ⟨t, e, hm, rfl⟩

/-- **The direct scope**: the matches, each under its id, High where a term is its name. -/
theorem get_hitScope (hk : g.Keyed) : (hitScope unicode g terms).get i = some s →
    s.entity.id = i ∧ g.Holds s.entity ∧ Matches unicode g terms s.entity ∧
      (s.confidence = .high ↔ Named unicode g terms s.entity) ∧ s.confidence ≠ .low := by
  intro h
  have hentry := (tallied_hitScope hk).entry h
  exact ⟨hentry.key, hentry.stored, matches_iff.2 hentry.source, hentry.high.trans named_iff.symm, hentry.medium⟩

theorem isSome_hitScope (hk : g.Keyed) :
    ((hitScope unicode g terms).get i).isSome ↔ i ∈ matchIds unicode g terms := by
  rw [mem_matchIds]
  constructor
  · intro h
    obtain ⟨s, hs⟩ := Option.isSome_iff_exists.1 h
    obtain ⟨hid, -, hm, -⟩ := get_hitScope hk hs
    exact ⟨s.entity, hm, hid⟩
  · rintro ⟨e, hm, rfl⟩
    obtain ⟨t, ht⟩ := matches_iff.1 hm
    exact (tallied_hitScope hk).all ht

end Match

/-! ## Expansion -/

section Expand

variable {g : GraphSnapshot} {env : Env} {maxHops : Nat} {hopDist : FMap Text Nat} {scope : FMap Text ScopedEntity}
  {i : Text} {e : Entity} {s : ScopedEntity} {seeds : List Text}

theorem get_addHop : (addHop hopDist maxHops scope e).get i =
    (scope.get i).or (if i = e.id then some (hopScoped hopDist maxHops e) else none) := by
  unfold addHop
  split
  · rename_i hs
    split
    · rename_i hi
      obtain ⟨s, hs⟩ := Option.isSome_iff_exists.1 hs
      rw [hi, hs]
      rfl
    · rw [Option.or_none]
  · rename_i hs
    rw [FMap.get_insert]
    split
    · rename_i hi
      rw [hi, Option.not_isSome_iff_eq_none.1 hs]
      rfl
    · rw [Option.or_none]

theorem get_foldl_addHop : ∀ (es : List Entity) (scope : FMap Text ScopedEntity),
    (es.foldl (addHop hopDist maxHops) scope).get i =
      (scope.get i).or ((es.find? fun e => e.id = i).map (hopScoped hopDist maxHops))
  | [], scope => (Option.or_none).symm
  | e :: es, scope => by
    rw [List.foldl_cons, get_foldl_addHop es, get_addHop, Option.or_assoc, List.find?_cons]
    by_cases hi : e.id = i
    · simp [hi]
    · simp [hi, Ne.symm hi]

/-- The stored entities with some ids. -/
def withIds (g : GraphSnapshot) (ids : List Text) : List Entity := g.select fun e => e.id ∈ ids

theorem mem_withIds (hk : g.Keyed) {ids : List Text} : e ∈ withIds g ids ↔ g.Holds e ∧ e.id ∈ ids := by
  unfold withIds
  rw [mem_select hk, decide_eq_true_iff]

theorem find_withIds (hk : g.Keyed) {ids : List Text} :
    (withIds g ids).find? (fun e => e.id = i) = some e ↔ g.Holds e ∧ e.id = i ∧ i ∈ ids := by
  constructor
  · intro h
    have hid : e.id = i := by simpa using List.find?_some h
    have hmem := (mem_withIds hk).1 (List.mem_of_find?_eq_some h)
    exact ⟨hmem.1, hid, hid ▸ hmem.2⟩
  · rintro ⟨he, rfl, hi⟩
    cases hf : (withIds g ids).find? (fun e' => e'.id = e.id) with
    | none =>
      have := List.find?_eq_none.1 hf e ((mem_withIds hk).2 ⟨he, hi⟩)
      simp at this
    | some e' =>
      have hid : e'.id = e.id := by simpa using List.find?_some hf
      have hmem := (mem_withIds hk).1 (List.mem_of_find?_eq_some hf)
      rw [holds_unique hmem.1 he hid]

/-- An entity so many hops from the matches. -/
def atHops (n : Nat) (e : Entity) : ScopedEntity :=
  ⟨e, if n = 1 then .medium else .low, Text.ofNat n ++ "-hop relationship from direct match".toList⟩

theorem hopScoped_of_get {n : Nat} (h : hopDist.get e.id = some n) : hopScoped hopDist maxHops e = atHops n e := by
  unfold hopScoped atHops
  rw [h]
  rfl

theorem none_of_distance (hseeds : ∀ i, (scope.get i).isSome ↔ i ∈ seeds) {n : Nat} (hpos : 1 ≤ n)
    (hd : Distance g.neighbours seeds n i) : scope.get i = none := by
  by_contra hsome
  have hzero : Distance g.neighbours seeds 0 i := distance_zero.2 ((hseeds i).1 (Option.isSome_iff_ne_none.2 hsome))
  have := distance_unique hd hzero
  omega

theorem get_hopDistances (hseeds : ∀ i, (scope.get i).isSome ↔ i ∈ seeds) {n : Nat} :
    (hopDistances env g maxHops scope).get i = some n ↔ Distance g.neighbours seeds n i ∧ n ≤ maxHops := by
  have hsame : ∀ b, b ∈ env.hashOrder scope.keys ↔ b ∈ seeds := fun b => by
    rw [env.mem_hashOrder, FMap.mem_keys, hseeds]
  unfold hopDistances
  rw [get_distances fun _ _ h => mem_endpoints h, distance_congr hsame]

/-- The ids that the search has found and that are not in scope. -/
theorem mem_newIds (hseeds : ∀ i, (scope.get i).isSome ↔ i ∈ seeds) :
    i ∈ newIds env (hopDistances env g maxHops scope) scope ↔ ∃ n, 1 ≤ n ∧ n ≤ maxHops ∧ Distance g.neighbours seeds n i := by
  unfold newIds
  rw [List.mem_filter, env.mem_hashOrder, FMap.mem_keys]
  constructor
  · rintro ⟨hsome, hcond⟩
    obtain ⟨n, hn⟩ := Option.isSome_iff_exists.1 hsome
    simp only [hn, Option.any_some, Bool.and_eq_true, decide_eq_true_eq] at hcond
    exact ⟨n, hcond.1, ((get_hopDistances hseeds).1 hn).2, ((get_hopDistances hseeds).1 hn).1⟩
  · rintro ⟨n, hpos, hle, hd⟩
    have hn : (hopDistances env g maxHops scope).get i = some n := (get_hopDistances hseeds).2 ⟨hd, hle⟩
    rw [hn, none_of_distance hseeds hpos hd]
    exact ⟨rfl, by simpa using Nat.lt_of_lt_of_le Nat.one_pos hpos⟩

/-- The scope with what is near it. -/
def expanded (env : Env) (g : GraphSnapshot) (maxHops : Nat) (scope : FMap Text ScopedEntity) : FMap Text ScopedEntity :=
  (withIds g (newIds env (hopDistances env g maxHops scope) scope)).foldl
    (addHop (hopDistances env g maxHops scope) maxHops) scope

/-- **What the expansion adds**: every stored entity within the limit that is not in scope, by its distance. -/
theorem get_expanded (hk : g.Keyed) (hseeds : ∀ i, (scope.get i).isSome ↔ i ∈ seeds) :
    (expanded env g maxHops scope).get i = some s ↔ scope.get i = some s ∨
      ∃ e n, g.Holds e ∧ e.id = i ∧ 1 ≤ n ∧ n ≤ maxHops ∧ Distance g.neighbours seeds n i ∧ s = atHops n e := by
  unfold expanded
  rw [get_foldl_addHop]
  constructor
  · intro h
    rcases Option.or_eq_some_iff.1 h with h | ⟨-, h⟩
    · exact Or.inl h
    · obtain ⟨e, hf, rfl⟩ := Option.map_eq_some_iff.1 h
      obtain ⟨he, rfl, hi⟩ := (find_withIds hk).1 hf
      obtain ⟨n, hpos, hle, hd⟩ := (mem_newIds hseeds).1 hi
      exact Or.inr ⟨e, n, he, rfl, hpos, hle, hd, hopScoped_of_get ((get_hopDistances hseeds).2 ⟨hd, hle⟩)⟩
  · rintro (h | ⟨e, n, he, rfl, hpos, hle, hd, rfl⟩)
    · rw [h]
      rfl
    · rw [none_of_distance hseeds hpos hd, (find_withIds hk).2 ⟨he, rfl, (mem_newIds hseeds).2 ⟨n, hpos, hle, hd⟩⟩,
        Option.none_or, Option.map_some, hopScoped_of_get ((get_hopDistances hseeds).2 ⟨hd, hle⟩)]

/-- The expansion answers where the ids that it has found fit into one statement. -/
theorem expand_eq_ok {scope' : FMap Text ScopedEntity} (hseeds : ∀ i, (scope.get i).isSome ↔ i ∈ seeds) :
    expand env g maxHops scope = .ok scope' ↔
      Askable (fun i => ∃ n, 1 ≤ n ∧ n ≤ maxHops ∧ Distance g.neighbours seeds n i) ∧
        scope' = expanded env g maxHops scope := by
  have hnd : (newIds env (hopDistances env g maxHops scope) scope).Nodup :=
    ((env.hashOrderPerm _).nodup_iff.2 (AList.keys_nodup _)).filter _
  have hnew : ∀ i, i ∈ newIds env (hopDistances env g maxHops scope) scope ↔
      ∃ n, 1 ≤ n ∧ n ≤ maxHops ∧ Distance g.neighbours seeds n i := fun i => mem_newIds hseeds
  unfold expand
  split
  · dsimp only
    rw [ok_bind_iff]
    simp only [getEntitiesByIds_eq_ok hnd hnew, pure, Except.pure, Except.ok.injEq]
    constructor
    · rintro ⟨_, ⟨hask, rfl⟩, rfl⟩
      exact ⟨hask, rfl⟩
    · rintro ⟨hask, rfl⟩
      exact ⟨_, ⟨hask, rfl⟩, rfl⟩
  · -- no hops are asked for, or there is nothing to start from
    rename_i hstop
    have hnone : ∀ i, ¬ ∃ n, 1 ≤ n ∧ n ≤ maxHops ∧ Distance g.neighbours seeds n i := by
      rintro i ⟨n, hpos, hle, hd⟩
      refine hstop ⟨by omega, fun hkeys => ?_⟩
      obtain ⟨b, hb, -⟩ := exists_walk hd.1
      have hmem := FMap.mem_keys.2 ((hseeds b).2 hb)
      rw [hkeys] at hmem
      cases hmem
    have hnil : newIds env (hopDistances env g maxHops scope) scope = [] :=
      List.eq_nil_iff_forall_not_mem.2 fun i hi => hnone i ((hnew i).1 hi)
    have hself : expanded env g maxHops scope = scope := by
      unfold expanded withIds
      rw [hnil]
      simp [select, ordered]
    have hask : Askable fun i => ∃ n, 1 ≤ n ∧ n ≤ maxHops ∧ Distance g.neighbours seeds n i :=
      ⟨[], Nat.zero_le _, fun i hi => absurd hi (hnone i)⟩
    rw [hself, and_iff_right hask]
    simp [pure, Except.pure, eq_comm]

/-! ## The entries -/

theorem mem_intoValues : s ∈ intoValues env scope ↔ ∃ i, scope.get i = some s := by
  unfold intoValues
  rw [List.mem_filterMap]
  constructor
  · rintro ⟨i, -, h⟩
    exact ⟨i, h⟩
  · rintro ⟨i, h⟩
    exact ⟨i, env.mem_hashOrder.2 (FMap.mem_keys.2 (by rw [h]; rfl)), h⟩

/-- Keys that some of a list have are keys of the list, in its order. -/
theorem sublist_map_filterMap {α β : Type} {f : α → Option β} {key : α → Text} {key' : β → Text}
    (h : ∀ {a b}, f a = some b → key' b = key a) : ∀ l : List α, ((l.filterMap f).map key').Sublist (l.map key)
  | [] => .refl _
  | a :: l => by
    rw [List.filterMap_cons, List.map_cons]
    cases ha : f a with
    | none => exact (sublist_map_filterMap h l).cons (key a)
    | some b =>
      rw [List.map_cons, h ha]
      exact (sublist_map_filterMap h l).cons_cons (key a)

theorem nodup_intoValues (hkey : ∀ {i s}, scope.get i = some s → s.entity.id = i) :
    ((intoValues env scope).map fun s => s.entity.id).Nodup := by
  have hsub : ((intoValues env scope).map fun s => s.entity.id).Sublist ((env.hashOrder scope.keys).map id) :=
    sublist_map_filterMap hkey _
  rw [List.map_id] at hsub
  exact ((env.hashOrderPerm _).nodup_iff.2 scope.keys_nodup).sublist hsub

theorem perm_byConfidence (l : List ScopedEntity) : (byConfidence l).Perm l := List.perm_insertionSort _ l

theorem ordered_byConfidence (l : List ScopedEntity) :
    (byConfidence l).Pairwise fun a b => b.confidence.rank ≤ a.confidence.rank := by
  have : Std.Total fun a b : ScopedEntity => b.confidence.rank ≤ a.confidence.rank :=
    ⟨fun a b => le_total b.confidence.rank a.confidence.rank⟩
  have : IsTrans ScopedEntity fun a b => b.confidence.rank ≤ a.confidence.rank := ⟨fun _ _ _ h h' => le_trans h' h⟩
  exact List.pairwise_insertionSort _ _

end Expand

/-! ## The inference -/

section Exactness

variable {unicode : Unicode} {g : GraphSnapshot} {env : Env} {terms : List Text} {maxHops : Nat} {s : ScopedEntity}

/-- An entry of the inference: a match, or an entity at some distance. -/
theorem mem_scope (hk : g.Keyed) : s ∈ byConfidence (intoValues env (expanded env g maxHops (hitScope unicode g terms))) ↔
    (hitScope unicode g terms).get s.entity.id = some s ∨ ∃ n, g.Holds s.entity ∧ 1 ≤ n ∧ n ≤ maxHops ∧
      Distance g.neighbours (matchIds unicode g terms) n s.entity.id ∧ s = atHops n s.entity := by
  rw [(perm_byConfidence _).mem_iff, mem_intoValues]
  simp only [get_expanded hk fun i => isSome_hitScope hk]
  constructor
  · rintro ⟨i, h | ⟨e, n, he, rfl, hpos, hle, hd, rfl⟩⟩
    · left
      rw [(get_hitScope hk h).1]
      exact h
    · exact Or.inr ⟨n, he, hpos, hle, hd, rfl⟩
  · rintro (h | ⟨n, he, hpos, hle, hd, hs⟩)
    · exact ⟨s.entity.id, Or.inl h⟩
    · exact ⟨s.entity.id, Or.inr ⟨s.entity, n, he, rfl, hpos, hle, hd, hs⟩⟩

theorem key_expanded (hk : g.Keyed) {i : Text}
    (h : (expanded env g maxHops (hitScope unicode g terms)).get i = some s) : s.entity.id = i := by
  rcases (get_expanded hk fun i => isSome_hitScope hk).1 h with h | ⟨e, n, -, hid, -, -, -, rfl⟩
  · exact (get_hitScope hk h).1
  · exact hid

theorem not_matches {n : Nat} {e : Entity} (hpos : 1 ≤ n) (hd : Distance g.neighbours (matchIds unicode g terms) n e.id) :
    ¬ Matches unicode g terms e := fun hm => by
  have hzero : Distance g.neighbours (matchIds unicode g terms) 0 e.id := distance_zero.2 (mem_matchIds.2 ⟨e, hm, rfl⟩)
  have := distance_unique hd hzero
  omega

theorem matches_of_named {e : Entity} (h : Named unicode g terms e) : Matches unicode g terms e := by
  obtain ⟨t, ht, he, -⟩ := h
  exact ⟨t, ht, he⟩

theorem confidence_atHops {n : Nat} {e : Entity} : (atHops n e).confidence ≠ .high ∧
    ((atHops n e).confidence = .medium ↔ n = 1) ∧ ((atHops n e).confidence = .low ↔ n ≠ 1) := by
  unfold atHops
  by_cases hn : n = 1
  · simp [hn]
  · simp [hn]

end Exactness

section Answer

variable {unicode : Unicode} {env : Env} {g : GraphSnapshot} {terms : List Text} {maxHops : Nat}

theorem termCandidates_eq_ok (t : Text) (cs : List (Text × Entity)) : termCandidates unicode g t = .ok cs ↔
    g.Takes (broad unicode t) ∧ cs = (hits unicode g t).map fun e => (t, e) := by
  unfold termCandidates searchEntitiesBroad
  simp only [ok_bind_iff, selectLike_eq_ok, pure, Except.pure, Except.ok.injEq]
  constructor
  · rintro ⟨_, ⟨htaken, rfl⟩, rfl⟩
    exact ⟨htaken, rfl⟩
  · rintro ⟨htaken, rfl⟩
    exact ⟨_, ⟨htaken, rfl⟩, rfl⟩

theorem directScope_eq_ok {scope : FMap Text ScopedEntity} : directScope unicode g terms = .ok scope ↔
    (∀ t ∈ terms, g.Takes (broad unicode t)) ∧ scope = hitScope unicode g terms := by
  unfold directScope candidates
  simp only [ok_bind_iff, mapM_eq_ok termCandidates_eq_ok, pure, Except.pure, Except.ok.injEq]
  constructor
  · rintro ⟨_, ⟨_, ⟨htaken, rfl⟩, rfl⟩, rfl⟩
    exact ⟨htaken, rfl⟩
  · rintro ⟨htaken, rfl⟩
    exact ⟨_, ⟨_, ⟨htaken, rfl⟩, rfl⟩, rfl⟩

/-- What `infer` gives where it answers. -/
def inference (unicode : Unicode) (env : Env) (g : GraphSnapshot) (intent : Text) (maxHops : Nat) : ScopeInference :=
  let terms := extractTerms unicode intent
  ⟨intent, terms, byConfidence (intoValues env (expanded env g maxHops (hitScope unicode g terms))), []⟩

/-- **An inference answers where SQLite takes its queries.** -/
theorem infer_eq_ok (hk : g.Keyed) {intent : Text} {r : ScopeInference} : infer unicode env g intent maxHops = .ok r ↔
    Queryable unicode g (extractTerms unicode intent) maxHops ∧ r = inference unicode env g intent maxHops := by
  unfold infer
  dsimp only
  simp only [ok_bind_iff, directScope_eq_ok]
  constructor
  · rintro ⟨_, ⟨htaken, rfl⟩, scope, hscope, hr⟩
    obtain ⟨hask, rfl⟩ := (expand_eq_ok fun i => isSome_hitScope hk).1 hscope
    cases hr
    exact ⟨⟨htaken, hask⟩, rfl⟩
  · rintro ⟨⟨htaken, hask⟩, rfl⟩
    exact ⟨_, ⟨htaken, rfl⟩, _, (expand_eq_ok fun i => isSome_hitScope hk).2 ⟨hask, rfl⟩, rfl⟩

end Answer

theorem exact_inference (unicode : Unicode) (env : Env) (g : SemanticGraph) (intent : Text) (maxHops : Nat) :
    Exact unicode g.1 (extractTerms unicode intent) maxHops (inference unicode env g.1 intent maxHops) := by
  have hk := g.2
  unfold inference
  generalize extractTerms unicode intent = terms
  constructor
  · rw [((perm_byConfidence _).map _).nodup_iff]
    exact nodup_intoValues (key_expanded hk)
  · intro s hs
    rcases (mem_scope hk).1 hs with h | ⟨n, he, -⟩
    · exact (get_hitScope hk h).2.1
    · exact he
  · intro e he
    constructor
    · rintro ⟨s, hs, rfl⟩
      rcases (mem_scope hk).1 hs with h | ⟨n, -, hpos, hle, hd, -⟩
      · exact Or.inl (get_hitScope hk h).2.2.1
      · exact Or.inr ⟨n, hpos, hle, hd⟩
    · rintro (hm | ⟨n, hpos, hle, hd⟩)
      · obtain ⟨s, hs⟩ := Option.isSome_iff_exists.1 ((isSome_hitScope hk).2 (mem_matchIds.2 ⟨e, hm, rfl⟩))
        obtain ⟨hid, hholds, -⟩ := get_hitScope hk hs
        have hse := holds_unique hholds he hid
        exact ⟨s, (mem_scope hk).2 (Or.inl (by rw [hse]; exact hs)), hse⟩
      · exact ⟨atHops n e, (mem_scope hk).2 (Or.inr ⟨n, he, hpos, hle, hd, rfl⟩), rfl⟩
  · intro s hs
    rcases (mem_scope hk).1 hs with h | ⟨n, -, hpos, -, hd, hat⟩
    · exact (get_hitScope hk h).2.2.2.1
    · rw [hat]
      exact iff_of_false confidence_atHops.1 fun hn => not_matches hpos hd (matches_of_named hn)
  · intro s hs
    rcases (mem_scope hk).1 hs with h | ⟨n, -, hpos, -, hd, hat⟩
    · obtain ⟨-, -, hm, hhigh, hlow⟩ := get_hitScope hk h
      rw [← hhigh, or_iff_left fun hd => not_matches le_rfl hd hm]
      cases hc : s.confidence with
      | low => exact absurd hc hlow
      | medium => simp [hm]
      | high => simp
    · have hnot := not_matches hpos hd
      rw [or_iff_right fun hm => hnot hm.1]
      rw [hat, confidence_atHops.2.1]
      constructor
      · rintro rfl
        exact hd
      · exact fun hone => distance_unique hd hone
  · intro s hs
    rcases (mem_scope hk).1 hs with h | ⟨n, -, hpos, -, hd, hat⟩
    · obtain ⟨-, -, hm, -, hlow⟩ := get_hitScope hk h
      exact iff_of_false hlow fun hnot => hnot.1 hm
    · have hnot := not_matches hpos hd
      rw [and_iff_right hnot, hat, confidence_atHops.2.2]
      constructor
      · exact fun hn hone => hn (distance_unique hd hone)
      · rintro hone rfl
        exact hone hd
  · exact ordered_byConfidence _

/-- **Scope inference is answered, and exact, precisely where SQLite takes its queries.** -/
theorem infer_exact_iff (unicode : Unicode) (env : Env) (g : SemanticGraph) (intent : Text) (maxHops : Nat) :
    (∃ r, infer unicode env g.1 intent maxHops = .ok r ∧ Exact unicode g.1 (extractTerms unicode intent) maxHops r) ↔
      Queryable unicode g.1 (extractTerms unicode intent) maxHops := by
  constructor
  · rintro ⟨r, hr, -⟩
    exact ((infer_eq_ok g.2).1 hr).1
  · exact fun hq => ⟨_, (infer_eq_ok g.2).2 ⟨hq, rfl⟩, exact_inference unicode env g intent maxHops⟩

/-! ## A long word -/

/-- Letters and digits, in lower case. -/
def ascii : Unicode := ⟨Char.isAlphanum, List.map Char.toLower⟩

def word (n : Nat) : Text := List.replicate n 'a'

theorem length_intoBytes_word (n : Nat) : (Text.intoBytes (word n)).length = n := by
  have ha : ∀ c ∈ word n, (String.utf8EncodeChar c).length = 1 := fun c hc => by
    rw [List.eq_of_mem_replicate hc]
    rfl
  unfold Text.intoBytes
  rw [List.length_flatMap, List.map_congr_left ha]
  simp [word]

theorem extractTerms_word {n : Nat} (hn : 10 < n) : extractTerms ascii (word n) = [word n] := by
  have hone : (word n).splitOnP (fun c => !ascii.isAlphanumeric c && c ≠ '_') = [word n] := by
    refine List.splitOnP_eq_singleton fun c hc => ?_
    rw [List.eq_of_mem_replicate hc]
    decide
  have hdrop : (word n).dropWhile (fun c => decide (c = '_')) = word n := by
    cases n with
    | zero => rfl
    | succ n => rfl
  have hrev : (word n).reverse = word n := List.reverse_replicate
  have htrim : Text.trimEndMatches '_' (Text.trimStartMatches '_' (word n)) = word n := by
    unfold Text.trimEndMatches Text.trimStartMatches
    rw [hdrop, hrev, hdrop, hrev]
  have hlower : ascii.toLowercase (word n) = word n := List.map_replicate
  have hstop : word n ∉ stopWords := fun hw => by
    have hshort : ∀ w ∈ stopWords, w.length ≤ 10 := by decide +kernel
    have hlen := hshort _ hw
    unfold word at hlen
    rw [List.length_replicate] at hlen
    omega
  unfold extractTerms
  rw [hone, List.map_singleton, htrim, hlower, List.filter_cons_of_pos]
  · rfl
  · rw [Bool.and_eq_true, decide_eq_true_iff, decide_eq_true_iff, length_intoBytes_word]
    exact ⟨by omega, hstop⟩

/-- A graph with one function. -/
def oneFunction : SemanticGraph :=
  .ofRows [⟨"main".toList, .function, "main".toList, "main".toList, "a.rs".toList, (0, 10), (1, 1), none⟩] []

/-- **A word that is too long for a pattern is an error**, where there is an entity to put it to. -/
theorem long_word_is_refused : ¬ ∃ r, infer ascii Env.plain oneFunction.1 (word 49999) 2 = .ok r := by
  rintro ⟨r, hr⟩
  have htaken := ((infer_eq_ok oneFunction.2).1 hr).1.patterns (word 49999) (by
    rw [extractTerms_word (by omega)]
    exact List.mem_singleton_self _)
  rcases htaken with hempty | hshort
  · have hrow : oneFunction.1.entities.pairs ≠ [] := by decide
    exact hrow hempty
  · have hlower : ascii.toLowercase (word 49999) = word 49999 := List.map_replicate
    have hbytes : (Text.intoBytes (broad ascii (word 49999))).length = 1 + 49999 + 1 := by
      unfold broad containing
      rw [hlower, Text.intoBytes, List.cons_append, List.flatMap_cons, List.flatMap_append, List.length_append,
        List.length_append, ← Text.intoBytes, length_intoBytes_word]
      rfl
    rw [hbytes] at hshort
    exact absurd hshort (by decide)

end ScopeInference
end Vai
