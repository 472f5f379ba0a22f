import Vai.InferExact
/-!
# HistoryBoost — what history does to an inference

`infer_with_history` runs `infer`, raises what has a positive weight by one level and adds what only the history knows.
`historicalWeight` is the weight of an entity by itself, the scores of the recent records that list it in their order;
`compute_entity_weights` has the same for every id (`get_weightMap`).  `inferWithHistory_boosted_iff` compares the result
with that of `infer`, which may list its hash maps in an order of its own, and says when both answer: what only the history
knows is asked for with one statement.
-/
namespace Vai
namespace ScopeInference

open Bfs GraphSnapshot ScopeHistoryStore
open IssueDir (Unicode)

variable {W : Type} (f64 : F64 W)

section Spec

variable (records : List IntentRecord) (terms : List Text)

/-- The scores of an entity: one for every time that a record with some of the terms lists it. -/
def scores (id : Text) : List W := records.flatMap fun r =>
  if overlap terms r = 0 then []
  else List.replicate (r.actualEntityIds.count id) (f64.ratio (overlap terms r) terms.length)

/-- A sum with one score more. -/
def credit (w : Option W) (score : W) : Option W := some (f64.add (w.getD f64.zero) score)

/-- The sum of the scores, where there is one. -/
def historicalWeight (id : Text) : Option W := (scores f64 records terms id).foldl (credit f64) none

/-- Ids that some of the records list and that an inference does not find. -/
def OnlyHistory (unicode : Unicode) (g : GraphSnapshot) (maxHops : Nat) (id : Text) : Prop :=
  (∃ r ∈ records, (∃ t ∈ r.terms, t ∈ terms) ∧ id ∈ r.actualEntityIds) ∧
    ∀ e, g.Holds e → e.id = id → ¬ (Matches unicode g terms e ∨ Near unicode g terms maxHops id)

/-- It has a positive weight, and is not High already. -/
structure Raised (weight : Text → Option W) (s : ScopedEntity) : Prop where
  positive : ∃ w, weight s.entity.id = some w ∧ f64.lt f64.zero w = true
  below : s.confidence ≠ .high

/-- **What history does to an inference.** -/
structure Boosted (weight : Text → Option W) (g : GraphSnapshot) (r₀ r : ScopeInference) : Prop where
  kept : ∀ s₀ ∈ r₀.predictedScope, ∃ s ∈ r.predictedScope, s.entity = s₀.entity ∧
    (Raised f64 weight s₀ → s.confidence.rank = s₀.confidence.rank + 1) ∧
    (¬ Raised f64 weight s₀ → s.confidence = s₀.confidence)
  added : ∀ e, g.Holds e → (∀ s₀ ∈ r₀.predictedScope, s₀.entity ≠ e) →
    ((∃ s ∈ r.predictedScope, s.entity = e) ↔ (weight e.id).isSome)
  fresh : ∀ s ∈ r.predictedScope, (∀ s₀ ∈ r₀.predictedScope, s₀.entity ≠ s.entity) →
    g.Holds s.entity ∧ s.confidence = .low
  once : (r.predictedScope.map fun s => s.entity.id).Nodup
  ordered : r.predictedScope.Pairwise fun a b => b.confidence.rank ≤ a.confidence.rank

end Spec

/-! ## The weights -/

section Weights

variable {f64} {records : List IntentRecord} {terms : List Text} {id : Text}

theorem get_addScores (score : W) : ∀ (ids : List Text) (m : FMap Text W),
    (ids.foldl (addScore f64 score) m).get id = (List.replicate (ids.count id) score).foldl (credit f64) (m.get id)
  | [], m => rfl
  | i :: ids, m => by
    rw [List.foldl_cons, get_addScores score ids, List.count_cons]
    unfold addScore
    rw [FMap.get_insert]
    by_cases hi : i = id
    · rw [if_pos hi.symm, if_pos (by simpa using hi), List.replicate_succ, List.foldl_cons, hi]
      rfl
    · rw [if_neg (Ne.symm hi), if_neg (by simpa using hi), Nat.add_zero]

theorem get_weigh (r : IntentRecord) (m : FMap Text W) :
    (weigh f64 terms m r).get id = (scores f64 [r] terms id).foldl (credit f64) (m.get id) := by
  unfold weigh scores
  rw [List.flatMap_cons, List.flatMap_nil, List.append_nil]
  split
  · rename_i hempty
    rw [hempty, List.count_nil, List.replicate_zero, ite_self]
    rfl
  · split
    · rfl
    · exact get_addScores _ _ _

theorem scores_cons (r : IntentRecord) :
    scores f64 (r :: records) terms id = scores f64 [r] terms id ++ scores f64 records terms id := by
  unfold scores
  rw [List.flatMap_cons, List.flatMap_cons, List.flatMap_nil, List.append_nil]

theorem get_foldl_weigh : ∀ (records : List IntentRecord) (m : FMap Text W),
    (records.foldl (weigh f64 terms) m).get id = (scores f64 records terms id).foldl (credit f64) (m.get id)
  | [], m => rfl
  | r :: records, m => by
    rw [List.foldl_cons, get_foldl_weigh records, get_weigh, @scores_cons W f64 records, List.foldl_append]

theorem overlap_nil (r : IntentRecord) : overlap [] r = 0 := by
  unfold overlap
  simp

theorem historicalWeight_nil : historicalWeight f64 records [] id = none := by
  have hnone : scores f64 records [] id = [] := List.flatMap_eq_nil_iff.2 fun r _ => if_pos (overlap_nil r)
  unfold historicalWeight
  rw [hnone]
  rfl

/-- **Who has a weight**: what some record with one of the terms lists. -/
theorem isSome_historicalWeight : (historicalWeight f64 records terms id).isSome ↔
    ∃ r ∈ records, (∃ t ∈ r.terms, t ∈ terms) ∧ id ∈ r.actualEntityIds := by
  have hcredit : ∀ l : List W, (l.foldl (credit f64) none).isSome ↔ l ≠ [] := by
    intro l
    induction l using List.reverseRecOn with
    | nil => simp
    | append_singleton l score _ =>
      rw [List.foldl_append, List.foldl_cons, List.foldl_nil]
      simp [credit]
  have hoverlap : ∀ r : IntentRecord, overlap terms r ≠ 0 ↔ ∃ t ∈ r.terms, t ∈ terms := by
    intro r
    unfold overlap
    simp [List.filter_eq_nil_iff]
  unfold historicalWeight
  rw [hcredit]
  unfold scores
  simp only [ne_eq, List.flatMap_eq_nil_iff, not_forall]
  constructor
  · rintro ⟨r, hr, hne⟩
    by_cases hz : overlap terms r = 0
    · exact absurd (if_pos hz) hne
    · rw [if_neg hz, List.replicate_eq_nil_iff, List.count_eq_zero, not_not] at hne
      exact ⟨r, hr, (hoverlap r).1 hz, hne⟩
  · rintro ⟨r, hr, ht, hid⟩
    refine ⟨r, hr, ?_⟩
    rw [if_neg ((hoverlap r).2 ht), List.replicate_eq_nil_iff, List.count_eq_zero, not_not]
    exact hid

theorem get_weightMap (rows : Sorting.RowOrder IntentRecord) (env : Env) (history : ScopeHistoryStore) :
    FMap.get (FMap.ofList ((computeEntityWeights rows f64 env history terms).map fun w => (w.entityId, w.weight))) id =
      historicalWeight f64 (listRecent rows history 10000) terms id := by
  unfold computeEntityWeights
  by_cases ht : terms = []
  · rw [if_pos ht, ht, historicalWeight_nil]
    exact FMap.get_empty id
  · rw [if_neg ht]
    refine FMap.get_ofList_of_mem_iff (f := historicalWeight f64 (listRecent rows history 10000) terms) (fun k v => ?_) id
    have hget : ∀ k, FMap.get ((listRecent rows history 10000).foldl (weigh f64 terms) ∅) k =
        historicalWeight f64 (listRecent rows history 10000) terms k := by
      intro k
      rw [get_foldl_weigh, FMap.get_empty]
      rfl
    dsimp only
    rw [List.mem_map]
    simp only [List.mem_insertionSort, List.mem_filterMap, env.mem_hashOrder, FMap.mem_keys, hget]
    constructor
    · rintro ⟨w, ⟨i, -, hi⟩, heq⟩
      obtain ⟨x, hx, rfl⟩ := Option.map_eq_some_iff.1 hi
      cases heq
      exact hx
    · intro h
      exact ⟨⟨k, v⟩, ⟨k, by rw [h]; rfl, by rw [h]; rfl⟩, rfl⟩

end Weights

/-! ## Boosting -/

section Boost

variable {f64} {weight : Text → Option W} {weightMap : FMap Text W} {s : ScopedEntity} {g : GraphSnapshot} {e : Entity}

theorem entity_boost : (boost f64 weightMap s).entity = s.entity := by
  unfold boost
  split
  · rfl
  · split
    · rfl
    · rfl

theorem rank_boosted {c : ConfidenceLevel} (h : c ≠ .high) : (boosted c).rank = c.rank + 1 := by
  cases c with
  | low => rfl
  | medium => rfl
  | high => exact absurd rfl h

theorem lt_boosted {c : ConfidenceLevel} : c.rank < (boosted c).rank ↔ c ≠ .high := by
  cases c with
  | low => decide
  | medium => decide
  | high => decide

theorem boost_raised (hw : ∀ id, weightMap.get id = weight id) :
    (Raised f64 weight s → (boost f64 weightMap s).confidence.rank = s.confidence.rank + 1) ∧
      (¬ Raised f64 weight s → (boost f64 weightMap s).confidence = s.confidence) := by
  unfold boost
  rw [hw]
  cases hws : weight s.entity.id with
  | none =>
    constructor
    · rintro ⟨⟨w, hsome, -⟩, -⟩
      rw [hws] at hsome
      cases hsome
    · exact fun _ => rfl
  | some w =>
    dsimp only
    constructor
    · rintro ⟨⟨w', hsome, hpos⟩, hbelow⟩
      rw [hws] at hsome
      cases hsome
      rw [if_pos ⟨hpos, lt_boosted.2 hbelow⟩]
      exact rank_boosted hbelow
    · intro hnot
      rw [if_neg fun h => hnot ⟨⟨w, hws, h.1⟩, lt_boosted.1 h.2⟩]

theorem historical_eq_some : historical f64 weightMap e = some s →
    s.entity = e ∧ s.confidence = .low ∧ (weightMap.get e.id).isSome := by
  intro h
  obtain ⟨w, hw, rfl⟩ := Option.map_eq_some_iff.1 h
  exact ⟨rfl, rfl, by rw [hw]; rfl⟩

theorem mem_added (hk : g.Keyed) {ids : List Text} :
    (∃ s ∈ (withIds g ids).filterMap (historical f64 weightMap), s.entity = e) ↔
      g.Holds e ∧ e.id ∈ ids ∧ (weightMap.get e.id).isSome := by
  constructor
  · rintro ⟨s, hs, rfl⟩
    obtain ⟨e, he, hs⟩ := List.mem_filterMap.1 hs
    obtain ⟨hse, -, hw⟩ := historical_eq_some hs
    rw [hse]
    exact ⟨((mem_withIds hk).1 he).1, ((mem_withIds hk).1 he).2, hw⟩
  · rintro ⟨he, hid, hw⟩
    obtain ⟨w, hw⟩ := Option.isSome_iff_exists.1 hw
    obtain ⟨s, hs⟩ : ∃ s, historical f64 weightMap e = some s := by
      unfold historical
      rw [hw]
      exact ⟨_, rfl⟩
    exact ⟨s, List.mem_filterMap.2 ⟨e, (mem_withIds hk).2 ⟨he, hid⟩, hs⟩, (historical_eq_some hs).1⟩

/-- What history adds has the ids that it asks for, each once. -/
theorem ids_added (hk : g.Keyed) (ids : List Text) :
    (((withIds g ids).filterMap (historical f64 weightMap)).map fun s => s.entity.id).Nodup :=
  (nodup_select hk _).sublist
    (sublist_map_filterMap (fun h => congrArg Entity.id (historical_eq_some h).1) (withIds g ids))

end Boost

/-! ## The comparison -/

section Compare

variable {f64} {unicode : Unicode} {weight : Text → Option W} {g : GraphSnapshot} {terms : List Text} {maxHops : Nat}
  {r₀ r₁ r : ScopeInference}

/-- Two exact inferences find the same, with the same confidence. -/
theorem exact_agree (h₀ : Exact unicode g terms maxHops r₀) (h₁ : Exact unicode g terms maxHops r₁) :
    ∀ s₀ ∈ r₀.predictedScope, ∃ s₁ ∈ r₁.predictedScope, s₁.entity = s₀.entity ∧ s₁.confidence = s₀.confidence := by
  intro s₀ hs₀
  have hholds := h₀.stored s₀ hs₀
  obtain ⟨s₁, hs₁, he⟩ := (h₁.found s₀.entity hholds).2 ((h₀.found s₀.entity hholds).1 ⟨s₀, hs₀, rfl⟩)
  refine ⟨s₁, hs₁, he, ?_⟩
  cases hc : s₀.confidence with
  | low => rw [h₁.low s₁ hs₁, he, ← h₀.low s₀ hs₀, hc]
  | medium => rw [h₁.medium s₁ hs₁, he, ← h₀.medium s₀ hs₀, hc]
  | high => rw [h₁.high s₁ hs₁, he, ← h₀.high s₀ hs₀, hc]

/-- The comparison is with any inference that finds the same. -/
theorem boosted_of_agree (h : Boosted f64 weight g r₁ r)
    (h₀ : ∀ s₀ ∈ r₀.predictedScope, ∃ s₁ ∈ r₁.predictedScope, s₁.entity = s₀.entity ∧ s₁.confidence = s₀.confidence)
    (h₁ : ∀ s₁ ∈ r₁.predictedScope, ∃ s₀ ∈ r₀.predictedScope, s₀.entity = s₁.entity ∧ s₀.confidence = s₁.confidence) :
    Boosted f64 weight g r₀ r := by
  have hout : ∀ {e}, (∀ s₀ ∈ r₀.predictedScope, s₀.entity ≠ e) → ∀ s₁ ∈ r₁.predictedScope, s₁.entity ≠ e := by
    intro e he s₁ hs₁ heq
    obtain ⟨s₀, hs₀, hent, -⟩ := h₁ s₁ hs₁
    exact he s₀ hs₀ (hent.trans heq)
  constructor
  · intro s₀ hs₀
    obtain ⟨s₁, hs₁, hent, hconf⟩ := h₀ s₀ hs₀
    obtain ⟨s, hs, hse, hup, hsame⟩ := h.kept s₁ hs₁
    have hraised : Raised f64 weight s₀ ↔ Raised f64 weight s₁ := by
      constructor
      · exact fun hr => ⟨by rw [hent]; exact hr.positive, by rw [hconf]; exact hr.below⟩
      · exact fun hr => ⟨by rw [← hent]; exact hr.positive, by rw [← hconf]; exact hr.below⟩
    refine ⟨s, hs, hse.trans hent, fun hr => ?_, fun hr => ?_⟩
    · rw [← hconf]
      exact hup (hraised.1 hr)
    · rw [← hconf]
      exact hsame fun hr₁ => hr (hraised.2 hr₁)
  · exact fun e he hnot => h.added e he (hout hnot)
  · exact fun s hs hnot => h.fresh s hs (hout hnot)
  · exact h.once
  · exact h.ordered

theorem boosted_self (h : Exact unicode g terms maxHops r) (hw : ∀ id, weight id = none) : Boosted f64 weight g r r := by
  constructor
  · refine fun s hs => ⟨s, hs, rfl, fun hr => ?_, fun _ => rfl⟩
    obtain ⟨w, hsome, -⟩ := hr.positive
    rw [hw] at hsome
    cases hsome
  · intro e _ hnot
    rw [hw]
    refine iff_of_false ?_ (by simp)
    rintro ⟨s, hs, he⟩
    exact hnot s hs he
  · exact fun s hs hnot => absurd rfl (hnot s hs)
  · exact h.once
  · exact h.ordered

/-- **Raised, with what only history knows.** -/
theorem boosted_append (hk : g.Keyed) (h : Exact unicode g terms maxHops r₁) {weightMap : FMap Text W}
    (hw : ∀ id, weightMap.get id = weight id) {newIds : List Text}
    (hnew : ∀ id, id ∈ newIds ↔ (weight id).isSome ∧ ∀ s ∈ r₁.predictedScope, s.entity.id ≠ id)
    (hr : r.predictedScope = byConfidence (r₁.predictedScope.map (boost f64 weightMap) ++
      (withIds g newIds).filterMap (historical f64 weightMap))) : Boosted f64 weight g r₁ r := by
  have hmem : ∀ s, s ∈ r.predictedScope ↔ (∃ s₁ ∈ r₁.predictedScope, boost f64 weightMap s₁ = s) ∨
      s ∈ (withIds g newIds).filterMap (historical f64 weightMap) := by
    intro s
    rw [hr, (perm_byConfidence _).mem_iff, List.mem_append, List.mem_map]
  constructor
  · intro s₁ hs₁
    exact ⟨boost f64 weightMap s₁, (hmem _).2 (Or.inl ⟨s₁, hs₁, rfl⟩), entity_boost, boost_raised hw⟩
  · intro e he hnot
    constructor
    · rintro ⟨s, hs, rfl⟩
      rcases (hmem s).1 hs with ⟨s₁, hs₁, rfl⟩ | hadded
      · exact absurd entity_boost.symm (hnot s₁ hs₁)
      · rw [← hw]
        exact ((mem_added hk).1 ⟨s, hadded, rfl⟩).2.2
    · intro hweight
      have hid : e.id ∈ newIds := (hnew e.id).2 ⟨hweight, fun s₁ hs₁ heq =>
        hnot s₁ hs₁ (holds_unique (h.stored s₁ hs₁) he heq)⟩
      have hadded : ∃ s ∈ (withIds g newIds).filterMap (historical f64 weightMap), s.entity = e :=
        (mem_added hk).2 ⟨he, hid, by rw [hw]; exact hweight⟩
      obtain ⟨s, hs, hse⟩ := hadded
      exact ⟨s, (hmem s).2 (Or.inr hs), hse⟩
  · intro s hs hnot
    rcases (hmem s).1 hs with ⟨s₁, hs₁, rfl⟩ | hadded
    · exact absurd entity_boost.symm (hnot s₁ hs₁)
    · obtain ⟨e, -, hhist⟩ := List.mem_filterMap.1 hadded
      exact ⟨((mem_added hk).1 ⟨s, hadded, rfl⟩).1, (historical_eq_some hhist).2.1⟩
  · rw [hr, ((perm_byConfidence _).map _).nodup_iff, List.map_append, List.map_map]
    have hkept : (fun s => s.entity.id) ∘ boost f64 weightMap = fun s => s.entity.id := by
      funext s
      exact congrArg Entity.id entity_boost
    rw [hkept]
    refine List.nodup_append.2 ⟨h.once, ids_added hk _, fun a ha b hb hab => ?_⟩
    obtain ⟨s₁, hs₁, rfl⟩ := List.mem_map.1 ha
    obtain ⟨s, hs, rfl⟩ := List.mem_map.1 hb
    exact ((hnew _).1 ((mem_added hk).1 ⟨s, hs, rfl⟩).2.1).2 s₁ hs₁ hab
  · rw [hr]
    exact ordered_byConfidence _

end Compare

section Answer

variable {f64} {unicode : Unicode} {rows : Sorting.RowOrder IntentRecord} {env : Env} {g : GraphSnapshot}
  {history : ScopeHistoryStore} {intent : Text} {maxHops : Nat} {r r₁ : ScopeInference}

/-- The ids that only the history knows, as they are asked for. -/
def unknownIds (f64 : F64 W) (rows : Sorting.RowOrder IntentRecord) (env : Env) (history : ScopeHistoryStore)
    (result : ScopeInference) : List Text :=
  let weightMap : FMap Text W :=
    FMap.ofList ((computeEntityWeights rows f64 env history result.terms).map fun w => (w.entityId, w.weight))
  (env.hashOrder weightMap.keys).filter (· ∉ (result.predictedScope.map (boost f64 weightMap)).map fun s => s.entity.id)

/-- What history makes of an inference where the statement is answered. -/
def withHistory (f64 : F64 W) (rows : Sorting.RowOrder IntentRecord) (env : Env) (g : GraphSnapshot)
    (history : ScopeHistoryStore) (result : ScopeInference) : ScopeInference :=
  let weights := computeEntityWeights rows f64 env history result.terms
  if weights.isEmpty then result
  else
    let weightMap : FMap Text W := FMap.ofList (weights.map fun w => (w.entityId, w.weight))
    { result with
      predictedScope := byConfidence (result.predictedScope.map (boost f64 weightMap) ++
        (withIds g (unknownIds f64 rows env history result)).filterMap (historical f64 weightMap))
      historyInfluences := ((listRecent rows history 10000).filterMap (influence result.terms)).insertionSort fun a b =>
        b.termOverlap ≤ a.termOverlap }

theorem mem_unknownIds {id : Text} : id ∈ unknownIds f64 rows env history r ↔
    (historicalWeight f64 (listRecent rows history 10000) r.terms id).isSome ∧
      ∀ s ∈ r.predictedScope, s.entity.id ≠ id := by
  unfold unknownIds
  dsimp only
  rw [List.mem_filter, env.mem_hashOrder, FMap.mem_keys, get_weightMap, decide_eq_true_iff, List.map_map, List.mem_map]
  simp only [Function.comp_apply, entity_boost, not_exists, not_and, ne_eq]

theorem mem_unknownIds_iff {terms : List Text} {id : Text} (hterms : r.terms = terms)
    (h : Exact unicode g terms maxHops r) : id ∈ unknownIds f64 rows env history r ↔
      OnlyHistory (listRecent rows history 10000) terms unicode g maxHops id := by
  rw [mem_unknownIds, isSome_historicalWeight, hterms]
  refine and_congr_right fun _ => ⟨fun hnot e he hid hfound => ?_, fun hnot s hs hid => ?_⟩
  · obtain ⟨s, hs, hse⟩ := (h.found e he).2 (by rw [hid]; exact hfound)
    exact hnot s hs (by rw [hse, hid])
  · have hholds := h.stored s hs
    have hfound := (h.found s.entity hholds).1 ⟨s, hs, rfl⟩
    rw [hid] at hfound
    exact hnot s.entity hholds hid hfound

theorem inferWithHistory_eq_ok (hr : infer unicode env g intent maxHops = .ok r₁)
    (h : Exact unicode g r₁.terms maxHops r₁) : inferWithHistory f64 unicode rows env g history intent maxHops = .ok r ↔
      Askable (OnlyHistory (listRecent rows history 10000) r₁.terms unicode g maxHops) ∧
        r = withHistory f64 rows env g history r₁ := by
  have hids : ∀ id, id ∈ unknownIds f64 rows env history r₁ ↔
      OnlyHistory (listRecent rows history 10000) r₁.terms unicode g maxHops id := fun id => mem_unknownIds_iff rfl h
  have hnd : (unknownIds f64 rows env history r₁).Nodup :=
    ((env.hashOrderPerm _).nodup_iff.2 (AList.keys_nodup _)).filter _
  unfold inferWithHistory withHistory
  rw [hr]
  simp only [ok_bind_iff, Except.ok.injEq, exists_eq_left']
  split
  · -- without weights there is nothing to ask for
    rename_i hempty
    have hnone : ∀ id, ¬ OnlyHistory (listRecent rows history 10000) r₁.terms unicode g maxHops id := by
      intro id hid
      have hsome := (mem_unknownIds.1 ((hids id).2 hid)).1
      rw [← get_weightMap rows env history, List.isEmpty_iff.1 hempty, List.map_nil] at hsome
      cases hsome
    rw [and_iff_right ⟨[], Nat.zero_le _, fun id hid => absurd hid (hnone id)⟩]
    simp [pure, Except.pure, eq_comm]
  · rw [ok_bind_iff]
    constructor
    · rintro ⟨es, hes, hr⟩
      obtain ⟨hask, rfl⟩ := (getEntitiesByIds_eq_ok hnd hids).1 hes
      cases hr
      exact ⟨hask, rfl⟩
    · rintro ⟨hask, rfl⟩
      exact ⟨_, (getEntitiesByIds_eq_ok hnd hids).2 ⟨hask, rfl⟩, rfl⟩

theorem boosted_withHistory {terms : List Text} (hterms : r₁.terms = terms) (hk : g.Keyed)
    (h : Exact unicode g terms maxHops r₁) :
    Boosted f64 (historicalWeight f64 (listRecent rows history 10000) terms) g r₁ (withHistory f64 rows env g history r₁) := by
  have hweight := fun id => @get_weightMap W f64 terms id rows env history
  have hnew := fun id => @mem_unknownIds W f64 rows env history r₁ id
  unfold withHistory
  dsimp only
  rw [hterms] at hnew ⊢
  split
  · rename_i hempty
    refine boosted_self h fun id => ?_
    rw [← hweight, List.isEmpty_iff.1 hempty]
    exact FMap.get_empty id
  · exact boosted_append hk h hweight hnew rfl

end Answer

/-- **History only adds confidence, and an answer is given precisely where SQLite takes the queries.**  The inference that
it is compared with may list its hash maps in another order. -/
theorem inferWithHistory_boosted_iff (f64 : F64 W) (unicode : Unicode) (rows : Sorting.RowOrder IntentRecord)
    (env env' : Env) (g : SemanticGraph) (history : ScopeHistoryStore) (intent : Text) (maxHops : Nat) :
    (∃ r₀ r, infer unicode env' g.1 intent maxHops = .ok r₀ ∧
      inferWithHistory f64 unicode rows env g.1 history intent maxHops = .ok r ∧
      Boosted f64 (historicalWeight f64 (listRecent rows history 10000) (extractTerms unicode intent)) g.1 r₀ r) ↔
    Queryable unicode g.1 (extractTerms unicode intent) maxHops ∧
      Askable (OnlyHistory (listRecent rows history 10000) (extractTerms unicode intent) unicode g.1 maxHops) := by
  have h₁ := exact_inference unicode env g intent maxHops
  have h₀ := exact_inference unicode env' g intent maxHops
  constructor
  · rintro ⟨r₀, r, hr₀, hr, -⟩
    have hq := ((infer_eq_ok g.2).1 hr₀).1
    exact ⟨hq, ((inferWithHistory_eq_ok ((infer_eq_ok g.2).2 ⟨hq, rfl⟩) h₁).1 hr).1⟩
  · rintro ⟨hq, hask⟩
    refine ⟨_, _, (infer_eq_ok g.2).2 ⟨hq, rfl⟩,
      (inferWithHistory_eq_ok ((infer_eq_ok g.2).2 ⟨hq, rfl⟩) h₁).2 ⟨hask, rfl⟩, ?_⟩
    exact boosted_of_agree (boosted_withHistory rfl g.2 h₁) (exact_agree h₀ h₁) (exact_agree h₁ h₀)

/-- An earlier intent that touched more than one statement asks for. -/
def sweeping : IntentRecord := ⟨"rename main".toList, ["main".toList], tooMany, []⟩

/-- Weights that are whole numbers. -/
def whole : F64 Nat := ⟨0, (· + ·), (· / ·), fun a b => decide (a < b), fun w => Text.ofNat w ++ ".00".toList⟩

/-- **What only the history knows can be too much to ask for**, though the inference itself answers. -/
theorem long_history_is_refused :
    (∃ r₀, infer ascii Env.plain (SemanticGraph.ofRows [] []).1 "main".toList 2 = .ok r₀) ∧
      ¬ ∃ r, inferWithHistory whole ascii .stable Env.plain (SemanticGraph.ofRows [] []).1 [sweeping] "main".toList 2 =
        .ok r := by
  have hterms : extractTerms ascii "main".toList = ["main".toList] := by decide +kernel
  have hnone : matchIds ascii (SemanticGraph.ofRows [] []).1 (extractTerms ascii "main".toList) = [] := by
    rw [hterms]
    decide
  have hnear : ∀ id, ¬ Near ascii (SemanticGraph.ofRows [] []).1 (extractTerms ascii "main".toList) 2 id := by
    rintro id ⟨n, -, -, hd⟩
    obtain ⟨b, hb, -⟩ := exists_walk hd.1
    rw [hnone] at hb
    cases hb
  have hinfer : infer ascii Env.plain (SemanticGraph.ofRows [] []).1 "main".toList 2 =
      .ok (inference ascii Env.plain (SemanticGraph.ofRows [] []).1 "main".toList 2) :=
    (infer_eq_ok (SemanticGraph.ofRows [] []).2).2
      ⟨⟨fun _ _ => Or.inl rfl, [], Nat.zero_le _, fun id hid => absurd hid (hnear id)⟩, rfl⟩
  refine ⟨⟨_, hinfer⟩, ?_⟩
  rintro ⟨r, hr⟩
  have hask := ((inferWithHistory_eq_ok hinfer (exact_inference ascii Env.plain (SemanticGraph.ofRows [] [])
    "main".toList 2)).1 hr).1
  refine not_askable_tooMany (fun id hid => ?_) hask
  have hrecent : sweeping ∈ listRecent .stable [sweeping] 10000 := List.mem_singleton_self _
  have hshared : "main".toList ∈ extractTerms ascii "main".toList := by
    rw [hterms]
    exact List.mem_singleton_self _
  refine ⟨⟨sweeping, hrecent, ⟨"main".toList, List.mem_singleton_self _, hshared⟩, ?_⟩, fun e he => ?_⟩
  · exact hid
  · have hempty : FMap.get (∅ : FMap Text Entity) e.id = some e := he
    rw [FMap.get_empty] at hempty
    cases hempty

end ScopeInference
end Vai
