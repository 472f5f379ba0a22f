import Vai.GraphDistance
/-!
# GradedScope — the grades of `predict_scope`

By its comment an entity that a keyword matches is High, its neighbours are Medium, and what is two hops away is Low.  The
second traversal starts from the matches and their neighbours together and goes two hops further, so that it also finds what
is three hops away, behind a neighbour that is stored: `mem_low`.  `predictScope_grades_iff` says for which graphs and texts
the grades are the distances all the same.
-/
namespace Vai
namespace GradedScope

open Bfs GraphSnapshot
open IssueDir (Unicode)

section Spec

variable (unicode : Unicode) (g : GraphSnapshot) (text : Text)

def MatchesKeyword (e : Entity) : Prop := ∃ kw ∈ extractKeywords unicode text, e ∈ g.named kw

/-- The ids of the matches. -/
def matched : List Text := ((extractKeywords unicode text).flatMap g.named).map Entity.id

/-- **What a prediction is to be.** -/
structure Grades (p : ScopePrediction) : Prop where
  once : (p.entities.map PredictedEntity.id).Nodup
  stored : ∀ x ∈ p.entities, ∃ e c, g.Holds e ∧ x = predicted c e
  high : ∀ e, g.Holds e → (predicted .high e ∈ p.entities ↔ MatchesKeyword unicode g text e)
  medium : ∀ e, g.Holds e → (predicted .medium e ∈ p.entities ↔ Distance g.neighbours (matched unicode g text) 1 e.id)
  low : ∀ e, g.Holds e → (predicted .low e ∈ p.entities ↔ Distance g.neighbours (matched unicode g text) 2 e.id)
  files : p.files.Nodup ∧ ∀ f, f ∈ p.files ↔ ∃ x ∈ p.entities, x.filePath = f

/-- Three hops away, and two from a stored neighbour of a match. -/
structure Behind (e y : Entity) : Prop where
  stored : g.Holds e
  neighbour : g.Holds y
  near : Distance g.neighbours (matched unicode g text) 1 y.id
  hops : Walk g.neighbours [y.id] 2 e.id
  away : Distance g.neighbours (matched unicode g text) 3 e.id

/-- The ids that the second traversal visits: within two hops of a match, or of a stored neighbour of one. -/
def Visited (a : Text) : Prop :=
  (∃ n ≤ 2, Walk g.neighbours (matched unicode g text) n a) ∨
    ∃ y, g.Holds y ∧ Distance g.neighbours (matched unicode g text) 1 y.id ∧ ∃ n ≤ 2, Walk g.neighbours [y.id] n a

/-- SQLite takes the keywords as patterns and the visited ids as parameters. -/
structure Queryable : Prop where
  patterns : ∀ kw ∈ extractKeywords unicode text, g.Takes (containing kw)
  parameters : Askable (Visited unicode g text)

/-! ## The three bands -/

def direct : List Entity := unseen [] ((extractKeywords unicode text).flatMap g.named)

def directIds : List Text := (direct unicode g text).map Entity.id

def medium : List Entity := unseen (directIds unicode g text) (g.around (directIds unicode g text) 1)

def allIds : List Text := directIds unicode g text ++ (medium unicode g text).map Entity.id

def low : List Entity := (g.around (allIds unicode g text) 2).filter fun e => e.id ∉ allIds unicode g text

def bands : List PredictedEntity :=
  (direct unicode g text).map (predicted .high) ++ (medium unicode g text).map (predicted .medium) ++
    (low unicode g text).map (predicted .low)

def prediction : ScopePrediction :=
  ⟨bands unicode g text, ((bands unicode g text).map PredictedEntity.filePath).eraseDups, (bands unicode g text).length⟩

/-- **When a prediction answers**: its patterns are taken, and both traversals have asked for what they reached. -/
theorem predictScope_eq_ok {p : ScopePrediction} : predictScope unicode (some g) text = .ok p ↔
    (∀ kw ∈ extractKeywords unicode text, g.Takes (containing kw)) ∧
      Askable (fun a => ∃ m ≤ 1, Walk g.neighbours (directIds unicode g text) m a) ∧
      Askable (fun a => ∃ m ≤ 2, Walk g.neighbours (allIds unicode g text) m a) ∧ p = prediction unicode g text := by
  unfold predictScope
  dsimp only
  rw [ok_bind_iff]
  simp only [mapM_eq_ok fun kw es => @searchEntitiesByName_eq_ok g es kw]
  unfold graded
  dsimp only
  simp only [ok_bind_iff, reachableEntities_eq_ok, pure, Except.pure, Except.ok.injEq]
  constructor
  · rintro ⟨_, ⟨htaken, rfl⟩, _, ⟨hone, rfl⟩, _, ⟨htwo, rfl⟩, rfl⟩
    exact ⟨htaken, hone, htwo, rfl⟩
  · rintro ⟨htaken, hone, htwo, rfl⟩
    exact ⟨_, ⟨htaken, rfl⟩, _, ⟨hone, rfl⟩, _, ⟨htwo, rfl⟩, rfl⟩

end Spec

section Unseen

variable {seen : List Text} {e : Entity} {es : List Entity}

theorem of_mem_unseen : ∀ {es : List Entity} {seen : List Text}, e ∈ unseen seen es → e ∈ es ∧ e.id ∉ seen
  | e' :: es, seen, h => by
    unfold unseen at h
    split at h
    · have hrest := of_mem_unseen h
      exact ⟨List.mem_cons_of_mem _ hrest.1, hrest.2⟩
    · rename_i hnew
      rcases List.mem_cons.1 h with rfl | h
      · exact ⟨List.mem_cons_self, hnew⟩
      · have hrest := of_mem_unseen h
        exact ⟨List.mem_cons_of_mem _ hrest.1, fun hs => hrest.2 (List.mem_cons_of_mem _ hs)⟩

/-- Where the id tells entities apart, the unseen ones are those with an unseen id. -/
theorem mem_unseen : ∀ {es : List Entity} {seen : List Text}, (∀ e ∈ es, ∀ e' ∈ es, e.id = e'.id → e = e') →
    (e ∈ unseen seen es ↔ e ∈ es ∧ e.id ∉ seen)
  | [], seen, _ => by simp [unseen]
  | e' :: es, seen, hid => by
    refine ⟨of_mem_unseen, fun h => ?_⟩
    have hrest := fun seen => @mem_unseen es seen fun a ha b hb =>
      hid a (List.mem_cons_of_mem _ ha) b (List.mem_cons_of_mem _ hb)
    obtain ⟨hmem, hnew⟩ := h
    unfold unseen
    split
    · rename_i hseen
      rcases List.mem_cons.1 hmem with rfl | hmem
      · exact absurd hseen hnew
      · exact (hrest seen).2 ⟨hmem, hnew⟩
    · by_cases he : e = e'
      · rw [he]
        exact List.mem_cons_self
      · refine List.mem_cons_of_mem _ ((hrest _).2 ⟨(List.mem_cons.1 hmem).resolve_left he, fun hs => ?_⟩)
        rcases List.mem_cons.1 hs with hs | hs
        · exact he (hid e hmem e' List.mem_cons_self hs)
        · exact hnew hs

theorem nodup_unseen : ∀ (es : List Entity) (seen : List Text), ((unseen seen es).map Entity.id).Nodup
  | [], _ => List.nodup_nil
  | e :: es, seen => by
    unfold unseen
    split
    · exact nodup_unseen es seen
    · rw [List.map_cons, List.nodup_cons]
      refine ⟨fun h => ?_, nodup_unseen es _⟩
      obtain ⟨e', he', hid⟩ := List.mem_map.1 h
      exact (of_mem_unseen he').2 (hid ▸ List.mem_cons_self)

end Unseen

section Bands

variable {unicode : Unicode} {g : GraphSnapshot} {text : Text} {e : Entity} {a : Text}

theorem holds_of_matches (hk : g.Keyed) (h : MatchesKeyword unicode g text e) : g.Holds e := by
  obtain ⟨kw, -, he⟩ := h
  exact ((mem_named hk).1 he).1

theorem mem_flatMap_named : e ∈ (extractKeywords unicode text).flatMap g.named ↔
    MatchesKeyword unicode g text e := List.mem_flatMap

theorem mem_direct (hk : g.Keyed) : e ∈ direct unicode g text ↔ MatchesKeyword unicode g text e := by
  unfold direct
  rw [mem_unseen fun a ha b hb hid => ?_, mem_flatMap_named]
  · simp
  · exact holds_unique (holds_of_matches hk (mem_flatMap_named.1 ha)) (holds_of_matches hk (mem_flatMap_named.1 hb)) hid

theorem mem_directIds (hk : g.Keyed) : a ∈ directIds unicode g text ↔ a ∈ matched unicode g text := by
  unfold directIds matched
  rw [List.mem_map, List.mem_map]
  simp only [mem_direct hk, mem_flatMap_named]

theorem mem_medium (hk : g.Keyed) :
    e ∈ medium unicode g text ↔ g.Holds e ∧ Distance g.neighbours (matched unicode g text) 1 e.id := by
  unfold medium
  rw [mem_unseen fun a ha b hb hid => ?_, mem_around hk, distance_one, mem_directIds hk]
  · simp only [walk_congr fun a => mem_directIds hk]
    exact and_assoc
  · exact holds_unique ((mem_around hk).1 ha).1 ((mem_around hk).1 hb).1 hid

theorem mem_mediumIds (hk : g.Keyed) : a ∈ (medium unicode g text).map Entity.id ↔
    ∃ y, g.Holds y ∧ Distance g.neighbours (matched unicode g text) 1 y.id ∧ y.id = a := by
  rw [List.mem_map]
  simp only [mem_medium hk, and_assoc]

/-- A stored entity that is no match and no neighbour of one is further away. -/
theorem not_mem_allIds (hk : g.Keyed) (he : g.Holds e) : e.id ∉ allIds unicode g text ↔
    ∀ n, Distance g.neighbours (matched unicode g text) n e.id → 2 ≤ n := by
  unfold allIds
  rw [List.mem_append, not_or, mem_directIds hk, mem_mediumIds hk]
  constructor
  · rintro ⟨hzero, hone⟩ n hd
    rcases n with _ | _ | n
    · exact absurd (distance_zero.1 hd) hzero
    · exact absurd ⟨e, he, hd, rfl⟩ hone
    · omega
  · intro h
    constructor
    · intro hm
      have := h 0 (distance_zero.2 hm)
      omega
    · rintro ⟨y, -, hd, hid⟩
      rw [hid] at hd
      have := h 1 hd
      omega

/-- **What the second traversal adds**: the entities two hops away, and those behind a stored neighbour. -/
theorem mem_low (hk : g.Keyed) : e ∈ low unicode g text ↔
    g.Holds e ∧ (Distance g.neighbours (matched unicode g text) 2 e.id ∨ ∃ y, Behind unicode g text e y) := by
  unfold low
  rw [List.mem_filter, mem_around hk, decide_eq_true_iff]
  constructor
  · rintro ⟨⟨he, m, hm, hw⟩, hnew⟩
    rw [not_mem_allIds hk he] at hnew
    refine ⟨he, ?_⟩
    unfold allIds at hw
    rcases walk_append.1 hw with hw | hw
    · obtain ⟨n, hn, hd⟩ := distance_of_walk ((walk_congr fun a => mem_directIds hk).1 hw)
      have htwo := hnew n hd
      have hn2 : n = 2 := by omega
      exact Or.inl (hn2 ▸ hd)
    · -- from a neighbour `y` of a match
      obtain ⟨a, ha, hwa⟩ := exists_walk hw
      obtain ⟨y, hy, hdy, rfl⟩ := (mem_mediumIds hk).1 ha
      have hlong : Walk g.neighbours (matched unicode g text) (1 + m) e.id :=
        walk_add (fun b hb => by rw [List.mem_singleton.1 hb]; exact hdy.1) hwa
      obtain ⟨n, hn, hd⟩ := distance_of_walk hlong
      have htwo := hnew n hd
      by_cases hn2 : n = 2
      · exact Or.inl (hn2 ▸ hd)
      · have hn3 : n = 3 := by omega
        have hm2 : m = 2 := by omega
        exact Or.inr ⟨y, he, hy, hdy, hm2 ▸ hwa, hn3 ▸ hd⟩
  · rintro ⟨he, hd | ⟨y, hb⟩⟩
    · refine ⟨⟨he, 2, le_rfl, ?_⟩, (not_mem_allIds hk he).2 fun n hn => (distance_unique hd hn).le⟩
      unfold allIds
      exact walk_append.2 (Or.inl ((walk_congr fun a => mem_directIds hk).2 hd.1))
    · refine ⟨⟨he, 2, le_rfl, ?_⟩, (not_mem_allIds hk he).2 fun n hn => ?_⟩
      · unfold allIds
        exact walk_append.2 (Or.inr (walk_of_mem ((mem_mediumIds hk).2 ⟨y, hb.neighbour, hb.near, rfl⟩) hb.hops))
      · have := distance_unique hb.away hn
        omega

/-! ## The grades -/

theorem mem_map_predicted {es : List Entity} {c c' : PredictionConfidence} (hes : ∀ e ∈ es, g.Holds e) (he : g.Holds e) :
    predicted c e ∈ es.map (predicted c') ↔ c' = c ∧ e ∈ es := by
  rw [List.mem_map]
  constructor
  · rintro ⟨e', he', heq⟩
    have hid : e'.id = e.id := congrArg PredictedEntity.id heq
    have hc : c' = c := congrArg PredictedEntity.confidence heq
    rw [← holds_unique (hes e' he') he hid]
    exact ⟨hc, he'⟩
  · rintro ⟨rfl, he'⟩
    exact ⟨e, he', rfl⟩

theorem mem_bands (hk : g.Keyed) (he : g.Holds e) {c : PredictionConfidence} : predicted c e ∈ bands unicode g text ↔
    (c = .high ∧ MatchesKeyword unicode g text e) ∨
    (c = .medium ∧ Distance g.neighbours (matched unicode g text) 1 e.id) ∨
    (c = .low ∧ (Distance g.neighbours (matched unicode g text) 2 e.id ∨ ∃ y, Behind unicode g text e y)) := by
  unfold bands
  rw [List.mem_append, List.mem_append,
    mem_map_predicted (fun e he => holds_of_matches hk ((mem_direct hk).1 he)) he,
    mem_map_predicted (fun e he => ((mem_medium hk).1 he).1) he,
    mem_map_predicted (fun e he => ((mem_low hk).1 he).1) he,
    mem_direct hk, mem_medium hk, mem_low hk]
  simp only [he, true_and, or_assoc, eq_comm]

theorem stored_bands (hk : g.Keyed) : ∀ x ∈ bands unicode g text, ∃ e c, g.Holds e ∧ x = predicted c e := by
  intro x hx
  unfold bands at hx
  rcases List.mem_append.1 hx with hx | hx
  · rcases List.mem_append.1 hx with hx | hx
    · obtain ⟨e, he, rfl⟩ := List.mem_map.1 hx
      exact ⟨e, .high, holds_of_matches hk ((mem_direct hk).1 he), rfl⟩
    · obtain ⟨e, he, rfl⟩ := List.mem_map.1 hx
      exact ⟨e, .medium, ((mem_medium hk).1 he).1, rfl⟩
  · obtain ⟨e, he, rfl⟩ := List.mem_map.1 hx
    exact ⟨e, .low, ((mem_low hk).1 he).1, rfl⟩

theorem ids_bands : (bands unicode g text).map PredictedEntity.id =
    allIds unicode g text ++ (low unicode g text).map Entity.id := by
  unfold bands allIds directIds
  rw [List.map_append, List.map_append, List.map_map, List.map_map, List.map_map]
  rfl

theorem nodup_bands (hk : g.Keyed) : ((bands unicode g text).map PredictedEntity.id).Nodup := by
  rw [ids_bands]
  have hall : (allIds unicode g text).Nodup := by
    unfold allIds
    refine List.nodup_append.2 ⟨nodup_unseen _ _, nodup_unseen _ _, fun a ha b hb hab => ?_⟩
    obtain ⟨e, he, rfl⟩ := List.mem_map.1 hb
    exact (of_mem_unseen he).2 (hab ▸ ha)
  have hlow : ((low unicode g text).map Entity.id).Nodup := by
    unfold low around
    exact (nodup_select hk _).sublist (List.filter_sublist.map _)
  refine List.nodup_append.2 ⟨hall, hlow, fun a ha b hb hab => ?_⟩
  obtain ⟨e, he, rfl⟩ := List.mem_map.1 hb
  unfold low at he
  have hnew := of_decide_eq_true (List.mem_filter.1 he).2
  exact hnew (hab ▸ ha)

end Bands

section Answer

variable {unicode : Unicode} {g : GraphSnapshot} {text : Text} {p : ScopePrediction} {a : Text}

theorem visited_iff (hk : g.Keyed) :
    Visited unicode g text a ↔ ∃ m ≤ 2, Walk g.neighbours (allIds unicode g text) m a := by
  unfold Visited allIds
  simp only [walk_append, walk_congr fun a => @mem_directIds unicode g text a hk]
  constructor
  · rintro (⟨n, hn, hw⟩ | ⟨y, hy, hdy, n, hn, hw⟩)
    · exact ⟨n, hn, Or.inl hw⟩
    · obtain ⟨b, hb, hwb⟩ := exists_walk hw
      rw [List.mem_singleton.1 hb] at hwb
      exact ⟨n, hn, Or.inr (walk_of_mem ((mem_mediumIds hk).2 ⟨y, hy, hdy, rfl⟩) hwb)⟩
  · rintro ⟨m, hm, hw | hw⟩
    · exact Or.inl ⟨m, hm, hw⟩
    · obtain ⟨b, hb, hwb⟩ := exists_walk hw
      obtain ⟨y, hy, hdy, rfl⟩ := (mem_mediumIds hk).1 hb
      exact Or.inr ⟨y, hy, hdy, m, hm, hwb⟩

theorem predictScope_answers (hk : g.Keyed) : predictScope unicode (some g) text = .ok p ↔
    Queryable unicode g text ∧ p = prediction unicode g text := by
  have hvisited : ∀ a, Visited unicode g text a ↔ ∃ m ≤ 2, Walk g.neighbours (allIds unicode g text) m a :=
    fun a => visited_iff hk
  rw [predictScope_eq_ok]
  constructor
  · rintro ⟨htaken, -, htwo, hp⟩
    exact ⟨⟨htaken, (askable_congr hvisited).2 htwo⟩, hp⟩
  · rintro ⟨⟨htaken, hask⟩, hp⟩
    have htwo := (askable_congr hvisited).1 hask
    refine ⟨htaken, htwo.mono fun a => ?_, htwo, hp⟩
    rintro ⟨m, hm, hw⟩
    exact ⟨m, by omega, walk_append.2 (Or.inl hw)⟩

end Answer

/-- **The grades are the distances exactly when SQLite takes the queries and no stored entity lies behind a stored
neighbour of a match.** -/
theorem predictScope_grades_iff (unicode : Unicode) (g : SemanticGraph) (text : Text) :
    (∃ p, predictScope unicode (some g.1) text = .ok p ∧ Grades unicode g.1 text p) ↔
      Queryable unicode g.1 text ∧ ∀ e y, ¬ Behind unicode g.1 text e y := by
  have hk := g.2
  have hgrades : Grades unicode g.1 text (prediction unicode g.1 text) ↔ ∀ e y, ¬ Behind unicode g.1 text e y := by
    constructor
    · intro h e y hb
      have hlow := (h.low e hb.stored).1 ((mem_bands hk hb.stored).2 (Or.inr (Or.inr ⟨rfl, Or.inr ⟨y, hb⟩⟩)))
      have := distance_unique hlow hb.away
      omega
    · intro h
      have hnone : ∀ e, ¬ ∃ y, Behind unicode g.1 text e y := fun e => not_exists.2 (h e)
      constructor
      · exact nodup_bands hk
      · exact stored_bands hk
      · intro e he
        unfold prediction
        rw [mem_bands hk he]
        simp
      · intro e he
        unfold prediction
        rw [mem_bands hk he]
        simp
      · intro e he
        unfold prediction
        rw [mem_bands hk he]
        simp [hnone e]
      · exact ⟨nodup_eraseDups _, fun f => by unfold prediction; rw [List.mem_eraseDups, List.mem_map]⟩
  simp only [predictScope_answers hk, ← hgrades]
  constructor
  · rintro ⟨p, ⟨hq, rfl⟩, hp⟩
    exact ⟨hq, hp⟩
  · rintro ⟨hq, hp⟩
    exact ⟨_, ⟨hq, rfl⟩, hp⟩

/-! ## A chain -/

/-- Letters and digits, in lower case. -/
def ascii : Unicode := ⟨Char.isAlphanum, List.map Char.toLower⟩

def function (name : String) (line : Nat) : Entity :=
  ⟨name.toList, .function, name.toList, name.toList, "src/lib.rs".toList, (0, 10), (line, line + 4), none⟩

def call (caller callee : Entity) : Relationship := ⟨caller.id ++ callee.id, .calls, caller.id, callee.id⟩

/-- `main` calls `parse`, `parse` calls `lex`, `lex` calls `peek`. -/
def chain : SemanticGraph :=
  .ofRows [function "main" 1, function "parse" 10, function "lex" 20, function "peek" 30]
    [call (function "main" 1) (function "parse" 10), call (function "parse" 10) (function "lex" 20),
      call (function "lex" 20) (function "peek" 30)]

/-- **An entity three hops away is predicted.** -/
theorem predicted_behind_neighbour : ∃ p, predictScope ascii (some chain.1) "main".toList = .ok p ∧
    predicted .low (function "peek" 30) ∈ p.entities ∧
      Distance chain.1.neighbours (matched ascii chain.1 "main".toList) 3 (function "peek" 30).id ∧
      ¬ Grades ascii chain.1 "main".toList p := by
  have hlow : (predictScope ascii (some chain.1) "main".toList).toOption.any
      (fun p => decide (predicted .low (function "peek" 30) ∈ p.entities)) = true := by
    decide +kernel
  have hdist : (distances chain.1.neighbours 3 chain.1.endpoints (matched ascii chain.1 "main".toList)).get
      (function "peek" 30).id = some 3 := by decide +kernel
  have haway := ((get_distances fun _ _ h => mem_endpoints h).1 hdist).1
  have hholds : chain.1.Holds (function "peek" 30) := by
    unfold Holds
    decide +kernel
  cases hp : predictScope ascii (some chain.1) "main".toList with
  | error e =>
    rw [hp] at hlow
    cases hlow
  | ok p =>
    rw [hp] at hlow
    have hlow : predicted .low (function "peek" 30) ∈ p.entities := of_decide_eq_true hlow
    refine ⟨p, rfl, hlow, haway, fun h => ?_⟩
    have := distance_unique ((h.low _ hholds).1 hlow) haway
    omega

end GradedScope
end Vai
