import Vai.FMap
/-!
# Bfs — breadth-first search from several seeds

`Distance` is what the search is for: a walk of so many steps from one of the seeds, and none shorter.  The search keeps
the hops of every node it has seen, and a queue.  A node is seen once, at the end of the queue, one hop after the node
whose neighbour it is; what has been at the front for `maxHops` hops is dropped.

The queue is sorted by hops and spans two of them (`Near`), so that a neighbour already seen is not further away than one
hop: with that, whatever has left the queue has all its neighbours (`Closed`), and when the queue is empty the hops are the
distances (`get_distances`).

`Walk` and `Distance` take the edges as a function that lists the neighbours.
-/
namespace Vai
namespace Bfs

variable {α : Type} (next : α → List α)

/-- A walk of so many steps from a seed. -/
inductive Walk (seeds : List α) : Nat → α → Prop where
  | seed {a : α} : a ∈ seeds → Walk seeds 0 a
  | step {n : Nat} {a b : α} : Walk seeds n a → b ∈ next a → Walk seeds (n + 1) b

/-- A walk of `n` steps, and none shorter. -/
def Distance (seeds : List α) (n : Nat) (a : α) : Prop := Walk next seeds n a ∧ ∀ m < n, ¬ Walk next seeds m a

section Distances

variable {next} {seeds seeds' : List α} {m n : Nat} {a b : α}

theorem walk_zero : Walk next seeds 0 a ↔ a ∈ seeds := by
  constructor
  · intro h
    cases h with
    | seed h => exact h
  · exact Walk.seed

theorem walk_succ : Walk next seeds (n + 1) b ↔ ∃ a, Walk next seeds n a ∧ b ∈ next a := by
  constructor
  · intro h
    cases h with
    | step hw hb => exact ⟨_, hw, hb⟩
  · rintro ⟨a, hw, hb⟩
    exact hw.step hb

theorem walk_append : Walk next (seeds ++ seeds') n a ↔ Walk next seeds n a ∨ Walk next seeds' n a := by
  induction n generalizing a with
  | zero =>
    rw [walk_zero, walk_zero, walk_zero]
    exact List.mem_append
  | succ n ih =>
    rw [walk_succ, walk_succ, walk_succ]
    constructor
    · rintro ⟨b, hw, ha⟩
      exact (ih.1 hw).imp (fun h => ⟨b, h, ha⟩) (fun h => ⟨b, h, ha⟩)
    · rintro (⟨b, hw, ha⟩ | ⟨b, hw, ha⟩)
      · exact ⟨b, ih.2 (Or.inl hw), ha⟩
      · exact ⟨b, ih.2 (Or.inr hw), ha⟩

theorem walk_add (h : ∀ b ∈ seeds', Walk next seeds m b) (hw : Walk next seeds' n a) : Walk next seeds (m + n) a := by
  induction hw with
  | seed hb => exact h _ hb
  | step _ hb ih => exact ih.step hb

theorem walk_of_mem (hb : b ∈ seeds) (hw : Walk next [b] n a) : Walk next seeds n a := by
  have hzero : ∀ c ∈ [b], Walk next seeds 0 c := fun c hc => walk_zero.2 (List.mem_singleton.1 hc ▸ hb)
  have hwalk := walk_add hzero hw
  rwa [Nat.zero_add] at hwalk

theorem exists_walk (h : Walk next seeds n a) : ∃ b ∈ seeds, Walk next [b] n a := by
  induction h with
  | seed ha => exact ⟨_, ha, .seed List.mem_cons_self⟩
  | step _ hb ih =>
    obtain ⟨c, hc, hw⟩ := ih
    exact ⟨c, hc, hw.step hb⟩

theorem walk_congr (h : ∀ a, a ∈ seeds ↔ a ∈ seeds') : Walk next seeds n a ↔ Walk next seeds' n a := by
  have hsub : ∀ {s t : List α}, (∀ a, a ∈ s → a ∈ t) → Walk next s n a → Walk next t n a := fun hst hw => by
    rw [← Nat.zero_add n]
    exact walk_add (fun b hb => walk_zero.2 (hst b hb)) hw
  exact ⟨hsub fun a => (h a).1, hsub fun a => (h a).2⟩

theorem walk_next {next' : α → List α} (h : ∀ a b, b ∈ next a ↔ b ∈ next' a) : Walk next seeds n a ↔ Walk next' seeds n a := by
  induction n generalizing a with
  | zero => rw [walk_zero, walk_zero]
  | succ n ih =>
    rw [walk_succ, walk_succ]
    simp only [ih, h]

theorem distance_next {next' : α → List α} (h : ∀ a b, b ∈ next a ↔ b ∈ next' a) :
    Distance next seeds n a ↔ Distance next' seeds n a := by
  unfold Distance
  simp only [walk_next h]

/-- A walk from `a` to `b`, read backwards. -/
theorem walk_reverse {prev : α → List α} (h : ∀ a b, b ∈ next a ↔ a ∈ prev b) :
    Walk next [a] n b ↔ Walk prev [b] n a := by
  have hone : ∀ {next prev : α → List α}, (∀ a b, b ∈ next a → a ∈ prev b) → ∀ {n a b}, Walk next [a] n b → Walk prev [b] n a := by
    intro next prev h n a b hw
    generalize hs : [a] = seeds at hw
    induction hw with
    | @seed c hc =>
      rw [← hs, List.mem_singleton] at hc
      subst hc
      exact .seed List.mem_cons_self
    | @step n c d hw hd ih =>
      -- the last step backwards, and then the rest
      have hfirst : Walk prev [d] 1 c := (Walk.seed List.mem_cons_self).step (h c d hd)
      rw [Nat.add_comm]
      refine walk_add (fun e he => ?_) ih
      rw [List.mem_singleton.1 he]
      exact hfirst
  exact ⟨hone fun a b => (h a b).1, hone fun a b => (h b a).2⟩

theorem distance_congr (h : ∀ a, a ∈ seeds ↔ a ∈ seeds') : Distance next seeds n a ↔ Distance next seeds' n a := by
  unfold Distance
  simp only [walk_congr h]

theorem distance_zero : Distance next seeds 0 a ↔ a ∈ seeds :=
  ⟨fun h => walk_zero.1 h.1, fun h => ⟨walk_zero.2 h, fun _ hm => absurd hm (Nat.not_lt_zero _)⟩⟩

theorem distance_unique (hm : Distance next seeds m a) (hn : Distance next seeds n a) : m = n := by
  rcases Nat.lt_trichotomy m n with h | h | h
  · exact absurd hm.1 (hn.2 m h)
  · exact h
  · exact absurd hn.1 (hm.2 n h)

theorem distance_of_walk (h : Walk next seeds n a) : ∃ m ≤ n, Distance next seeds m a := by
  induction n using Nat.strong_induction_on with
  | _ n ih =>
    by_cases hs : ∃ m < n, Walk next seeds m a
    · obtain ⟨m, hm, hw⟩ := hs
      obtain ⟨k, hk, hd⟩ := ih m hm hw
      exact ⟨k, by omega, hd⟩
    · exact ⟨n, le_rfl, h, fun m hm hw => hs ⟨m, hm, hw⟩⟩

theorem distance_succ :
    Distance next seeds (n + 1) b ↔ (∃ a, Distance next seeds n a ∧ b ∈ next a) ∧ ∀ m ≤ n, ¬ Walk next seeds m b := by
  constructor
  · rintro ⟨hw, hmin⟩
    obtain ⟨a, ha, hb⟩ := walk_succ.1 hw
    refine ⟨⟨a, ⟨ha, fun m hm hwm => ?_⟩, hb⟩, fun m hm => hmin m (by omega)⟩
    exact hmin (m + 1) (by omega) (hwm.step hb)
  · rintro ⟨⟨a, ha, hb⟩, hmin⟩
    exact ⟨ha.1.step hb, fun m hm => hmin m (by omega)⟩

theorem distance_one : Distance next seeds 1 a ↔ (∃ m ≤ 1, Walk next seeds m a) ∧ a ∉ seeds := by
  constructor
  · intro h
    exact ⟨⟨1, le_rfl, h.1⟩, fun ha => h.2 0 Nat.one_pos (walk_zero.2 ha)⟩
  · rintro ⟨⟨m, hm, hw⟩, ha⟩
    obtain ⟨n, hn, hd⟩ := distance_of_walk hw
    have hone : n = 1 := by
      rcases Nat.le_one_iff_eq_zero_or_eq_one.1 (hn.trans hm) with rfl | rfl
      · exact absurd (distance_zero.1 hd) ha
      · rfl
    exact hone ▸ hd

end Distances

/-! ## The search -/

structure Search (α : Type) where
  dist : FMap α Nat
  queue : List (α × Nat)

variable [DecidableEq α]

/-- A node is seen at its first time only. -/
def visit (hops : Nat) (s : Search α) (neighbor : α) : Search α :=
  if (s.dist.get neighbor).isSome then s
  else ⟨s.dist.insert neighbor (hops + 1), s.queue ++ [(neighbor, hops + 1)]⟩

/-- Take the front of the queue until there is none. -/
def search (maxHops : Nat) : Nat → Search α → Search α
  | 0, s => s
  | fuel + 1, s => match s.queue with
    | [] => s
    | (a, hops) :: rest =>
      if maxHops ≤ hops then search maxHops fuel ⟨s.dist, rest⟩
      else search maxHops fuel ((next a).foldl (visit hops) ⟨s.dist, rest⟩)

def start (seeds : List α) : Search α := ⟨FMap.ofList (seeds.map fun a => (a, 0)), seeds.map fun a => (a, 0)⟩

/-- Every seed, and every node of `nodes`, enters the queue at most once. -/
def distances (maxHops : Nat) (nodes seeds : List α) : FMap α Nat :=
  (search next maxHops (seeds.length + nodes.length) (start seeds)).dist

/-! ### What one step keeps -/

structure Sound (maxHops : Nat) (seeds : List α) (s : Search α) : Prop where
  walk : ∀ {a h}, s.dist.get a = some h → Walk next seeds h a
  within : ∀ {a h}, s.dist.get a = some h → h ≤ maxHops
  queued : ∀ {a h}, (a, h) ∈ s.queue → s.dist.get a = some h
  seeds : ∀ {a}, a ∈ seeds → s.dist.get a = some 0

/-- What has left the queue has all its neighbours. -/
def Closed (maxHops : Nat) (s : Search α) : Prop :=
  ∀ a h, s.dist.get a = some h → h < maxHops → (a, h) ∈ s.queue ∨ ∀ b ∈ next a, ∃ k ≤ h + 1, s.dist.get b = some k

/-- The queue is sorted by hops, and nothing is more than one hop beyond `h`. -/
structure Near (h : Nat) (s : Search α) : Prop where
  sorted : s.queue.Pairwise fun p q => p.2 ≤ q.2
  lower : ∀ p ∈ s.queue, h ≤ p.2
  upper : ∀ {a k}, s.dist.get a = some k → k ≤ h + 1

/-- More has been seen, and all of that is in the queue. -/
structure Extends (s s' : Search α) : Prop where
  kept : ∀ {a h}, s.dist.get a = some h → s'.dist.get a = some h
  queue : ∀ {p}, p ∈ s.queue → p ∈ s'.queue
  fresh : ∀ {a h}, s'.dist.get a = some h → s.dist.get a = some h ∨ (a, h) ∈ s'.queue

variable {next} {maxHops h : Nat} {seeds nodes : List α} {s : Search α} {a b : α}

theorem Extends.refl (s : Search α) : Extends s s := ⟨id, id, Or.inl⟩

theorem Extends.trans {s s' s'' : Search α} (h : Extends s s') (h' : Extends s' s'') : Extends s s'' where
  kept hd := h'.kept (h.kept hd)
  queue hp := h'.queue (h.queue hp)
  fresh hd := by
    rcases h'.fresh hd with hd | hq
    · exact (h.fresh hd).imp_right h'.queue
    · exact Or.inr hq

/-- What `visit` does to a node it has not seen. -/
theorem visit_fresh (hb : s.dist.get b = none) :
    visit h s b = ⟨s.dist.insert b (h + 1), s.queue ++ [(b, h + 1)]⟩ := by
  unfold visit
  rw [hb]
  rfl

theorem visit_seen {k : Nat} (hb : s.dist.get b = some k) : visit h s b = s := by
  unfold visit
  rw [hb]
  rfl

theorem extends_visit (h : Nat) (s : Search α) (b : α) : Extends s (visit h s b) := by
  cases hb : s.dist.get b with
  | some k =>
    rw [visit_seen hb]
    exact .refl s
  | none =>
    rw [visit_fresh hb]
    constructor
    · intro a k hd
      have hne : a ≠ b := fun he => by rw [he, hb] at hd; cases hd
      rw [FMap.get_insert, if_neg hne]
      exact hd
    · intro p hp
      exact List.mem_append_left _ hp
    · intro a k hd
      rw [FMap.get_insert] at hd
      split at hd
      · rename_i hab
        cases hd
        rw [hab]
        exact Or.inr (List.mem_append_right _ List.mem_cons_self)
      · exact Or.inl hd

theorem isSome_visit (h : Nat) (s : Search α) (b : α) : ((visit h s b).dist.get b).isSome := by
  cases hb : s.dist.get b with
  | some k => rw [visit_seen hb, hb]; rfl
  | none => rw [visit_fresh hb, FMap.get_insert, if_pos rfl]; rfl

theorem sound_visit (hs : Sound next maxHops seeds s) (ha : Walk next seeds h a) (hb : b ∈ next a) (hh : h < maxHops) :
    Sound next maxHops seeds (visit h s b) := by
  have hext := extends_visit h s b
  cases hd : s.dist.get b with
  | some k =>
    rw [visit_seen hd]
    exact hs
  | none =>
    have hget : ∀ {c k}, (visit h s b).dist.get c = some k → (c = b ∧ k = h + 1) ∨ s.dist.get c = some k := by
      intro c k hc
      rw [visit_fresh hd, FMap.get_insert] at hc
      split at hc
      · rename_i hcb
        exact Or.inl ⟨hcb, (Option.some.inj hc).symm⟩
      · exact Or.inr hc
    constructor
    · intro c k hc
      rcases hget hc with ⟨rfl, rfl⟩ | hc
      · exact ha.step hb
      · exact hs.walk hc
    · intro c k hc
      rcases hget hc with ⟨-, rfl⟩ | hc
      · exact hh
      · exact hs.within hc
    · intro c k hq
      rw [visit_fresh hd] at hq ⊢
      rcases List.mem_append.1 hq with hq | hq
      · have hold := hext.kept (hs.queued hq)
        rwa [visit_fresh hd] at hold
      · cases List.mem_singleton.1 hq
        rw [FMap.get_insert, if_pos rfl]
    · intro c hc
      exact hext.kept (hs.seeds hc)

theorem near_visit (hs : Sound next maxHops seeds s) (hn : Near h s) (b : α) : Near h (visit h s b) := by
  cases hd : s.dist.get b with
  | some k =>
    rw [visit_seen hd]
    exact hn
  | none =>
    rw [visit_fresh hd]
    constructor
    · -- whatever is queued is at most one hop beyond
      rw [List.pairwise_append]
      refine ⟨hn.sorted, List.pairwise_singleton _ _, fun p hp q hq => ?_⟩
      rw [List.mem_singleton.1 hq]
      exact hn.upper (hs.queued (a := p.1) (h := p.2) hp)
    · intro p hp
      rcases List.mem_append.1 hp with hp | hp
      · exact hn.lower p hp
      · rw [List.mem_singleton.1 hp]
        exact Nat.le_succ h
    · intro a k hk
      rw [FMap.get_insert] at hk
      split at hk
      · cases hk
        exact le_rfl
      · exact hn.upper hk

theorem near_pop {d : FMap α Nat} {rest : List (α × Nat)} {h' : Nat} (hn : Near h ⟨d, (a, h') :: rest⟩) :
    Near h' ⟨d, rest⟩ where
  sorted := (List.pairwise_cons.1 hn.sorted).2
  lower p := (List.pairwise_cons.1 hn.sorted).1 p
  upper hk := by
    have hle := hn.lower _ List.mem_cons_self
    have hup := hn.upper hk
    omega

/-- **All neighbours of the front.** -/
theorem foldl_visit (ha : Walk next seeds h a) (hh : h < maxHops) : ∀ {bs : List α} {s : Search α}, (∀ b ∈ bs, b ∈ next a) →
    Sound next maxHops seeds s → Near h s →
    Sound next maxHops seeds (bs.foldl (visit h) s) ∧ Near h (bs.foldl (visit h) s) ∧ Extends s (bs.foldl (visit h) s) ∧
      ∀ b ∈ bs, ((bs.foldl (visit h) s).dist.get b).isSome
  | [], s, _, hs, hn => ⟨hs, hn, .refl s, by simp⟩
  | b :: bs, s, hbs, hs, hn => by
    have hb := hbs b List.mem_cons_self
    obtain ⟨hs', hn', hext, hseen⟩ := foldl_visit ha hh (fun c hc => hbs c (List.mem_cons_of_mem _ hc))
      (sound_visit hs ha hb hh) (near_visit hs hn b)
    rw [List.foldl_cons]
    refine ⟨hs', hn', (extends_visit h s b).trans hext, fun c hc => ?_⟩
    rcases List.mem_cons.1 hc with rfl | hc
    · obtain ⟨k, hk⟩ := Option.isSome_iff_exists.1 (isSome_visit h s c)
      rw [hext.kept hk]
      rfl
    · exact hseen c hc

/-! ### What a run keeps -/

structure Searching (next : α → List α) (maxHops : Nat) (seeds : List α) (s : Search α) : Prop where
  sound : Sound next maxHops seeds s
  closed : Closed next maxHops s
  near : ∃ h, Near h s

theorem searching_start (maxHops : Nat) (seeds : List α) : Searching next maxHops seeds (start seeds) := by
  have hget : ∀ {a h}, (start seeds).dist.get a = some h → a ∈ seeds ∧ h = 0 := by
    intro a h hd
    obtain ⟨b, hb, he⟩ := List.mem_map.1 (FMap.get_ofList_mem hd)
    cases he
    exact ⟨hb, rfl⟩
  have hseed : ∀ {a}, a ∈ seeds → (start seeds).dist.get a = some 0 := by
    intro a ha
    have hmem : (a, 0) ∈ seeds.map fun a => (a, 0) := List.mem_map.2 ⟨a, ha, rfl⟩
    obtain ⟨k, hk⟩ := Option.isSome_iff_exists.1 (FMap.isSome_get_ofList hmem)
    have hk : (start seeds).dist.get a = some k := hk
    rwa [(hget hk).2] at hk
  have hqueue : ∀ {a h}, (a, h) ∈ (start seeds).queue → a ∈ seeds ∧ h = 0 := by
    intro a h hq
    obtain ⟨b, hb, he⟩ := List.mem_map.1 hq
    cases he
    exact ⟨hb, rfl⟩
  constructor
  · constructor
    · intro a h hd
      obtain ⟨ha, rfl⟩ := hget hd
      exact .seed ha
    · intro a h hd
      rw [(hget hd).2]
      exact Nat.zero_le _
    · intro a h hq
      obtain ⟨ha, rfl⟩ := hqueue hq
      exact hseed ha
    · exact hseed
  · intro a h hd _
    obtain ⟨ha, rfl⟩ := hget hd
    exact Or.inl (List.mem_map.2 ⟨a, ha, rfl⟩)
  · refine ⟨0, ?_, fun p _ => Nat.zero_le _, fun hd => ?_⟩
    · rw [start, List.pairwise_map]
      exact List.pairwise_of_forall fun _ _ => le_rfl
    · rw [(hget hd).2]
      exact Nat.zero_le _

theorem searching_drop {d : FMap α Nat} {rest : List (α × Nat)} (hs : Searching next maxHops seeds ⟨d, (a, h) :: rest⟩)
    (hh : maxHops ≤ h) : Searching next maxHops seeds ⟨d, rest⟩ where
  sound := { hs.sound with queued := fun hq => hs.sound.queued (List.mem_cons_of_mem _ hq) }
  closed := fun b k hd hk => (hs.closed b k hd hk).imp_left fun hq => by
    rcases List.mem_cons.1 hq with he | hq
    · cases he
      omega
    · exact hq
  near := by
    obtain ⟨k, hn⟩ := hs.near
    exact ⟨h, near_pop hn⟩

/-- A node below the limit leaves the queue, and its neighbours are seen. -/
theorem searching_expand {d : FMap α Nat} {rest : List (α × Nat)} (hs : Searching next maxHops seeds ⟨d, (a, h) :: rest⟩)
    (hh : h < maxHops) : Searching next maxHops seeds ((next a).foldl (visit h) ⟨d, rest⟩) := by
  obtain ⟨k₀, hn₀⟩ := hs.near
  have ha := hs.sound.queued (a := a) (h := h) List.mem_cons_self
  have hsound : Sound next maxHops seeds ⟨d, rest⟩ :=
    { hs.sound with queued := fun hq => hs.sound.queued (List.mem_cons_of_mem _ hq) }
  obtain ⟨hs', hn', hext, hseen⟩ := foldl_visit (hs.sound.walk ha) hh (fun b hb => hb) hsound (near_pop hn₀)
  refine ⟨hs', fun b k hd hk => ?_, h, hn'⟩
  rcases hext.fresh hd with hold | hq
  · rcases hs.closed b k hold hk with hq | hall
    · rcases List.mem_cons.1 hq with he | hq
      · -- the node that has just left the queue
        cases he
        refine Or.inr fun c hc => ?_
        obtain ⟨m, hm⟩ := Option.isSome_iff_exists.1 (hseen c hc)
        exact ⟨m, hn'.upper hm, hm⟩
      · exact Or.inl (hext.queue hq)
    · refine Or.inr fun c hc => ?_
      obtain ⟨m, hm, hdc⟩ := hall c hc
      exact ⟨m, hm, hext.kept hdc⟩
  · exact Or.inl hq

theorem searching_search : ∀ {fuel : Nat} {s : Search α}, Searching next maxHops seeds s →
    Searching next maxHops seeds (search next maxHops fuel s)
  | 0, _, hs => hs
  | fuel + 1, s, hs => by
    unfold search
    obtain ⟨d, queue⟩ := s
    cases queue with
    | nil => exact hs
    | cons p rest =>
      obtain ⟨a, h⟩ := p
      dsimp only
      split
      · rename_i hh
        exact searching_search (searching_drop hs hh)
      · rename_i hh
        exact searching_search (searching_expand hs (by omega))

/-! ### The queue empties -/

/-- What may still enter the queue, with what is there. -/
def room (nodes : List α) (s : Search α) : Nat :=
  s.queue.length + (nodes.toFinset.filter fun a => s.dist.get a = none).card

theorem room_visit (hb : b ∈ nodes) : room nodes (visit h s b) ≤ room nodes s := by
  cases hd : s.dist.get b with
  | some k => rw [visit_seen hd]
  | none =>
    rw [visit_fresh hd]
    unfold room
    have hlt : (nodes.toFinset.filter fun a => FMap.get (s.dist.insert b (h + 1)) a = none).card <
        (nodes.toFinset.filter fun a => s.dist.get a = none).card := by
      apply Finset.card_lt_card
      rw [Finset.ssubset_iff_of_subset]
      · refine ⟨b, ?_, ?_⟩
        · simp [hb, hd]
        · simp [FMap.get_insert]
      · intro a ha
        rw [Finset.mem_filter, FMap.get_insert] at ha
        rw [Finset.mem_filter]
        refine ⟨ha.1, ?_⟩
        have hget := ha.2
        split at hget
        · cases hget
        · exact hget
    dsimp only
    rw [List.length_append, List.length_singleton]
    omega

theorem room_foldl_visit {bs : List α} (hbs : ∀ b ∈ bs, b ∈ nodes) (s : Search α) :
    room nodes (bs.foldl (visit h) s) ≤ room nodes s := by
  induction bs generalizing s with
  | nil => exact le_rfl
  | cons b bs ih =>
    rw [List.foldl_cons]
    exact (ih (fun c hc => hbs c (List.mem_cons_of_mem _ hc)) _).trans (room_visit (hbs b List.mem_cons_self))

theorem queue_search (hnodes : ∀ a, ∀ b ∈ next a, b ∈ nodes) : ∀ {fuel : Nat} {s : Search α}, room nodes s ≤ fuel →
    (search next maxHops fuel s).queue = []
  | 0, s, hr => by
    unfold search
    unfold room at hr
    exact List.length_eq_zero_iff.1 (by omega)
  | fuel + 1, s, hr => by
    unfold search
    obtain ⟨d, queue⟩ := s
    cases queue with
    | nil => rfl
    | cons p rest =>
      obtain ⟨a, h⟩ := p
      have hpop : room nodes ⟨d, rest⟩ ≤ fuel := by
        unfold room at hr ⊢
        dsimp only at hr ⊢
        rw [List.length_cons] at hr
        omega
      dsimp only
      split
      · exact queue_search hnodes hpop
      · exact queue_search hnodes ((room_foldl_visit (hnodes a) _).trans hpop)

theorem room_start (nodes seeds : List α) : room nodes (start seeds) ≤ seeds.length + nodes.length := by
  unfold room start
  rw [List.length_map]
  exact Nat.add_le_add_left ((Finset.card_filter_le _ _).trans (List.toFinset_card_le nodes)) _

/-- A walk within the limit leads to a node seen at least as near. -/
theorem get_of_walk (hs : Searching next maxHops seeds s) (hq : s.queue = []) {n : Nat} (hw : Walk next seeds n a) :
    n ≤ maxHops → ∃ k ≤ n, s.dist.get a = some k := by
  induction hw with
  | seed ha => exact fun _ => ⟨0, le_rfl, hs.sound.seeds ha⟩
  | step _ hb ih =>
    intro hn
    obtain ⟨k, hk, hd⟩ := ih (by omega)
    rcases hs.closed _ k hd (by omega) with hmem | hall
    · rw [hq] at hmem
      cases hmem
    · obtain ⟨m, hm, hdb⟩ := hall _ hb
      exact ⟨m, by omega, hdb⟩

/-- **The hops are the distances**, up to the limit, once there has been fuel for every node. -/
theorem get_search (hnodes : ∀ a, ∀ b ∈ next a, b ∈ nodes) {fuel : Nat} (hfuel : seeds.length + nodes.length ≤ fuel) {n : Nat} :
    (search next maxHops fuel (start seeds)).dist.get a = some n ↔ Distance next seeds n a ∧ n ≤ maxHops := by
  have hs : Searching next maxHops seeds (search next maxHops fuel (start seeds)) :=
    searching_search (searching_start maxHops seeds)
  have hq : (search next maxHops fuel (start seeds)).queue = [] :=
    queue_search hnodes ((room_start nodes seeds).trans hfuel)
  constructor
  · intro hd
    have hle := hs.sound.within hd
    refine ⟨⟨hs.sound.walk hd, fun m hm hw => ?_⟩, hle⟩
    obtain ⟨k, hk, hdk⟩ := get_of_walk hs hq hw (by omega)
    rw [hd] at hdk
    have := Option.some.inj hdk
    omega
  · rintro ⟨hd, hle⟩
    obtain ⟨k, hk, hdk⟩ := get_of_walk hs hq hd.1 hle
    rcases Nat.lt_or_ge k n with hlt | hge
    · exact absurd (hs.sound.walk hdk) (hd.2 k hlt)
    · rw [hdk, Nat.le_antisymm hk hge]

theorem get_distances (hnodes : ∀ a, ∀ b ∈ next a, b ∈ nodes) {n : Nat} :
    (distances next maxHops nodes seeds).get a = some n ↔ Distance next seeds n a ∧ n ≤ maxHops :=
  get_search hnodes le_rfl

/-! ### What enters the queue -/

/-- No node is in the queue twice, and what is in it has been seen. -/
structure Once (s : Search α) : Prop where
  nodup : (s.queue.map Prod.fst).Nodup
  seen : ∀ p ∈ s.queue, (s.dist.get p.1).isSome

theorem once_push (ho : Once s) (hd : s.dist.get b = none) (k : Nat) : Once ⟨s.dist.insert b k, s.queue ++ [(b, k)]⟩ := by
  constructor
  · rw [List.map_append, List.nodup_append]
    refine ⟨ho.nodup, List.nodup_singleton _, fun a ha c hc hac => ?_⟩
    obtain ⟨p, hp, rfl⟩ := List.mem_map.1 ha
    obtain rfl : c = b := List.mem_singleton.1 hc
    have hseen := ho.seen p hp
    rw [hac, hd] at hseen
    cases hseen
  · intro p hp
    rw [FMap.get_insert]
    split
    · rfl
    · rename_i hne
      rcases List.mem_append.1 hp with hp | hp
      · exact ho.seen p hp
      · exact absurd (congrArg Prod.fst (List.mem_singleton.1 hp)) hne

theorem once_visit (ho : Once s) (h : Nat) (b : α) : Once (visit h s b) := by
  cases hd : s.dist.get b with
  | some k =>
    rw [visit_seen hd]
    exact ho
  | none =>
    rw [visit_fresh hd]
    exact once_push ho hd (h + 1)

theorem once_foldl_visit {bs : List α} (ho : Once s) (h : Nat) : Once (bs.foldl (visit h) s) := by
  induction bs generalizing s with
  | nil => exact ho
  | cons b bs ih => exact ih (once_visit ho h b)

theorem mem_queue_foldl_visit {bs : List α} {p : α × Nat} (hp : p ∈ (bs.foldl (visit h) s).queue) :
    p ∈ s.queue ∨ s.dist.get p.1 = none := by
  induction bs generalizing s with
  | nil => exact .inl hp
  | cons b bs ih =>
    rw [List.foldl_cons] at hp
    cases hd : s.dist.get b with
    | some k =>
      rw [visit_seen hd] at hp
      exact ih hp
    | none =>
      rw [visit_fresh hd] at hp
      rcases ih hp with hq | hnone
      · rcases List.mem_append.1 hq with hq | hq
        · exact .inl hq
        · rw [List.mem_singleton.1 hq]
          exact .inr hd
      · rw [FMap.get_insert] at hnone
        split at hnone
        · cases hnone
        · exact .inr hnone

theorem extends_foldl_visit (h : Nat) (bs : List α) (s : Search α) : Extends s (bs.foldl (visit h) s) := by
  induction bs generalizing s with
  | nil => exact .refl s
  | cons b bs ih => exact (extends_visit h s b).trans (ih _)

end Bfs
end Vai
