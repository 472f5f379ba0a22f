import Vai.Bfs
/-!
# EdgeDistance — walks from several seeds, and the distance in a graph

Where the neighbours of every node are those of an undirected graph, and perhaps the node itself, a walk of at most `n`
steps leads from one of the seeds to a node exactly if the node is at distance at most `n` from one of them.
-/
namespace Vai
namespace Bfs

variable {α : Type}

/-- The neighbours are those of the graph; whether a node is its own neighbour is left open. -/
def Neighbouring (G : SimpleGraph α) (next : α → List α) : Prop := ∀ a b, a ≠ b → (b ∈ next a ↔ G.Adj a b)

variable {G : SimpleGraph α} {next : α → List α} {seeds : List α} {m n : Nat} {a b : α}

theorem edist_le_of_walk (h : Neighbouring G next) (hw : Walk next seeds m a) : ∃ s ∈ seeds, G.edist s a ≤ m := by
  induction hw with
  | @seed a ha =>
    refine ⟨a, ha, ?_⟩
    rw [SimpleGraph.edist_self]
    exact zero_le
  | @step m a b _ hb ih =>
    obtain ⟨s, hs, hle⟩ := ih
    refine ⟨s, hs, ?_⟩
    have hstep : G.edist a b ≤ 1 := by
      rw [SimpleGraph.edist_le_one_iff_adj_or_eq]
      by_cases hab : a = b
      · exact Or.inr hab
      · exact Or.inl ((h a b hab).1 hb)
    calc G.edist s b ≤ G.edist s a + G.edist a b := SimpleGraph.edist_triangle
      _ ≤ (m : ℕ∞) + 1 := add_le_add hle hstep
      _ = ((m + 1 : Nat) : ℕ∞) := (Nat.cast_succ m).symm

/-- A walk in the graph goes on from where a walk from the seeds has led. -/
theorem walk_of_graphWalk (h : Neighbouring G next) (p : G.Walk a b) (hw : Walk next seeds m a) :
    Walk next seeds (m + p.length) b := by
  induction p generalizing m with
  | nil => exact hw
  | @cons u v w hadj p ih =>
    have hnext : v ∈ next u := (h u v hadj.ne).2 hadj
    have hrest := ih (hw.step hnext)
    rw [SimpleGraph.Walk.length_cons]
    rwa [Nat.add_assoc, Nat.add_comm 1] at hrest

/-- **Walks reach what is near.** -/
theorem exists_walk_le_iff (h : Neighbouring G next) : (∃ m ≤ n, Walk next seeds m a) ↔ ∃ s ∈ seeds, G.edist s a ≤ n := by
  constructor
  · rintro ⟨m, hm, hw⟩
    obtain ⟨s, hs, hle⟩ := edist_le_of_walk h hw
    exact ⟨s, hs, hle.trans (Nat.cast_le.2 hm)⟩
  · rintro ⟨s, hs, hle⟩
    have hne : G.edist s a ≠ ⊤ := fun htop => by
      rw [htop, top_le_iff] at hle
      exact ENat.natCast_ne_top n hle
    obtain ⟨p, hp⟩ := SimpleGraph.exists_walk_of_edist_ne_top hne
    rw [← hp, Nat.cast_le] at hle
    have hseed : Walk next seeds 0 s := .seed hs
    have hw := walk_of_graphWalk h p hseed
    rw [Nat.zero_add] at hw
    exact ⟨p.length, hle, hw⟩

end Bfs
end Vai
