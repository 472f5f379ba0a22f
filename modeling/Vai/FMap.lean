import Mathlib
/-!
# FMap — finite maps

Mathlib's association lists, read through one lookup function: `get` after `insert` and `erase` as an `if`, and the
keys as the places where `get` answers.  Two maps are compared by their lookups; the order of the keys carries no
meaning.
-/
namespace Vai

/-- A finite map from `κ` to `β`. -/
abbrev FMap (κ β : Type) := AList (fun _ : κ => β)

namespace FMap

variable {κ β : Type} [DecidableEq κ]

def get (m : FMap κ β) (k : κ) : Option β := m.lookup k

/-- The map of a list of bindings, the later ones winning. -/
def ofList (l : List (κ × β)) : FMap κ β := l.foldl (fun m q => m.insert q.1 q.2) ∅

/-- The bindings, in the order of the keys. -/
def pairs (m : FMap κ β) : List (κ × β) := m.entries.map (fun e => (e.1, e.2))

@[simp] theorem get_empty (k : κ) : (∅ : FMap κ β).get k = none := AList.lookup_empty k

theorem get_insert (m : FMap κ β) (k : κ) (v : β) (j : κ) :
    get (m.insert k v) j = if j = k then some v else m.get j := by
  unfold get
  split
  · subst j; exact AList.lookup_insert m
  · exact AList.lookup_insert_ne ‹_›

theorem get_erase (m : FMap κ β) (k j : κ) : get (m.erase k) j = if j = k then none else m.get j := by
  unfold get
  split
  · subst j; exact AList.lookup_erase k m
  · exact AList.lookup_erase_ne ‹_›

theorem get_ofList_mem {l : List (κ × β)} {k : κ} {v : β} (h : (ofList l).get k = some v) : (k, v) ∈ l := by
  suffices ∀ (l : List (κ × β)) (m : FMap κ β), (l.foldl (fun m q => m.insert q.1 q.2) m).get k = some v →
      (k, v) ∈ l ∨ m.get k = some v from (this l ∅ h).resolve_right (by simp)
  intro l
  induction l with
  | nil => exact fun m hm => .inr hm
  | cons q l ih =>
    intro m hm
    rcases ih _ hm with hm | hm
    · exact .inl (List.mem_cons_of_mem _ hm)
    · rw [get_insert] at hm
      split at hm
      · rename_i hk
        cases hm
        exact .inl (by rw [hk]; exact List.mem_cons_self)
      · exact .inr hm

/-- Storing bindings over a map: the bindings, and what they leave of it. -/
theorem get_foldl_insert (l : List (κ × β)) (m : FMap κ β) (k : κ) :
    (l.foldl (fun m q => m.insert q.1 q.2) m).get k = ((ofList l).get k).or (m.get k) := by
  unfold ofList
  induction l using List.reverseRecOn with
  | nil => simp
  | append_singleton l q ih =>
    rw [List.foldl_append, List.foldl_append, List.foldl_cons, List.foldl_cons, List.foldl_nil, List.foldl_nil, get_insert,
      get_insert, ih]
    split
    · rfl
    · rfl

theorem isSome_get_ofList {l : List (κ × β)} {k : κ} {v : β} (h : (k, v) ∈ l) : ((ofList l).get k).isSome := by
  unfold ofList
  induction l using List.reverseRecOn with
  | nil => cases h
  | append_singleton l q ih =>
    rw [List.foldl_append, List.foldl_cons, List.foldl_nil, get_insert]
    split
    · rfl
    · rename_i hk
      rcases List.mem_append.1 h with h | h
      · exact ih h
      · exact absurd (congrArg Prod.fst (List.mem_singleton.1 h)) hk

theorem get_ofList_of_mem_iff {l : List (κ × β)} {f : κ → Option β} (h : ∀ k v, (k, v) ∈ l ↔ f k = some v) (k : κ) :
    (ofList l).get k = f k := by
  cases hf : f k with
  | some v =>
    obtain ⟨v', hv'⟩ := Option.isSome_iff_exists.1 (isSome_get_ofList ((h k v).2 hf))
    rw [hv', ← hf, ← (h k v').1 (get_ofList_mem hv')]
  | none =>
    cases hg : (ofList l).get k with
    | none => rfl
    | some v => rw [(h k v).1 (get_ofList_mem hg)] at hf; cases hf

/-- Bind `k` to the content `o`, or remove it. -/
def put (m : FMap κ β) (k : κ) : Option β → FMap κ β
  | some v => m.insert k v
  | none => m.erase k

theorem get_put (m : FMap κ β) (k : κ) (o : Option β) (j : κ) : (m.put k o).get j = if j = k then o else m.get j := by
  cases o with
  | none => exact get_erase m k j
  | some v => exact get_insert m k v j

/-- The bindings that pass a test. -/
def filter (m : FMap κ β) (keep : κ → β → Bool) : FMap κ β :=
  ⟨m.entries.filter (fun s => keep s.1 s.2), m.nodupKeys.sublist List.filter_sublist⟩

theorem get_filter {m : FMap κ β} {keep : κ → β → Bool} {k : κ} {v : β} :
    (m.filter keep).get k = some v ↔ m.get k = some v ∧ keep k v = true := by
  unfold get
  rw [← Option.mem_def, ← Option.mem_def, AList.mem_lookup_iff, AList.mem_lookup_iff]
  exact List.mem_filter

theorem mem_keys {m : FMap κ β} {k : κ} : k ∈ m.keys ↔ (m.get k).isSome := by
  unfold get
  rw [AList.lookup_isSome, AList.mem_keys]

theorem mem_pairs {m : FMap κ β} {k : κ} {v : β} : (k, v) ∈ m.pairs ↔ m.get k = some v := by
  unfold pairs get
  rw [← Option.mem_def, AList.mem_lookup_iff]
  simp only [List.mem_map, Prod.mk.injEq]
  constructor
  · rintro ⟨⟨k', v'⟩, h, rfl, rfl⟩
    exact h
  · exact fun h => ⟨⟨k, v⟩, h, rfl, rfl⟩

omit [DecidableEq κ] in
theorem map_fst_pairs (m : FMap κ β) : m.pairs.map Prod.fst = m.keys := by
  unfold pairs
  rw [List.map_map]
  rfl

end FMap
end Vai
