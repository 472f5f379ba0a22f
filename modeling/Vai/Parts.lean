import Vai.FMap
/-!
# Parts — a table that is the union of parts

Every source has a part, and parts of different sources have no key in common.  Taking one part out of the union and
putting another in its place is what happens to the sources.
-/
namespace Vai
namespace Parts

variable {σ γ κ β : Type} [DecidableEq σ] [DecidableEq κ] {part : σ → γ → FMap κ β} {m m' : FMap σ γ} {t t' : FMap κ β}

/-- Parts of different sources have no key in common. -/
def Apart (part : σ → γ → FMap κ β) : Prop :=
  ∀ {s c s' c' k v v'}, (part s c).get k = some v → (part s' c').get k = some v' → s = s'

/-- The bindings of the table are those of the parts. -/
def Unites (part : σ → γ → FMap κ β) (m : FMap σ γ) (t : FMap κ β) : Prop :=
  ∀ k v, t.get k = some v ↔ ∃ s c, m.get s = some c ∧ (part s c).get k = some v

theorem unites_empty (part : σ → γ → FMap κ β) : Unites part ∅ ∅ := by
  intro k v
  simp

theorem Unites.get_eq (h : Unites part m t) (h' : Unites part m' t') (hm : ∀ s, m.get s = m'.get s) (k : κ) :
    t.get k = t'.get k := by
  refine Option.ext fun v => ?_
  rw [h k v, h' k v]
  simp only [hm]

/-- Without one part, the union of the others. -/
theorem Unites.erase (ha : Apart part) (h : Unites part m t) {s : σ}
    (ht : ∀ k v, t.get k = some v → (t'.get k = some v ↔ ¬ ∃ c, m.get s = some c ∧ (part s c).get k = some v))
    (hle : ∀ k v, t'.get k = some v → t.get k = some v) : Unites part (m.erase s) t' := by
  intro k v
  constructor
  · intro hk
    have hk' := hle k v hk
    obtain ⟨s', c, hm, hp⟩ := (h k v).1 hk'
    refine ⟨s', c, ?_, hp⟩
    rw [FMap.get_erase, if_neg, hm]
    rintro rfl
    exact (ht k v hk').1 hk ⟨c, hm, hp⟩
  · rintro ⟨s', c, hm, hp⟩
    rw [FMap.get_erase] at hm
    split at hm
    · cases hm
    · rename_i hne
      refine (ht k v ((h k v).2 ⟨s', c, hm, hp⟩)).2 ?_
      rintro ⟨c', -, hp'⟩
      exact hne (ha hp hp')

/-- A part over the union of the others. -/
theorem Unites.insert (ha : Apart part) {s : σ} (h : Unites part (m.erase s) t) {c : γ}
    (ht : ∀ k, t'.get k = ((part s c).get k).or (t.get k)) : Unites part (m.insert s c) t' := by
  intro k v
  rw [ht k]
  cases hp : (part s c).get k with
  | some v' =>
    rw [Option.some_or]
    constructor
    · intro hv
      cases hv
      exact ⟨s, c, by rw [FMap.get_insert, if_pos rfl], hp⟩
    · rintro ⟨s', c', hm, hp'⟩
      cases ha hp hp'
      rw [FMap.get_insert, if_pos rfl] at hm
      cases hm
      rw [← hp, hp']
  | none =>
    rw [Option.none_or, h k v]
    constructor
    · rintro ⟨s', c', hm, hp'⟩
      rw [FMap.get_erase] at hm
      split at hm
      · cases hm
      · rename_i hne
        exact ⟨s', c', by rw [FMap.get_insert, if_neg hne, hm], hp'⟩
    · rintro ⟨s', c', hm, hp'⟩
      rw [FMap.get_insert] at hm
      split at hm
      · rename_i hs
        cases hm
        rw [hs, hp] at hp'
        cases hp'
      · rename_i hne
        exact ⟨s', c', by rw [FMap.get_erase, if_neg hne, hm], hp'⟩

end Parts
end Vai
