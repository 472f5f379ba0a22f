import Vai.Scope
/-!
# Like — what a `LIKE` pattern matches

A pattern made of two matches what is made of two matches (`like_append`): `%` matches anything, a comma a comma, and every
text matches itself (`like_self`).  A pattern without `%` and `_` matches the texts that it is but for the case of ASCII
letters (`like_iff_of_plain`).
-/
namespace Vai

/-- One character of a pattern that is no wildcard, against the next of a text. -/
theorem like_cons_of_plain {c : Char} {p s : Text} (h1 : c ≠ '%') (h2 : c ≠ '_') :
    sqliteLike (c :: p) s = true ↔ ∃ d t, s = d :: t ∧ d.toLower = c.toLower ∧ sqliteLike p t = true := by
  rw [sqliteLike]
  · cases s with
    | nil => simp
    | cons d t => simp
  · exact h1
  · exact h2

theorem like_nil {s : Text} : sqliteLike [] s = true ↔ s = [] := by
  rw [sqliteLike, List.isEmpty_iff]

theorem like_any {p s : Text} : sqliteLike ('%' :: p) s = true ↔ ∃ u v, s = u ++ v ∧ sqliteLike p v = true := by
  rw [sqliteLike, List.any_eq_true]
  constructor
  · rintro ⟨v, hv, hp⟩
    obtain ⟨u, rfl⟩ := (List.mem_tails v s).1 hv
    exact ⟨u, v, rfl, hp⟩
  · rintro ⟨u, v, rfl, hp⟩
    exact ⟨v, (List.mem_tails v _).2 ⟨u, rfl⟩, hp⟩

theorem like_one {p s : Text} : sqliteLike ('_' :: p) s = true ↔ ∃ d t, s = d :: t ∧ sqliteLike p t = true := by
  rw [sqliteLike]
  · cases s with
    | nil => simp
    | cons d t => simp

/-- **A pattern of two parts matches a text of two parts.** -/
theorem like_append {p q s : Text} :
    sqliteLike (p ++ q) s = true ↔ ∃ u v, s = u ++ v ∧ sqliteLike p u = true ∧ sqliteLike q v = true := by
  induction p generalizing s with
  | nil =>
    simp only [List.nil_append, like_nil]
    constructor
    · exact fun h => ⟨[], s, rfl, rfl, h⟩
    · rintro ⟨u, v, rfl, rfl, h⟩
      exact h
  | cons c p ih =>
    rw [List.cons_append]
    by_cases hany : c = '%'
    · subst hany
      simp only [like_any, ih]
      constructor
      · rintro ⟨u, v, rfl, w, z, rfl, hp, hq⟩
        exact ⟨u ++ w, z, (List.append_assoc _ _ _).symm, ⟨u, w, rfl, hp⟩, hq⟩
      · rintro ⟨u, v, rfl, ⟨w, z, rfl, hp⟩, hq⟩
        exact ⟨w, z ++ v, List.append_assoc _ _ _, z, v, rfl, hp, hq⟩
    · by_cases hone : c = '_'
      · subst hone
        simp only [like_one, ih]
        constructor
        · rintro ⟨d, t, rfl, u, v, rfl, hp, hq⟩
          exact ⟨d :: u, v, rfl, ⟨d, u, rfl, hp⟩, hq⟩
        · rintro ⟨u, v, rfl, ⟨d, t, rfl, hp⟩, hq⟩
          exact ⟨d, t ++ v, rfl, t, v, rfl, hp, hq⟩
      · simp only [like_cons_of_plain hany hone, ih]
        constructor
        · rintro ⟨d, t, rfl, hd, u, v, rfl, hp, hq⟩
          exact ⟨d :: u, v, rfl, ⟨d, u, rfl, hd, hp⟩, hq⟩
        · rintro ⟨u, v, rfl, ⟨d, t, rfl, hd, hp⟩, hq⟩
          exact ⟨d, t ++ v, rfl, hd, t, v, rfl, hp, hq⟩

/-- `%` alone. -/
theorem like_percent (s : Text) : sqliteLike ['%'] s = true :=
  like_any.2 ⟨s, [], (List.append_nil s).symm, like_nil.2 rfl⟩

theorem toLower_eq_comma {d : Char} (h : d.toLower = ','.toLower) : d = ',' := by
  have hcomma : ','.toLower = ',' := rfl
  rw [hcomma] at h
  by_cases hu : d.isUpper = true
  · have hlower := Char.isLower_toLower_eq_isAlpha d
    rw [h, Char.isAlpha, hu, Bool.true_or] at hlower
    exact absurd hlower (by decide)
  · rw [Char.toLower_eq_of_not_isUpper hu] at h
    exact h

theorem like_comma {p s : Text} : sqliteLike (',' :: p) s = true ↔ ∃ t, s = ',' :: t ∧ sqliteLike p t = true := by
  rw [like_cons_of_plain (by decide) (by decide)]
  constructor
  · rintro ⟨d, t, rfl, hd, hp⟩
    exact ⟨t, by rw [toLower_eq_comma hd], hp⟩
  · rintro ⟨t, rfl, hp⟩
    exact ⟨',', t, rfl, rfl, hp⟩

theorem like_self (s : Text) : sqliteLike s s = true := by
  induction s with
  | nil => exact like_nil.2 rfl
  | cons c s ih =>
    by_cases hany : c = '%'
    · subst hany
      exact like_any.2 ⟨['%'], s, rfl, ih⟩
    · by_cases hone : c = '_'
      · subst hone
        exact like_one.2 ⟨'_', s, rfl, ih⟩
      · exact (like_cons_of_plain hany hone).2 ⟨c, s, rfl, rfl, ih⟩

/-- **Without wildcards** a pattern matches the texts that it is but for the case of ASCII letters. -/
theorem like_iff_of_plain {p s : Text} (h : ∀ c ∈ p, c ≠ '%' ∧ c ≠ '_') :
    sqliteLike p s = true ↔ s.map Char.toLower = p.map Char.toLower := by
  induction p generalizing s with
  | nil =>
    rw [like_nil, List.map_nil, List.map_eq_nil_iff]
  | cons c p ih =>
    obtain ⟨h1, h2⟩ := h c List.mem_cons_self
    rw [like_cons_of_plain h1 h2, List.map_cons]
    constructor
    · rintro ⟨d, t, rfl, hd, hp⟩
      rw [List.map_cons, hd, (ih fun c' hc' => h c' (List.mem_cons_of_mem _ hc')).1 hp]
    · intro hs
      cases s with
      | nil => cases hs
      | cons d t =>
        rw [List.map_cons, List.cons.injEq] at hs
        exact ⟨d, t, rfl, hs.1, (ih fun c' hc' => h c' (List.mem_cons_of_mem _ hc')).2 hs.2⟩

end Vai
