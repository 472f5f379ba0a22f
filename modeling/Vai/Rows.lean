import Mathlib.Data.List.Nodup
import Mathlib.Data.List.Count
/-!
# Rows — a table as the list of its rows, in the order of insertion

`SELECT`, `UPDATE … WHERE` and the counts that an update moves, for rows of any type with a key.
-/
namespace Vai
namespace Rows

variable {α β κ : Type}

/-- `UPDATE … SET f WHERE p`. -/
def updateWhere (p : α → Bool) (f : α → α) (rows : List α) : List α := rows.map fun r => if p r then f r else r

theorem mem_updateWhere {p : α → Bool} {f : α → α} {rows : List α} {r : α} :
    r ∈ updateWhere p f rows ↔ ∃ r' ∈ rows, (if p r' then f r' else r') = r := List.mem_map

theorem map_updateWhere {p : α → Bool} {f : α → α} {col : α → β} (hcol : ∀ r, p r = true → col (f r) = col r)
    (rows : List α) : (updateWhere p f rows).map col = rows.map col := by
  unfold updateWhere
  rw [List.map_map]
  refine List.map_congr_left fun r _ => ?_
  by_cases hp : p r = true
  · simp [hp, hcol r hp]
  · simp [hp]

theorem updateWhere_of_none {p : α → Bool} (f : α → α) {rows : List α} (hp : ∀ r ∈ rows, p r = false) :
    updateWhere p f rows = rows := by
  unfold updateWhere
  conv_rhs => rw [← List.map_id rows]
  refine List.map_congr_left fun r hr => ?_
  simp [hp r hr]

/-- A query that sees none of the rows that are updated, neither before nor after. -/
theorem filter_updateWhere {p q : α → Bool} {f : α → α} (hq : ∀ r, p r = true → q r = false ∧ q (f r) = false)
    (rows : List α) : (updateWhere p f rows).filter q = rows.filter q := by
  induction rows with
  | nil => rfl
  | cons r rows ih =>
    unfold updateWhere at ih ⊢
    by_cases hp : p r = true
    · simp [hp, hq r hp, ih]
    · simp [hp, List.filter_cons, ih]

section Key

variable {key : α → κ} {rows : List α}

theorem eq_of_key (hkey : (rows.map key).Nodup) {r r' : α} (hr : r ∈ rows) (hr' : r' ∈ rows) (h : key r = key r') :
    r = r' := List.inj_on_of_nodup_map hkey hr hr' h

/-- Rows of a table, with its keys in its order, are the table. -/
theorem eq_of_map_key (hkey : (rows.map key).Nodup) {l : List α} (hmem : ∀ r ∈ l, r ∈ rows) (h : l.map key = rows.map key) :
    l = rows := by
  have hlength : l.length = rows.length := by
    simpa using congrArg List.length h
  refine List.ext_getElem hlength fun n hn hn' => ?_
  have hkeys : (l.map key)[n]? = (rows.map key)[n]? := by rw [h]
  simp only [List.getElem?_map, List.getElem?_eq_getElem hn, List.getElem?_eq_getElem hn', Option.map_some,
    Option.some.injEq] at hkeys
  exact eq_of_key hkey (hmem _ (List.getElem_mem hn)) (List.getElem_mem hn') hkeys

variable [DecidableEq κ]

/-- The row under a key. -/
def row (key : α → κ) (k : κ) (rows : List α) : Option α := rows.find? (fun r => key r = k)

def update (key : α → κ) (k : κ) (f : α → α) (rows : List α) : List α := updateWhere (fun r => key r = k) f rows

theorem mem_of_row {k : κ} {r : α} (h : row key k rows = some r) : r ∈ rows := List.mem_of_find?_eq_some h

theorem key_of_row {k : κ} {r : α} (h : row key k rows = some r) : key r = k := by
  simpa using List.find?_some h

theorem row_eq_none {k : κ} : row key k rows = none ↔ ∀ r ∈ rows, key r ≠ k := by
  simp [row]

theorem row_of_mem (hkey : (rows.map key).Nodup) {r : α} (hr : r ∈ rows) : row key (key r) rows = some r := by
  cases h : row key (key r) rows with
  | none => exact absurd rfl (row_eq_none.1 h r hr)
  | some r' => rw [eq_of_key hkey (mem_of_row h) hr (key_of_row h)]

theorem mem_update {k : κ} {f : α → α} {r : α} :
    r ∈ update key k f rows ↔ (r ∈ rows ∧ key r ≠ k) ∨ ∃ r' ∈ rows, key r' = k ∧ f r' = r := by
  unfold update
  rw [mem_updateWhere]
  constructor
  · rintro ⟨r', hr', rfl⟩
    by_cases hk : key r' = k
    · exact Or.inr ⟨r', hr', hk, by simp [hk]⟩
    · exact Or.inl (by simp [hk, hr'])
  · rintro (⟨hr, hk⟩ | ⟨r', hr', hk, rfl⟩)
    · exact ⟨r, hr, by simp [hk]⟩
    · exact ⟨r', hr', by simp [hk]⟩

theorem map_key_update {k : κ} {f : α → α} (hf : ∀ r, key (f r) = key r) : (update key k f rows).map key = rows.map key :=
  map_updateWhere (fun r _ => hf r) rows

theorem row_update {k : κ} {f : α → α} (hf : ∀ r, key (f r) = key r) (j : κ) :
    row key j (update key k f rows) = if j = k then (row key k rows).map f else row key j rows := by
  have hkeys : (fun r => decide (key r = j)) ∘ (fun r => if decide (key r = k) then f r else r) =
      fun r => decide (key r = j) := by
    funext r
    by_cases hk : key r = k
    · simp [hk, hf]
    · simp [hk]
  unfold update updateWhere
  rw [row, List.find?_map, hkeys]
  by_cases hj : j = k
  · subst hj
    rw [if_pos rfl]
    cases hrow : row key j rows with
    | none => simp [show rows.find? (fun r => decide (key r = j)) = none from hrow]
    | some r => simp [show rows.find? (fun r => decide (key r = j)) = some r from hrow, key_of_row hrow]
  · rw [if_neg hj]
    cases hrow : row key j rows with
    | none => simp [show rows.find? (fun r => decide (key r = j)) = none from hrow]
    | some r => simp [show rows.find? (fun r => decide (key r = j)) = some r from hrow, key_of_row hrow, hj]

theorem update_update {k : κ} {f g : α → α} (hf : ∀ r, key (f r) = key r) :
    update key k g (update key k f rows) = update key k (fun r => g (f r)) rows := by
  unfold update updateWhere
  rw [List.map_map]
  refine List.map_congr_left fun r _ => ?_
  by_cases hk : key r = k
  · simp [hk, hf]
  · simp [hk]

theorem update_self {k : κ} : update key k (fun r => r) rows = rows := by
  unfold update updateWhere
  simp

theorem row_map {f : β → α} {k : κ} {l : List β} : row key k (l.map f) = (row (fun b => key (f b)) k l).map f := by
  unfold row
  rw [List.find?_map]
  rfl

/-- Two tables that look alike still do when the rows under one key are updated alike. -/
theorem map_update_eq {γ : Type} {key' : β → κ} {rows' : List β} {u : α → γ} {v : β → γ} (h : rows.map u = rows'.map v)
    (hkeys : ∀ a b, u a = v b → key a = key' b) {k : κ} {f : α → α} {g : β → β}
    (hupdate : ∀ a ∈ rows, ∀ b ∈ rows', key a = k → key' b = k → u a = v b → u (f a) = v (g b)) :
    (update key k f rows).map u = (update key' k g rows').map v := by
  induction rows generalizing rows' with
  | nil =>
    rw [List.map_nil] at h
    rw [List.map_eq_nil_iff.1 h.symm]
    rfl
  | cons a rows ih =>
    cases rows' with
    | nil => simp at h
    | cons b rows' =>
      rw [List.map_cons, List.map_cons, List.cons.injEq] at h
      have hrest := ih h.2 fun a' ha' b' hb' =>
        hupdate a' (List.mem_cons_of_mem _ ha') b' (List.mem_cons_of_mem _ hb')
      unfold update updateWhere at hrest ⊢
      rw [List.map_cons, List.map_cons, List.map_cons, List.map_cons, hrest]
      by_cases hk : key a = k
      · have hk' : key' b = k := (hkeys a b h.1).symm.trans hk
        simp [hk, hk', hupdate a List.mem_cons_self b List.mem_cons_self hk hk' h.1]
      · have hk' : key' b ≠ k := fun hk' => hk ((hkeys a b h.1).trans hk')
        simp [hk, hk', h.1]

/-- **An update of one row moves a count by that row.** -/
theorem countP_update (hkey : (rows.map key).Nodup) {r : α} (hr : r ∈ rows) (f : α → α) (p : α → Bool) :
    (update key (key r) f rows).countP p + (if p r then 1 else 0) = rows.countP p + if p (f r) then 1 else 0 := by
  induction rows with
  | nil => cases hr
  | cons r₀ rows ih =>
    rw [List.map_cons, List.nodup_cons] at hkey
    rw [update, updateWhere, List.map_cons, List.countP_cons, List.countP_cons]
    rcases List.mem_cons.1 hr with rfl | hr
    · -- the rows behind it have other keys
      have hrest : updateWhere (fun r' => key r' = key r) f rows = rows := by
        refine updateWhere_of_none f fun r' hr' => ?_
        simp only [decide_eq_false_iff_not]
        exact fun h => hkey.1 (h ▸ List.mem_map_of_mem hr')
      rw [updateWhere] at hrest
      simp only [hrest, decide_true, if_true]
      omega
    · have hne : key r₀ ≠ key r := fun h => hkey.1 (h ▸ List.mem_map_of_mem hr)
      have hrest := ih hkey.2 hr
      rw [update, updateWhere] at hrest
      simp only [hne, decide_false, Bool.false_eq_true, if_false]
      omega

end Key
end Rows
end Vai
