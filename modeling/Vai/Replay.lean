import Vai.FMap
/-!
# Replay — logs whose last entries decide

A log of entries, each with an owner, a key and a value.  Read for some of the owners, it says of a key what the last
entry of one of them says (`latest`); one more owner counts as far as its last entry is not overtaken (`latest_cons`).
Entries of other owners and of other keys make no difference, and a map that is replayed from the log is decided by
`latest` (`get_replayed`).
-/
namespace Vai

structure LogEntry (ω κ β : Type) where
  owner : ω
  key : κ
  value : β

namespace Replay

variable {ω κ β : Type} [DecidableEq ω] [DecidableEq κ]

/-- What the log says of `k`, as far as it comes from `owners`. -/
def latest (owners : List ω) (k : κ) : List (LogEntry ω κ β) → Option β
  | [] => none
  | e :: log => (latest owners k log).or (if e.owner ∈ owners ∧ e.key = k then some e.value else none)

variable {owners owners' : List ω} {k : κ} {w : ω} {v : β}

theorem latest_append (owners : List ω) (k : κ) : ∀ l l' : List (LogEntry ω κ β),
    latest owners k (l ++ l') = (latest owners k l').or (latest owners k l)
  | [], l' => by simp [latest]
  | e :: l, l' => by
    rw [List.cons_append, latest, latest_append owners k l l', latest, Option.or_assoc]

theorem latest_concat (owners : List ω) (k : κ) (log : List (LogEntry ω κ β)) (e : LogEntry ω κ β) :
    latest owners k (log ++ [e]) = if e.owner ∈ owners ∧ e.key = k then some e.value else latest owners k log := by
  rw [latest_append]
  simp only [latest, Option.none_or]
  split
  · rfl
  · rfl

theorem split_of_latest {log : List (LogEntry ω κ β)} (h : latest owners k log = some v) : ∃ l₁ e l₂,
    log = l₁ ++ e :: l₂ ∧ e.owner ∈ owners ∧ e.key = k ∧ e.value = v ∧ ∀ e' ∈ l₂, e'.owner ∈ owners → e'.key ≠ k := by
  induction log using List.reverseRecOn with
  | nil => cases h
  | append_singleton log e ih =>
    rw [latest_concat] at h
    split at h
    · rename_i he
      exact ⟨log, e, [], rfl, he.1, he.2, Option.some.inj h, fun _ hm => absurd hm List.not_mem_nil⟩
    · rename_i he
      obtain ⟨l₁, e', l₂, rfl, ho, hk, hv, hlast⟩ := ih h
      refine ⟨l₁, e', l₂ ++ [e], by simp, ho, hk, hv, fun e'' hm ho' hk' => ?_⟩
      rcases List.mem_append.1 hm with hm | hm
      · exact hlast e'' hm ho' hk'
      · rw [List.mem_singleton.1 hm] at ho' hk'
        exact he ⟨ho', hk'⟩

theorem exists_of_latest {log : List (LogEntry ω κ β)} (h : latest owners k log = some v) :
    ∃ e ∈ log, e.owner ∈ owners ∧ e.key = k ∧ e.value = v := by
  obtain ⟨l₁, e, l₂, rfl, ho, hk, hv, -⟩ := split_of_latest h
  exact ⟨e, List.mem_append_right _ List.mem_cons_self, ho, hk, hv⟩

theorem latest_eq_none : ∀ {log : List (LogEntry ω κ β)}, latest owners k log = none ↔
    ∀ e ∈ log, e.owner ∈ owners → e.key ≠ k
  | [] => by simp [latest]
  | e :: log => by
    rw [latest, Option.or_eq_none_iff, latest_eq_none, List.forall_mem_cons, and_comm]
    refine and_congr_left fun _ => ?_
    split
    · rename_i he
      exact iff_of_false (fun h => by cases h) (fun h => h he.1 he.2)
    · rename_i he
      exact iff_of_true rfl (fun ho hk => he ⟨ho, hk⟩)

@[simp] theorem latest_no_owners (k : κ) (log : List (LogEntry ω κ β)) : latest [] k log = none :=
  latest_eq_none.2 fun _ _ ho => absurd ho List.not_mem_nil

theorem latest_append_of_others {l' : List (LogEntry ω κ β)} (h : ∀ e ∈ l', e.owner ∉ owners) (l : List (LogEntry ω κ β)) :
    latest owners k (l ++ l') = latest owners k l := by
  rw [latest_append, latest_eq_none.2 fun e he ho => absurd ho (h e he), Option.none_or]

theorem latest_congr (h : ∀ w, w ∈ owners ↔ w ∈ owners') : ∀ log : List (LogEntry ω κ β),
    latest owners k log = latest owners' k log
  | [] => rfl
  | e :: log => by simp only [latest, latest_congr h log, h]

/-- The entries since the last one of `w` for the key. -/
def newer (w : ω) (k : κ) (log : List (LogEntry ω κ β)) : List (LogEntry ω κ β) :=
  log.rtakeWhile (fun e => ¬ (e.owner = w ∧ e.key = k))

/-- With one more owner, the word is that of the others since the new owner's last, or the new owner's. -/
theorem latest_cons (w : ω) (owners : List ω) (k : κ) (log : List (LogEntry ω κ β)) :
    latest (w :: owners) k log = (latest owners k (newer w k log)).or (latest [w] k log) := by
  unfold newer
  induction log using List.reverseRecOn with
  | nil => rfl
  | append_singleton log e ih =>
    rw [latest_concat, latest_concat, List.rtakeWhile_concat]
    by_cases he : e.owner = w ∧ e.key = k
    · rw [if_pos ⟨he.1 ▸ List.mem_cons_self, he.2⟩, if_neg (by simpa using he), if_pos ⟨he.1 ▸ List.mem_cons_self, he.2⟩]
      rfl
    · rw [if_neg (c := e.owner ∈ [w] ∧ e.key = k) fun h => he ⟨List.mem_singleton.1 h.1, h.2⟩, if_pos (decide_eq_true he),
        latest_concat]
      by_cases ho : e.owner ∈ owners ∧ e.key = k
      · rw [if_pos ⟨List.mem_cons_of_mem _ ho.1, ho.2⟩, if_pos ho, Option.some_or]
      · rw [if_neg (c := e.owner ∈ w :: owners ∧ e.key = k) fun h =>
          (List.mem_cons.1 h.1).elim (fun hw => he ⟨hw, h.2⟩) fun hm => ho ⟨hm, h.2⟩, if_neg ho]
        exact ih

theorem latest_of_newer {log : List (LogEntry ω κ β)} (h : latest owners k (newer w k log) = some v) :
    latest owners k log = some v := by
  obtain ⟨older, hlog⟩ : newer w k log <:+ log := List.rtakeWhile_suffix _ _
  rw [← hlog, latest_append, h, Option.some_or]

/-- Where `w` has no word, all entries are newer. -/
theorem newer_of_none {log : List (LogEntry ω κ β)} (h : latest [w] k log = none) : newer w k log = log := by
  exact List.rtakeWhile_eq_self_iff.2 fun e he => decide_eq_true fun hown =>
    latest_eq_none.1 h e he (List.mem_singleton.2 hown.1) hown.2

/-- **A map replayed from records.**  A record that has an entry writes under the key of the entry, and the others are
not replayed.  What a step makes of the value is up to `R`. -/
theorem get_replayed {ε γ : Type} {entry : ε → Option (LogEntry ω κ β)} {step : FMap κ γ → ε → FMap κ γ}
    {R : Option β → Option γ → Prop} (h₀ : R none none)
    (hstep : ∀ m e a, entry e = some a →
      (∀ k, k ≠ a.key → (step m e).get k = m.get k) ∧ R (some a.value) ((step m e).get a.key))
    (owners : List ω) (k : κ) (l : List ε) : R (latest owners k (l.filterMap entry))
      (((l.filter (fun e => (entry e).any (fun a => a.owner ∈ owners))).foldl step ∅).get k) := by
  induction l using List.reverseRecOn with
  | nil => exact h₀
  | append_singleton l e ih =>
    rw [List.filterMap_append, List.filter_append, List.foldl_append]
    cases he : entry e with
    | none => simpa [he] using ih
    | some a =>
      have hlog : [e].filterMap entry = [a] := by simp [he]
      rw [hlog, latest_concat]
      by_cases ho : a.owner ∈ owners
      · have hsel : [e].filter (fun e => (entry e).any (fun a => a.owner ∈ owners)) = [e] := by simp [he, ho]
        rw [hsel, List.foldl_cons, List.foldl_nil]
        obtain ⟨hother, hkey⟩ := hstep ((l.filter (fun e => (entry e).any (fun a => a.owner ∈ owners))).foldl step ∅) e a he
        by_cases hk : a.key = k
        · rw [if_pos ⟨ho, hk⟩, ← hk]
          exact hkey
        · rw [if_neg (fun h => hk h.2), hother k (fun h => hk h.symm)]
          exact ih
      · have hsel : [e].filter (fun e => (entry e).any (fun a => a.owner ∈ owners)) = [] := by simp [he, ho]
        rw [hsel, List.foldl_nil, if_neg (fun h => ho h.1)]
        exact ih

end Replay
end Vai
