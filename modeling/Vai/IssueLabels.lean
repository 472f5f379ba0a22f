import Vai.IssueStorage
import Vai.Like
/-!
# IssueLabels — what the column of labels answers

Labels are kept in one column, joined by commas, and the filter is a `LIKE` on that column.  The column can be cut at a
comma between two labels and nowhere else (`joinLabels_eq_iff`), so the pattern sees runs of consecutive labels
(`labelMatches_iff`): every label of an issue is found, and what else is found is told by `FilterExact`.

`labels_survive_iff` is about every run of the store: what reading an issue back and listing by a label answer, against
the labels that were last given for each issue.
-/
namespace Vai

open Proc Rows Sorting

/-! ## Runs of labels in the column -/

section Column

variable {l : Text} {ls xs ys rs : List Text}

theorem joinLabels_append (hxs : xs ≠ []) (hys : ys ≠ []) : joinLabels (xs ++ ys) = joinLabels xs ++ ',' :: joinLabels ys := by
  obtain ⟨y, ys, rfl⟩ := List.exists_cons_of_ne_nil hys
  unfold joinLabels
  induction xs with
  | nil => exact absurd rfl hxs
  | cons x xs ih =>
    cases xs with
    | nil => simp [List.intercalate_cons_cons]
    | cons x' xs =>
      have htail := ih (by simp)
      rw [List.cons_append] at htail
      rw [List.cons_append, List.cons_append, List.intercalate_cons_cons, htail, List.intercalate_cons_cons]
      simp [List.append_assoc]

theorem splitOn_joinLabels (hls : ls ≠ []) (hcommas : ∀ l ∈ ls, ',' ∉ l) : (joinLabels ls).splitOn ',' = ls :=
  List.splitOn_intercalate ',' hcommas hls

/-- **A comma of the column is between two labels.** -/
theorem joinLabels_eq_iff (hls : ls ≠ []) (hcommas : ∀ l ∈ ls, ',' ∉ l) {u v : Text} :
    joinLabels ls = u ++ ',' :: v ↔
      ∃ xs ys, ls = xs ++ ys ∧ xs ≠ [] ∧ ys ≠ [] ∧ joinLabels xs = u ∧ joinLabels ys = v := by
  constructor
  · intro h
    refine ⟨u.splitOn ',', v.splitOn ',', ?_, List.splitOn_ne_nil _ _, List.splitOn_ne_nil _ _,
      List.intercalate_splitOn ',', List.intercalate_splitOn ','⟩
    rw [← splitOn_joinLabels hls hcommas, h, List.splitOn_append_cons_self]
  · rintro ⟨xs, ys, rfl, hxs, hys, rfl, rfl⟩
    exact joinLabels_append hxs hys

/-- Consecutive labels, but not all of them. -/
def IsRun (rs ls : List Text) : Prop := rs ≠ [] ∧ rs <:+: ls ∧ rs ≠ ls

theorem isRun_iff : IsRun rs ls ↔ rs ≠ [] ∧ ((∃ ys, ys ≠ [] ∧ ls = rs ++ ys) ∨ (∃ xs, xs ≠ [] ∧ ls = xs ++ rs) ∨
    ∃ xs ys, xs ≠ [] ∧ ys ≠ [] ∧ ls = xs ++ (rs ++ ys)) := by
  refine and_congr_right fun _ => ?_
  constructor
  · rintro ⟨⟨xs, ys, rfl⟩, hne⟩
    by_cases hxs : xs = []
    · subst hxs
      refine Or.inl ⟨ys, fun hys => hne ?_, rfl⟩
      rw [hys, List.nil_append, List.append_nil]
    · by_cases hys : ys = []
      · subst hys
        exact Or.inr (Or.inl ⟨xs, hxs, List.append_nil _⟩)
      · exact Or.inr (Or.inr ⟨xs, ys, hxs, hys, List.append_assoc _ _ _⟩)
  · rintro (⟨ys, hys, rfl⟩ | ⟨xs, hxs, rfl⟩ | ⟨xs, ys, hxs, hys, rfl⟩)
    · exact ⟨(List.prefix_append rs ys).isInfix, by simp [hys]⟩
    · exact ⟨(List.suffix_append xs rs).isInfix, by simp [hxs]⟩
    · refine ⟨⟨xs, ys, List.append_assoc _ _ _⟩, fun h => hxs ?_⟩
      have hlength := congrArg List.length h
      rw [List.length_append, List.length_append] at hlength
      exact List.length_eq_zero_iff.1 (by omega)

/-! ## The filter -/

theorem like_comma_any {s : Text} : sqliteLike (l ++ ",%".toList) s = true ↔
    ∃ u v, s = u ++ ',' :: v ∧ sqliteLike l u = true := by
  rw [like_append]
  constructor
  · rintro ⟨u, w, rfl, hl, hw⟩
    obtain ⟨v, rfl, -⟩ := like_comma.1 hw
    exact ⟨u, v, rfl, hl⟩
  · rintro ⟨u, v, rfl, hl⟩
    exact ⟨u, ',' :: v, rfl, hl, like_comma.2 ⟨v, rfl, like_percent v⟩⟩

theorem like_any_comma {p s : Text} : sqliteLike ("%,".toList ++ p) s = true ↔
    ∃ u v, s = u ++ ',' :: v ∧ sqliteLike p v = true := by
  refine like_any.trans ?_
  constructor
  · rintro ⟨u, w, rfl, hw⟩
    obtain ⟨v, rfl, hp⟩ := like_comma.1 hw
    exact ⟨u, v, rfl, hp⟩
  · rintro ⟨u, v, rfl, hp⟩
    exact ⟨u, ',' :: v, rfl, like_comma.2 ⟨v, rfl, hp⟩⟩

theorem labelMatches_text {s : Text} : Sqlite.labelMatches l s = true ↔ s = l ∨
    (∃ u v, s = u ++ ',' :: v ∧ sqliteLike l u = true) ∨ (∃ u v, s = u ++ ',' :: v ∧ sqliteLike l v = true) ∨
    ∃ u v, s = u ++ ',' :: v ∧ ∃ u' v', v = u' ++ ',' :: v' ∧ sqliteLike l u' = true := by
  unfold Sqlite.labelMatches
  simp only [Bool.or_eq_true, decide_eq_true_iff, List.append_assoc, like_comma_any, like_any_comma, or_assoc]

/-- **The filter sees runs of labels**: all of them as they are, and any other run as a `LIKE` pattern does. -/
theorem labelMatches_iff (hcommas : ∀ l ∈ ls, ',' ∉ l) : Sqlite.labelMatches l (joinLabels ls) = true ↔
    joinLabels ls = l ∨ ∃ rs, IsRun rs ls ∧ sqliteLike l (joinLabels rs) = true := by
  rw [labelMatches_text]
  refine or_congr_right ?_
  by_cases hls : ls = []
  · subst hls
    have hnil : ∀ u v, joinLabels [] ≠ u ++ ',' :: v := fun u v h => by
      cases u <;> cases h
    refine iff_of_false ?_ ?_
    · rintro (⟨u, v, h, -⟩ | ⟨u, v, h, -⟩ | ⟨u, v, h, -⟩)
      all_goals exact hnil u v h
    · rintro ⟨rs, ⟨hne, hinfix, -⟩, -⟩
      exact hne (List.infix_nil.1 hinfix)
  have hcut := fun u v => joinLabels_eq_iff hls hcommas (u := u) (v := v)
  have hrest : ∀ {xs ys}, ls = xs ++ ys → ∀ l ∈ ys, ',' ∉ l := fun h l hl => hcommas l (h ▸ List.mem_append_right _ hl)
  simp only [hcut, isRun_iff]
  constructor
  · rintro (⟨u, v, ⟨xs, ys, h, hxs, hys, rfl, -⟩, hl⟩ | ⟨u, v, ⟨xs, ys, h, hxs, hys, -, rfl⟩, hl⟩ |
      ⟨u, v, ⟨xs, ys, h, hxs, hys, -, rfl⟩, u', v', h', hl⟩)
    · exact ⟨xs, ⟨hxs, Or.inl ⟨ys, hys, h⟩⟩, hl⟩
    · exact ⟨ys, ⟨hys, Or.inr (Or.inl ⟨xs, hxs, h⟩)⟩, hl⟩
    · -- what is behind the first comma is cut again
      obtain ⟨rs, zs, rfl, hrs, hzs, rfl, -⟩ := (joinLabels_eq_iff hys (hrest h)).1 h'
      exact ⟨rs, ⟨hrs, Or.inr (Or.inr ⟨xs, zs, hxs, hzs, h⟩)⟩, hl⟩
  · rintro ⟨rs, ⟨hrs, ⟨ys, hys, h⟩ | ⟨xs, hxs, h⟩ | ⟨xs, ys, hxs, hys, h⟩⟩, hl⟩
    · exact Or.inl ⟨_, _, ⟨rs, ys, h, hrs, hys, rfl, rfl⟩, hl⟩
    · exact Or.inr (Or.inl ⟨_, _, ⟨xs, rs, h, hxs, hrs, rfl, rfl⟩, hl⟩)
    · have hne : rs ++ ys ≠ [] := fun h => hrs (List.append_eq_nil_iff.1 h).1
      refine Or.inr (Or.inr ⟨_, _, ⟨xs, rs ++ ys, h, hxs, hne, rfl, rfl⟩, joinLabels rs, joinLabels ys, ?_, hl⟩)
      exact joinLabels_append hrs hys

/-- The filter `l` answers rightly about an issue with these labels. -/
def FilterExact (l : Text) (ls : List Text) : Prop :=
  l ∈ ls ∨ (joinLabels ls ≠ l ∧ ∀ rs, IsRun rs ls → sqliteLike l (joinLabels rs) = false)

theorem labelMatches_of_mem (hcommas : ∀ l ∈ ls, ',' ∉ l) (hl : l ∈ ls) : Sqlite.labelMatches l (joinLabels ls) = true := by
  have hsingle : joinLabels [l] = l := List.intercalate_singleton
  refine (labelMatches_iff hcommas).2 ?_
  by_cases hone : [l] = ls
  · exact Or.inl (by rw [← hone, hsingle])
  · refine Or.inr ⟨[l], ⟨by simp, ?_, hone⟩, by rw [hsingle]; exact like_self l⟩
    obtain ⟨xs, ys, h⟩ := List.append_of_mem hl
    exact ⟨xs, ys, by rw [h, List.append_assoc, List.singleton_append]⟩

theorem filterExact_iff (hcommas : ∀ l ∈ ls, ',' ∉ l) :
    (Sqlite.labelMatches l (joinLabels ls) = true ↔ l ∈ ls) ↔ FilterExact l ls := by
  unfold FilterExact
  by_cases hl : l ∈ ls
  · exact iff_of_true (iff_of_true (labelMatches_of_mem hcommas hl) hl) (Or.inl hl)
  · rw [iff_false_right hl, or_iff_right hl, labelMatches_iff hcommas, not_or, not_exists]
    simp only [not_and, Bool.not_eq_true, ne_eq]

/-- **Without wildcards and commas**: the labels are several and one is the filter but for the case of ASCII letters, or the
issue has none and the filter is empty. -/
theorem filterExact_iff_of_plain (hcommas : ∀ l ∈ ls, ',' ∉ l) (hl : ∀ c ∈ l, c ≠ '%' ∧ c ≠ '_' ∧ c ≠ ',') :
    FilterExact l ls ↔ l ∈ ls ∨ (ls = [] → l ≠ []) ∧
      (2 ≤ ls.length → ∀ l' ∈ ls, l'.map Char.toLower ≠ l.map Char.toLower) := by
  have hcomma : ',' ∉ l := fun h => (hl ',' h).2.2 rfl
  have hlike : ∀ s, sqliteLike l s = true ↔ s.map Char.toLower = l.map Char.toLower := fun s =>
    like_iff_of_plain fun c hc => ⟨(hl c hc).1, (hl c hc).2.1⟩
  -- a run that the filter matches has no comma, so it is one label
  have hone : ∀ rs, rs ≠ [] → sqliteLike l (joinLabels rs) = true → ∃ l', rs = [l'] := by
    intro rs hrs hmatch
    obtain ⟨r, rs, rfl⟩ := List.exists_cons_of_ne_nil hrs
    cases rs with
    | nil => exact ⟨r, rfl⟩
    | cons r' rs =>
      have hlower := (hlike _).1 hmatch
      have hmem : ',' ∈ (joinLabels (r :: r' :: rs)).map Char.toLower := by
        refine List.mem_map.2 ⟨',', ?_, rfl⟩
        have happend : joinLabels ([r] ++ r' :: rs) = _ := joinLabels_append (by simp) (by simp)
        rw [List.singleton_append] at happend
        rw [happend]
        simp
      rw [hlower, List.mem_map] at hmem
      obtain ⟨c, hc, hcc⟩ := hmem
      exact absurd (toLower_eq_comma hcc ▸ hc) hcomma
  refine or_congr_right' fun hmem => and_congr ?_ ?_
  · constructor
    · rintro h rfl rfl
      exact h rfl
    · intro h hjoin
      by_cases hls : ls = []
      · subst hls
        exact h rfl hjoin.symm
      · -- the joined text has no comma, so the one label is the filter
        obtain ⟨r, rs, rfl⟩ := List.exists_cons_of_ne_nil hls
        have hself : sqliteLike l (joinLabels (r :: rs)) = true := by rw [hjoin]; exact like_self l
        obtain ⟨l', hl'⟩ := hone _ hls hself
        rw [hl'] at hjoin hmem
        exact hmem (by rw [← hjoin]; exact List.mem_singleton.2 List.intercalate_singleton)
  · constructor
    · intro h hlen l' hl' hlower
      have hrun : IsRun [l'] ls := by
        refine ⟨by simp, ?_, fun heq => by rw [← heq] at hlen; simp at hlen⟩
        obtain ⟨xs, ys, hxy⟩ := List.append_of_mem hl'
        exact ⟨xs, ys, by rw [hxy, List.append_assoc, List.singleton_append]⟩
      have hno := h [l'] hrun
      have hsingle : joinLabels [l'] = l' := List.intercalate_singleton
      rw [hsingle, (hlike l').2 hlower] at hno
      cases hno
    · intro h rs hrun
      rw [Bool.eq_false_iff]
      intro hmatch
      obtain ⟨l', rfl⟩ := hone rs hrun.1 hmatch
      have hmem' : l' ∈ ls := hrun.2.1.subset List.mem_cons_self
      have hsingle : joinLabels [l'] = l' := List.intercalate_singleton
      rw [hsingle, hlike] at hmatch
      refine h ?_ l' hmem' hmatch
      have hle := hrun.2.1.length_le
      have hne : [l'].length ≠ ls.length := fun heq => hrun.2.2 (hrun.2.1.eq_of_length heq)
      simp only [List.length_singleton] at hle hne
      omega

end Column

/-! ## The store -/

namespace IssueDir

/-- `IssueStore::list`. -/
def list (order : RowOrder Issue) (filter : IssueFilter) (d : IssueDir) : List Issue :=
  order.orderBy newestFirst ((d.rows.filter (Sqlite.selects filter d.dependencies)).map IssueRow.toIssue)

/-- A call of the store that writes issues. -/
inductive StoreCall where
  | create (id : Uuid) (now : Nat) (title description : Text) (priority : IssuePriority) (labels : List Text)
      (creator : Text) (log : LogDir)
  | createByAgent (id : Uuid) (now : Nat) (title description : Text) (priority : IssuePriority) (labels : List Text)
      (agentId : Text) (source : AgentSource) (maxPerHour : Nat) (log : LogDir)
  | updateIssue (id : Uuid) (now : Nat) (title description : Option Text) (priority : Option IssuePriority)
      (labels : Option (List Text)) (log : LogDir)
  | setInProgress (id workspaceId : Uuid) (now : Nat) (log : LogDir)
  | reopen (id : Uuid) (now : Nat) (log : LogDir)
  | resolve (id : Uuid) (now : Nat) (versionId : Option Text) (log : LogDir)
  | close (id : Uuid) (now : Nat) (resolution : Text) (log : LogDir)
  | setAgentSource (id : Uuid) (source : Option AgentSource)
  | setAcceptanceCriteria (id : Uuid) (criteria : List Text)

def StoreCall.perform (unicode : Unicode) : StoreCall → Proc IssueDir IssueError Unit
  | create id now title description priority labels creator log => do
    let _ ← IssueDir.create noFault id now title description priority labels creator log
  | createByAgent id now title description priority labels agentId source maxPerHour log => do
    let _ ← IssueDir.createByAgent noFault unicode id now title description priority labels agentId source maxPerHour log
  | updateIssue id now title description priority labels log => do
    let _ ← IssueDir.updateIssue noFault id now title description priority labels log
  | setInProgress id workspaceId now log => do
    let _ ← IssueDir.setInProgress noFault id workspaceId now log
  | reopen id now log => do
    let _ ← IssueDir.reopen noFault id now log
  | resolve id now versionId log => do
    let _ ← IssueDir.resolve noFault id now versionId log
  | close id now resolution log => do
    let _ ← IssueDir.close noFault id now resolution log
  | setAgentSource id source => IssueDir.setAgentSource noFault id source
  | setAcceptanceCriteria id criteria => IssueDir.setAcceptanceCriteria noFault id criteria

/-- The labels that a call gives to an issue. -/
def StoreCall.given : StoreCall → Option (Uuid × List Text)
  | create id _ _ _ _ labels _ _ => some (id, labels)
  | createByAgent id _ _ _ _ labels _ _ _ _ => some (id, labels)
  | updateIssue id _ _ _ _ labels _ => labels.map fun labels => (id, labels)
  | _ => none

/-- The store, and for each of its issues the labels that it was last given. -/
structure Labelled where
  dir : IssueDir
  given : FMap Uuid (List Text)

/-- A call; what it gives counts where it succeeds. -/
def Labelled.step (unicode : Unicode) (s : Labelled) (c : StoreCall) : Labelled :=
  match c.perform unicode s.dir, c.given with
  | (.ok _, d), some (id, labels) => ⟨d, s.given.insert id labels⟩
  | (_, d), _ => ⟨d, s.given⟩

def Labelled.run (unicode : Unicode) (calls : List StoreCall) : Labelled :=
  calls.foldl (Labelled.step unicode) ⟨.empty, ∅⟩

/-! ## What the calls do to the columns -/

variable {unicode : Unicode} {d d' : IssueDir} {id : Uuid}

/-- A row is inserted, with the labels that are given. -/
def Inserts (d d' : IssueDir) (id : Uuid) (labels : List Text) : Prop :=
  ∃ r : IssueRow, r.id = id ∧ r.labels = joinLabels labels ∧ row IssueRow.id id d.rows = none ∧ d'.rows = d.rows ++ [r]

/-- The row of an issue is written, with the labels that are given, or those it has. -/
def Writes (d d' : IssueDir) (id : Uuid) (labels : Option (List Text)) : Prop :=
  ∃ f : IssueRow → IssueRow, (∀ r, (f r).id = r.id) ∧ d'.rows = update IssueRow.id id f d.rows ∧
    ∀ r, row IssueRow.id id d.rows = some r → (f r).labels = labels.elim r.labels joinLabels

theorem writes_of_rows (h : d'.rows = d.rows) (id : Uuid) : Writes d d' id none :=
  ⟨fun r => r, fun _ => rfl, by rw [h, update_self], fun _ _ => rfl⟩

section Calls

variable {now : Nat} {title description : Text} {priority : IssuePriority} {labels : List Text} {log : LogDir}

theorem inserts_of_create {creator : Text} {issue : Issue}
    (h : create noFault id now title description priority labels creator log d = (.ok issue, d')) :
    Inserts d d' id labels := by
  have hfresh := fresh_of_create h
  rw [create_noFault hfresh] at h
  cases h
  exact ⟨(Issue.new id now title description priority labels creator none).toRow, rfl, rfl, hfresh, by cases log <;> rfl⟩

theorem rows_of_create_error {creator : Text} {e : IssueError}
    (h : create noFault id now title description priority labels creator log d = (.error e, d')) : d'.rows = d.rows := by
  cases hrow : row IssueRow.id id d.rows with
  | none =>
    rw [create_noFault hrow] at h
    cases h
  | some r =>
    have htaken := insertRow_taken (r := (Issue.new id now title description priority labels creator none).toRow) r hrow
    unfold create at h
    rw [bind_apply, htaken] at h
    cases h
    rfl

variable {agentId : Text} {source : AgentSource} {maxPerHour : Nat}

theorem inserts_of_createByAgent {r : Issue × Option Uuid}
    (h : createByAgent noFault unicode id now title description priority labels agentId source maxPerHour log d =
      (.ok r, d')) : Inserts d d' id labels := by
  obtain ⟨hfresh, limits, rfl⟩ := createByAgent_ok h
  exact ⟨(Issue.new id now title description priority labels agentId (some source)).toRow, rfl, rfl, hfresh,
    by cases log <;> rfl⟩

theorem rows_of_createByAgent_error {e : IssueError}
    (h : createByAgent noFault unicode id now title description priority labels agentId source maxPerHour log d =
      (.error e, d')) : d'.rows = d.rows := by
  have hcount : ∃ count d₁, incrementAgentRateLimit noFault agentId now d = (.ok count, d₁) ∧ d₁.rows = d.rows :=
    ⟨_, _, rfl, rfl⟩
  obtain ⟨count, d₁, hcount, hrows⟩ := hcount
  unfold createByAgent at h
  rw [bind_of_ok hcount] at h
  split at h
  · rw [← hrows]
    cases h
    rfl
  · have hsimilar : call noFault .findSimilar d₁ = (.ok (), d₁) := rfl
    rw [bind_of_ok hsimilar, bind_apply, read_apply] at h
    dsimp only at h
    cases hrow : row IssueRow.id id d₁.rows with
    | none =>
      have hinsert := insertRow_noFault (d := d₁)
        (r := (Issue.new id now title description priority labels agentId (some source)).toRow) hrow
      rw [bind_of_ok hinsert] at h
      cases h
    | some r =>
      have htaken := insertRow_taken (d := d₁)
        (r := (Issue.new id now title description priority labels agentId (some source)).toRow) r hrow
      rw [bind_apply, htaken] at h
      cases h
      exact hrows

end Calls

theorem writes_of_updateIssue {now : Nat} {title description : Option Text} {priority : Option IssuePriority}
    {labels : Option (List Text)} {log : LogDir} {issue : Issue}
    (h : updateIssue noFault id now title description priority labels log d = (.ok issue, d')) :
    Writes d d' id labels ∧ (row IssueRow.id id d.rows).isSome := by
  cases hrow : row IssueRow.id id d.rows with
  | none =>
    rw [updateIssue_missing hrow] at h
    cases h
  | some r =>
    rw [updateIssue_noFault hrow] at h
    obtain ⟨-, rfl⟩ := Prod.ext_iff.1 h
    refine ⟨⟨written now (edited title description priority labels r.toIssue), fun _ => rfl, ?_, fun r' hr' => ?_⟩, rfl⟩
    · dsimp only
      split
      · rfl
      · cases log <;> rfl
    · cases hrow.symm.trans hr'
      cases labels with
      | none => exact joinLabels_splitLabels r.labels
      | some ls => rfl

theorem rows_of_updateIssue_error {now : Nat} {title description : Option Text} {priority : Option IssuePriority}
    {labels : Option (List Text)} {log : LogDir} {e : IssueError}
    (h : updateIssue noFault id now title description priority labels log d = (.error e, d')) : d'.rows = d.rows := by
  cases hrow : row IssueRow.id id d.rows with
  | none =>
    rw [updateIssue_missing hrow] at h
    cases h
    rfl
  | some r =>
    rw [updateIssue_noFault hrow] at h
    cases h

theorem writes_of_transition {now : Nat} {allowed : IssueStatus → Bool} {after : IssueStatus}
    {resolution : Option Text → Option Text} {workspaceId : Option Uuid} {kind : EventKind} {log : LogDir}
    {r : Except IssueError Issue} (h : transition noFault id now allowed after resolution workspaceId kind log d = (r, d')) :
    Writes d d' id none := by
  cases hrow : row IssueRow.id id d.rows with
  | none =>
    rw [transition_missing hrow] at h
    cases h
    exact writes_of_rows rfl id
  | some r =>
    cases hallowed : allowed r.status with
    | true =>
      rw [transition_noFault hrow hallowed] at h
      cases h
      exact ⟨moved now after resolution, fun _ => rfl, by cases log <;> rfl, fun _ _ => rfl⟩
    | false =>
      rw [transition_refused hrow hallowed] at h
      cases h
      exact writes_of_rows rfl id

/-! ## Runs -/

/-- The column of every issue is what its labels are joined to. -/
structure Labelled.Tells (s : Labelled) : Prop where
  ids : (s.dir.rows.map IssueRow.id).Nodup
  columns : ∀ id, (row IssueRow.id id s.dir.rows).map IssueRow.labels = (s.given.get id).map joinLabels

namespace Labelled

variable {s : Labelled} {labels : List Text}

theorem Tells.inserts (h : s.Tells) (hins : Inserts s.dir d' id labels) : Tells ⟨d', s.given.insert id labels⟩ := by
  obtain ⟨r, rfl, hlabels, hfresh, hrows⟩ := hins
  constructor
  · dsimp only
    rw [hrows, List.map_append, List.nodup_append]
    refine ⟨h.ids, by simp, ?_⟩
    intro a ha b hb
    obtain ⟨r', hr', rfl⟩ := List.mem_map.1 ha
    rw [List.map_singleton, List.mem_singleton] at hb
    rw [hb]
    exact row_eq_none.1 hfresh r' hr'
  · intro j
    have hj := h.columns j
    unfold row at hj hfresh ⊢
    dsimp only
    rw [hrows, List.find?_append, FMap.get_insert]
    by_cases hid : j = r.id
    · subst hid
      rw [hfresh, if_pos rfl]
      simp [hlabels]
    · rw [if_neg hid, ← hj]
      have hnone : [r].find? (fun r' => decide (r'.id = j)) = none := by
        simp [Ne.symm hid]
      rw [hnone, Option.or_none]

theorem Tells.writes (h : s.Tells) (hw : Writes s.dir d' id none) : Tells ⟨d', s.given⟩ := by
  obtain ⟨f, hf, hrows, hlabels⟩ := hw
  constructor
  · dsimp only
    rw [hrows, map_key_update hf]
    exact h.ids
  · intro j
    dsimp only
    rw [hrows, row_update hf, ← h.columns j]
    split
    · rename_i hj
      subst hj
      cases hrow : row IssueRow.id j s.dir.rows with
      | none => rfl
      | some r => exact congrArg some (hlabels r hrow)
    · rfl

theorem Tells.writes_given (h : s.Tells) (hw : Writes s.dir d' id (some labels))
    (hrow : (row IssueRow.id id s.dir.rows).isSome) : Tells ⟨d', s.given.insert id labels⟩ := by
  obtain ⟨f, hf, hrows, hlabels⟩ := hw
  constructor
  · dsimp only
    rw [hrows, map_key_update hf]
    exact h.ids
  · intro j
    dsimp only
    rw [hrows, row_update hf, FMap.get_insert]
    split
    · obtain ⟨r, hr⟩ := Option.isSome_iff_exists.1 hrow
      rw [hr]
      exact congrArg some (hlabels r hr)
    · exact h.columns j

theorem step_of_ok {c : StoreCall} (h : c.perform unicode s.dir = (.ok (), d')) :
    s.step unicode c = ⟨d', c.given.elim s.given fun q => s.given.insert q.1 q.2⟩ := by
  unfold step
  rw [h]
  cases c.given <;> rfl

theorem step_of_error {c : StoreCall} {e : IssueError} (h : c.perform unicode s.dir = (.error e, d')) :
    s.step unicode c = ⟨d', s.given⟩ := by
  unfold step
  rw [h]

theorem error_of_bind_pure {α : Type} {m : Proc IssueDir IssueError α} {e : IssueError}
    (h : (m >>= fun _ => pure ()) d = (.error e, d')) : m d = (.error e, d') := by
  rw [bind_apply] at h
  rcases hm : m d with ⟨e' | a, d₁⟩
  · rw [hm] at h
    cases h
    rfl
  · rw [hm] at h
    cases h

/-- **Every call keeps the columns true.** -/
theorem Tells.step (h : s.Tells) (unicode : Unicode) (c : StoreCall) : (s.step unicode c).Tells := by
  rcases hc : c.perform unicode s.dir with ⟨e | ⟨⟩, d'⟩
  · rw [step_of_error hc]
    cases c with
    | create => exact h.writes (writes_of_rows (rows_of_create_error (error_of_bind_pure hc)) 0)
    | createByAgent => exact h.writes (writes_of_rows (rows_of_createByAgent_error (error_of_bind_pure hc)) 0)
    | updateIssue => exact h.writes (writes_of_rows (rows_of_updateIssue_error (error_of_bind_pure hc)) 0)
    | setInProgress => exact h.writes (writes_of_transition (error_of_bind_pure hc))
    | reopen => exact h.writes (writes_of_transition (error_of_bind_pure hc))
    | resolve => exact h.writes (writes_of_transition (error_of_bind_pure hc))
    | close => exact h.writes (writes_of_transition (error_of_bind_pure hc))
    | setAgentSource => cases hc
    | setAcceptanceCriteria => cases hc
  · rw [step_of_ok hc]
    cases c with
    | create id now title description priority labels creator log =>
      obtain ⟨issue, d₁, hcreate, hpure⟩ := bind_eq_ok.1 hc
      cases hpure
      exact h.inserts (inserts_of_create hcreate)
    | createByAgent id now title description priority labels agentId source maxPerHour log =>
      obtain ⟨r, d₁, hcreate, hpure⟩ := bind_eq_ok.1 hc
      cases hpure
      exact h.inserts (inserts_of_createByAgent hcreate)
    | updateIssue id now title description priority labels log =>
      obtain ⟨issue, d₁, hupdate, hpure⟩ := bind_eq_ok.1 hc
      cases hpure
      obtain ⟨hw, hrow⟩ := writes_of_updateIssue hupdate
      cases labels with
      | none => exact h.writes hw
      | some labels => exact h.writes_given hw hrow
    | setInProgress | reopen | resolve | close =>
      obtain ⟨issue, d₁, htransition, hpure⟩ := bind_eq_ok.1 hc
      cases hpure
      exact h.writes (writes_of_transition htransition)
    | setAgentSource id source =>
      cases hc
      exact h.writes ⟨fun r => { r with agentSource := source }, fun _ => rfl, rfl, fun _ _ => rfl⟩
    | setAcceptanceCriteria id criteria =>
      cases hc
      exact h.writes ⟨fun r => { r with acceptanceCriteria := criteria }, fun _ => rfl, rfl, fun _ _ => rfl⟩

theorem tells_run (unicode : Unicode) (calls : List StoreCall) : (run unicode calls).Tells := by
  unfold run
  induction calls using List.reverseRecOn with
  | nil => exact ⟨List.nodup_nil, fun id => by simp [row, IssueDir.empty]⟩
  | append_singleton calls c ih =>
    rw [List.foldl_append]
    exact ih.step unicode c

/-! ## Reading back, and listing -/

/-- Every issue is read back with the labels that it was last given. -/
def ReadsBack (s : Labelled) : Prop :=
  ∀ id labels, s.given.get id = some labels → ∃ i, (get noFault 0 id s.dir).1 = .ok i ∧ i.labels = labels

/-- Only the label is asked for. -/
def onlyLabel (l : Text) : IssueFilter := ⟨none, none, some l, none, none⟩

/-- The filter lists the issues that were last given the label, each once. -/
def Lists (order : RowOrder Issue) (l : Text) (s : Labelled) : Prop :=
  (∀ id, id ∈ (list order (onlyLabel l) s.dir).map Issue.id ↔ ∃ labels, s.given.get id = some labels ∧ l ∈ labels) ∧
    ((list order (onlyLabel l) s.dir).map Issue.id).Nodup

theorem Tells.row_some (h : s.Tells) (hgiven : s.given.get id = some labels) :
    ∃ r, row IssueRow.id id s.dir.rows = some r ∧ r.labels = joinLabels labels := by
  have hcolumn := h.columns id
  rw [hgiven, Option.map_some, Option.map_eq_some_iff] at hcolumn
  exact hcolumn

theorem Tells.readsBack_iff (h : s.Tells) :
    s.ReadsBack ↔ ∀ id labels, s.given.get id = some labels → KeptLabels labels := by
  refine forall_congr' fun id => forall_congr' fun labels => forall_congr' fun hgiven => ?_
  obtain ⟨r, hrow, hlabels⟩ := h.row_some hgiven
  rw [get_noFault, hrow, ← splitLabels_joinLabels_iff, ← hlabels]
  constructor
  · rintro ⟨i, hi, hlist⟩
    cases hi
    exact hlist
  · exact fun hlist => ⟨r.toIssue, rfl, hlist⟩

theorem mem_list {order : RowOrder Issue} {l : Text} :
    id ∈ (list order (onlyLabel l) d).map Issue.id ↔ ∃ r ∈ d.rows, Sqlite.labelMatches l r.labels = true ∧ r.id = id := by
  have hselects : ∀ r, Sqlite.selects (onlyLabel l) d.dependencies r = Sqlite.labelMatches l r.labels := fun r => by
    simp [Sqlite.selects, onlyLabel]
  unfold list
  rw [((order.perm _ _).map _).mem_iff, List.map_map, List.mem_map]
  simp only [List.mem_filter, hselects, and_assoc]
  exact Iff.rfl

theorem Tells.nodup_list (h : s.Tells) (order : RowOrder Issue) (filter : IssueFilter) :
    ((list order filter s.dir).map Issue.id).Nodup := by
  unfold list
  rw [((order.perm _ _).map _).nodup_iff, List.map_map]
  exact h.ids.sublist (List.filter_sublist.map IssueRow.id)

theorem Tells.lists_iff (h : s.Tells) (order : RowOrder Issue) (l : Text) : s.Lists order l ↔
    ∀ id labels, s.given.get id = some labels → (Sqlite.labelMatches l (joinLabels labels) = true ↔ l ∈ labels) := by
  have hrow : ∀ {r}, r ∈ s.dir.rows → ∃ labels, s.given.get r.id = some labels ∧ r.labels = joinLabels labels := by
    intro r hr
    have hcolumn := h.columns r.id
    rw [row_of_mem h.ids hr, Option.map_some, eq_comm, Option.map_eq_some_iff] at hcolumn
    obtain ⟨labels, hgiven, hlabels⟩ := hcolumn
    exact ⟨labels, hgiven, hlabels.symm⟩
  unfold Lists
  rw [and_iff_left (h.nodup_list order _)]
  simp only [mem_list]
  constructor
  · intro hall id labels hgiven
    obtain ⟨r, hr, hlabels⟩ := h.row_some hgiven
    have hid := key_of_row hr
    rw [← hlabels]
    constructor
    · intro hmatch
      obtain ⟨labels', hgiven', hl⟩ := (hall id).1 ⟨r, mem_of_row hr, hmatch, hid⟩
      rw [hgiven] at hgiven'
      cases hgiven'
      exact hl
    · intro hl
      obtain ⟨r', hr', hmatch, hid'⟩ := (hall id).2 ⟨labels, hgiven, hl⟩
      rwa [← eq_of_key h.ids hr' (mem_of_row hr) (hid'.trans hid.symm)]
  · intro hall id
    constructor
    · rintro ⟨r, hr, hmatch, rfl⟩
      obtain ⟨labels, hgiven, hlabels⟩ := hrow hr
      exact ⟨labels, hgiven, (hall r.id labels hgiven).1 (hlabels ▸ hmatch)⟩
    · rintro ⟨labels, hgiven, hl⟩
      obtain ⟨r, hr, hlabels⟩ := h.row_some hgiven
      exact ⟨r, mem_of_row hr, hlabels ▸ (hall id labels hgiven).2 hl, key_of_row hr⟩

end Labelled
end IssueDir
end Vai
