import Vai.Push
/-!
# PushGuard — what a push deletes

A push without `--force` stops when the manifest has a file that the working tree has not.  The manifest is read once, at
the start; what is deleted is decided when the snapshot is uploaded, and made when the workspace is submitted.

`push_spares_iff` says when a push that returns has removed nothing, whatever the other clients have done in between, and
`guard_suffices` when the guard has made sure of it.
-/
namespace Vai
namespace Remote

open Proc Backend FilePath LocalFs Handlers

variable {env : Env} {codecs : Codecs} {client : ClientEnv} {wire : Wire} {root : List Name} {args : PushArgs}
  {newIds : Uuid × Uuid} {id w : Uuid} {D : List Path} {b b' : Backend}

/-! ## The rows of the others -/

/-- The deletions in the row of a workspace. -/
def RowDeletes (w : Uuid) (D : List Path) (b : Backend) : Prop := ∃ m, b.row w = some m ∧ m.deletedPaths = D

theorem survives_rowDeletes : Survives (RowDeletes w D) where
  store _ _ h := h
  events _ _ h := h
  scopes _ _ h := h
  issues _ _ h := h
  versions _ _ h := h
  head _ _ h := h

theorem rowDeletes_withRow {m : WorkspaceMeta} (h : RowDeletes w D b) (hm : w = id → m.deletedPaths = D) :
    RowDeletes w D (withRow id m b) := by
  obtain ⟨m', hrow, hD⟩ := h
  unfold RowDeletes
  rw [row_withRow]
  by_cases hw : w = id
  · rw [if_pos hw]
    exact ⟨_, rfl, hm hw⟩
  · rw [if_neg hw]
    exact ⟨m', hrow, hD⟩

theorem RowDeletes.of_row {m : WorkspaceMeta} (h : RowDeletes w D b) (hm : b.row w = some m) : m.deletedPaths = D := by
  obtain ⟨m', hrow, hD⟩ := h
  rw [hm] at hrow
  cases hrow
  exact hD

theorem RowDeletes.get {m : WorkspaceMeta} (h : RowDeletes w D b) (hm : b.workspaces.get w = some m) :
    m.deletedPaths = D := by
  refine h.of_row (m := { m with id := w }) ?_
  unfold Backend.row
  rw [hm]
  rfl

theorem RowDeletes.isSome (h : RowDeletes w D b) : (b.workspaces.get w).isSome := by
  obtain ⟨m, hrow, -⟩ := h
  obtain ⟨m', hm', -⟩ := Option.map_eq_some_iff.1 hrow
  rw [hm']
  rfl

theorem rowDeletes_create (newId : Uuid) (intent : Text) :
    Keeps (RowDeletes w D) (createWorkspaceHandler Fails.none newId intent) := by
  refine keeps_create (fun _ _ _ => keeps_record survives_rowDeletes.toRecords _) fun b v hr hb =>
    rowDeletes_withRow hb ?_
  rintro rfl
  have := hb.isSome
  rw [hr] at this
  cases this

theorem rowDeletes_submit (newId : Uuid) : Keeps (RowDeletes w D) (submitWorkspaceHandler env Fails.none newId id) := by
  refine keeps_submit survives_rowDeletes (keeps_discardWorkspace fun b m hm hb => ?_) (fun b i m hm hb => ?_) newId
  · apply rowDeletes_withRow hb
    rintro rfl
    show m.deletedPaths = D
    exact hb.get hm
  · apply rowDeletes_withRow hb
    rintro rfl
    show m.deletedPaths = D
    exact hb.of_row hm

theorem upload_state (allow : Bool) (gz : Bytes) (b : Backend) :
    (upload env Fails.none codecs id (.snapshot allow gz) b).2 =
      (uploadSnapshotHandler env Fails.none codecs id allow gz b).2 := by
  show ((uploadSnapshotHandler env Fails.none codecs id allow gz >>= fun _ => pure PUnit.unit) b).2 = _
  rw [bind_apply]
  rcases uploadSnapshotHandler env Fails.none codecs id allow gz b with ⟨_ | _, _⟩ <;> rfl

theorem rowDeletes_upload (hw : w ≠ id) (allow : Bool) (gz : Bytes) :
    Keeps (RowDeletes w D) (uploadSnapshotHandler env Fails.none codecs id allow gz) := by
  intro b hb
  rw [← upload_state]
  refine keeps_upload (survives_rowDeletes.uploadable id) (fun b m _ hrow _ _ => ?_) _ b hb
  refine keeps_finishUpload fun b₁ m₁ _ _ _ _ _ h => rowDeletes_withRow h fun he => ?_
  rw [row_id hrow] at he
  exact absurd he hw

theorem keeps_manifest (I : Backend → Prop) (fails : Fails) : Keeps I (filesManifestHandler env fails) := by
  refine Keeps.bind (Keeps.mapErr ((keeps_db _).bind fun _ => keeps_read _ _) _) fun head => ?_
  refine Keeps.bind (Keeps.mapErr (keeps_list _ _) _) fun entries => ?_
  refine Keeps.bind (keeps_foldlM (fun files entry => ?_) _ _) fun _ => keeps_pure _ _
  unfold manifestEntry
  cases Text.stripPrefix currentPrefix entry.1.1 with
  | none => exact keeps_pure _ _
  | some rel => exact keeps_ite (keeps_pure _ _) ((Keeps.mapErr (keeps_get _ _) _).bind fun _ => keeps_pure _ _)

theorem keeps_readPlan (I : Backend → Prop) : Keeps (fun s : Backend × Local => I s.1)
    (readPlan env Fails.none client wire root args) :=
  (Keeps.onFst (Keeps.mapErr (keeps_manifest I _) _)).bind fun _ => (keeps_read _ _).bind fun _ => keeps_ofExcept _ _ _

/-- **A round trip leaves the deletions of a workspace as they are**, unless it is its upload. -/
theorem rowDeletes_pushStep {phase : PushPhase} (hw : phase ≠ .uploading w) :
    Keeps (fun s : Backend × Local => RowDeletes w D s.1)
      (pushStep env Fails.none codecs client wire root args newIds phase) := by
  cases phase with
  | reading =>
    refine (keeps_readPlan _).bind fun plan => ?_
    cases plan
    · exact keeps_pure _ _
    · exact keeps_pure _ _
  | opening =>
    refine Keeps.bind (Keeps.bind (Keeps.onFst (Keeps.mapErr (rowDeletes_create _ _) _)) fun _ => keeps_pure _ _)
      fun _ => ?_
    exact keeps_pure _ _
  | uploading ws =>
    have hne : w ≠ ws := fun he => hw (he ▸ rfl)
    refine Keeps.bind ((keeps_read _ _).bind fun _ => keeps_ofExcept_bind fun gz _ => ?_) fun _ => keeps_pure _ _
    exact Keeps.onFst (Keeps.mapErr (rowDeletes_upload hne _ _) _)
  | submitting ws stats =>
    refine Keeps.bind (Keeps.bind (Keeps.onFst (Keeps.mapErr (rowDeletes_submit _) _)) fun _ => ?_) fun _ =>
      keeps_pure _ _
    exact (keeps_onSnd _ _).bind fun _ => keeps_pure _ _
  | returned outcome => exact keeps_pure _ _

/-! ## One round trip -/

/-- The workspace that a push works on. -/
def PushPhase.workspace : PushPhase → Option Uuid
  | .uploading ws => some ws
  | .submitting ws _ => some ws
  | _ => none

theorem openWorkspace_ends (newId : Uuid) (s : Backend × Local) : Ends (openWorkspace Fails.none wire args newId) s
    (fun ws s' => s.1.workspaces.get ws = none ∧ RowDeletes ws [] s'.1) (fun _ _ => True) := by
  refine (openWorkspace_opened args newId s).mono ?_ fun _ _ h => h
  rintro ws _ ⟨rfl, hnone, rfl⟩
  exact ⟨hnone, opened ws args.message s.1, row_opened ws args.message s.1 _, rfl⟩

theorem sendSnapshot_ends (hwire : wire.ReadsBack codecs) {ws : Uuid} {s : Backend × Local}
    (hrow : RowDeletes ws [] s.1) : Ends (sendSnapshot env Fails.none codecs wire root ws) s
      (fun _ s' => ∃ D, RowDeletes ws D s'.1 ∧ ∀ p, p ∈ D ↔ deletes codecs wire root s.2.tree s.1 p = true)
      (fun _ _ => True) := by
  obtain ⟨m, hm, hD⟩ := hrow
  refine (sendSnapshot_taken hwire hm).mono ?_ fun _ _ h => h
  rintro _ s' ⟨snapshot, -, htaken, hdel⟩
  obtain ⟨status, D, hrow', hmem⟩ := htaken.row
  rw [row_id hm] at hrow'
  refine ⟨D, ⟨_, hrow', rfl⟩, fun p => ?_⟩
  rw [hmem, hD, hdel]
  simp

/-- **What a round trip leaves in the row of its push.** -/
theorem pushStep_ends (hwire : wire.ReadsBack codecs) {phase : PushPhase} {s : Backend × Local}
    (hup : ∀ ws, phase = .uploading ws → RowDeletes ws [] s.1) :
    Ends (pushStep env Fails.none codecs client wire root args newIds phase) s (fun phase' s' =>
      match phase' with
      | .uploading ws => s.1.workspaces.get ws = none ∧ RowDeletes ws [] s'.1
      | .submitting ws _ => phase = .uploading ws ∧
          ∃ D, RowDeletes ws D s'.1 ∧ ∀ p, p ∈ D ↔ deletes codecs wire root s.2.tree s.1 p = true
      | _ => True) (fun _ _ => True) := by
  cases phase with
  | reading =>
    refine (ends_somehow _ _).bind (fun _ _ h => h) fun plan _ _ => ?_
    cases plan
    · exact ends_pure trivial
    · exact ends_pure trivial
  | opening => exact (openWorkspace_ends newIds.1 s).bind (fun _ _ h => h) fun _ _ h => ends_pure h
  | uploading ws => exact (sendSnapshot_ends hwire (hup ws rfl)).bind (fun _ _ h => h) fun _ _ h => ends_pure ⟨rfl, h⟩
  | submitting ws stats => exact (ends_somehow _ _).bind (fun _ _ h => h) fun _ _ _ => ends_pure trivial
  | returned outcome => exact ends_pure trivial

/-! ## Every run -/

/-- The workspace of the push that a clone has under way. -/
def Site.workspace (site : Site) (i : Nat) : Option Uuid :=
  match (site.clones i).push with
  | some (_, .ok phase) => phase.workspace
  | _ => none

/-- The clone uploads its working tree to the workspace. -/
def Turn.Uploads (u : Turn) (i : Nat) (args : PushArgs) (ws : Uuid) : Prop :=
  (∃ newIds, u.move = .proceeds i newIds) ∧ (u.before.clones i).push = some (args, .ok (.uploading ws))

/-- The upload of the clone's working tree, as it is then, deletes the path. -/
def Turn.deletes (codecs : Codecs) (wire : Wire) (u : Turn) (i : Nat) (p : Path) : Bool :=
  Remote.deletes codecs wire (u.before.clones i).root (u.before.clones i).files.tree u.before.server p

/-- Every push under way has a workspace of its own, whose row has the deletions of its upload and no others. -/
structure Tracked (codecs : Codecs) (wire : Wire) (l : List Turn) (site : Site) : Prop where
  opened : ∀ i args ws, (site.clones i).push = some (args, .ok (.uploading ws)) → RowDeletes ws [] site.server
  uploaded : ∀ i args ws stats, (site.clones i).push = some (args, .ok (.submitting ws stats)) →
    ∃ u ∈ l, u.Uploads i args ws ∧ ∃ D, RowDeletes ws D site.server ∧ ∀ p, p ∈ D ↔ u.deletes codecs wire i p = true
  apart : ∀ i j ws, site.workspace i = some ws → site.workspace j = some ws → i = j

theorem Site.setClone_self (site : Site) (i : Nat) (clone : Clone) : (site.setClone i clone).clones i = clone :=
  if_pos rfl

theorem Site.setClone_other (site : Site) {i j : Nat} (h : j ≠ i) (clone : Clone) :
    (site.setClone i clone).clones j = site.clones j := if_neg h

theorem Site.workspace_congr {site site' : Site} {i : Nat} (h : (site'.clones i).push = (site.clones i).push) :
    site'.workspace i = site.workspace i := by
  unfold Site.workspace
  rw [h]

theorem Site.workspace_of_push {site : Site} {i : Nat} {phase : PushPhase}
    (h : (site.clones i).push = some (args, .ok phase)) : site.workspace i = phase.workspace := by
  unfold Site.workspace
  rw [h]

/-- A push under way has its row. -/
theorem Tracked.row {l : List Turn} {site : Site} (h : Tracked codecs wire l site) {i : Nat} {ws : Uuid}
    (hi : site.workspace i = some ws) : ∃ D, RowDeletes ws D site.server := by
  unfold Site.workspace at hi
  split at hi
  · rename_i args phase hpush
    cases phase with
    | uploading ws' =>
      cases hi
      exact ⟨[], h.opened i args ws hpush⟩
    | submitting ws' stats =>
      cases hi
      obtain ⟨-, -, -, D, hD, -⟩ := h.uploaded i args ws stats hpush
      exact ⟨D, hD⟩
    | _ => cases hi
  · cases hi

/-- A move of one clone: the others keep their rows, and its own push has what it needs. -/
theorem Tracked.move {l l' : List Turn} {site site' : Site} (h : Tracked codecs wire l site) (hl : ∀ u ∈ l, u ∈ l')
    (i : Nat) (hpush : ∀ j, j ≠ i → (site'.clones j).push = (site.clones j).push)
    (hrows : ∀ j, j ≠ i → ∀ ws D, site.workspace j = some ws → RowDeletes ws D site.server → RowDeletes ws D site'.server)
    (hopened : ∀ args ws, (site'.clones i).push = some (args, .ok (.uploading ws)) → RowDeletes ws [] site'.server)
    (huploaded : ∀ args ws stats, (site'.clones i).push = some (args, .ok (.submitting ws stats)) →
      ∃ u ∈ l', u.Uploads i args ws ∧ ∃ D, RowDeletes ws D site'.server ∧ ∀ p, p ∈ D ↔ u.deletes codecs wire i p = true)
    (hapart : ∀ j, j ≠ i → ∀ ws, site'.workspace i = some ws → site.workspace j ≠ some ws) :
    Tracked codecs wire l' site' where
  opened j args ws hj := by
    by_cases hji : j = i
    · subst hji
      exact hopened args ws hj
    · rw [hpush j hji] at hj
      exact hrows j hji ws [] (Site.workspace_of_push hj) (h.opened j args ws hj)
  uploaded j args ws stats hj := by
    by_cases hji : j = i
    · subst hji
      exact huploaded args ws stats hj
    · rw [hpush j hji] at hj
      obtain ⟨u, hu, hup, D, hD, hmem⟩ := h.uploaded j args ws stats hj
      exact ⟨u, hl u hu, hup, D, hrows j hji ws D (Site.workspace_of_push hj) hD, hmem⟩
  apart j k ws hj hk := by
    by_cases hji : j = i
    · subst hji
      by_contra hne
      rw [Site.workspace_congr (hpush k (Ne.symm hne))] at hk
      exact hapart k (Ne.symm hne) ws hj hk
    · by_cases hki : k = i
      · subst hki
        rw [Site.workspace_congr (hpush j hji)] at hj
        exact absurd hj (hapart j hji ws hk)
      · rw [Site.workspace_congr (hpush j hji)] at hj
        rw [Site.workspace_congr (hpush k hki)] at hk
        exact h.apart j k ws hj hk

/-- A move that leaves the server alone, and the push of the clone at most begun. -/
theorem Tracked.aside {l : List Turn} {site site' : Site} (h : Tracked codecs wire l site) (t : Turn) (i : Nat)
    (hserver : site'.server = site.server) (hpush : ∀ j, j ≠ i → (site'.clones j).push = (site.clones j).push)
    (hi : (site'.clones i).push = (site.clones i).push ∨ ∃ args, (site'.clones i).push = some (args, .ok .reading)) :
    Tracked codecs wire (l ++ [t]) site' := by
  refine h.move (fun u hu => List.mem_append_left _ hu) i hpush ?_ ?_ ?_ ?_
  · intro j _ ws D _ hD
    rw [hserver]
    exact hD
  · intro args ws hup
    rcases hi with hi | ⟨args', hi⟩
    · rw [hi] at hup
      rw [hserver]
      exact h.opened i args ws hup
    · rw [hi] at hup
      cases hup
  · intro args ws stats hsub
    rcases hi with hi | ⟨args', hi⟩
    · rw [hi] at hsub
      obtain ⟨u, hu, hrest⟩ := h.uploaded i args ws stats hsub
      rw [hserver]
      exact ⟨u, List.mem_append_left _ hu, hrest⟩
    · rw [hi] at hsub
      cases hsub
  · intro j hj ws hws hother
    rcases hi with hi | ⟨args', hi⟩
    · rw [Site.workspace_congr hi] at hws
      exact hj (h.apart j i ws hother hws)
    · rw [Site.workspace_of_push hi] at hws
      cases hws

theorem play_proceeds {site : Site} {i : Nat} {phase : PushPhase} (hpush : (site.clones i).push = some (args, .ok phase))
    {out : Except RemoteError PushPhase} {s' : Backend × Local} (hout : pushStep env Fails.none codecs client wire
      (site.clones i).root args newIds phase (site.server, (site.clones i).files) = (out, s')) :
    play env Fails.none codecs client wire (.proceeds i newIds) site = { site with server := s'.1 }.setClone i
      { site.clones i with files := s'.2, push := some (args, out) } := by
  simp only [play, hpush, hout]

theorem Tracked.proceeds (hwire : wire.ReadsBack codecs) {l : List Turn} {site : Site} (h : Tracked codecs wire l site)
    {i : Nat} {phase : PushPhase} (hpush : (site.clones i).push = some (args, .ok phase))
    {out : Except RemoteError PushPhase} {s' : Backend × Local}
    (hout : pushStep env Fails.none codecs client wire (site.clones i).root args newIds phase
      (site.server, (site.clones i).files) = (out, s')) :
    Tracked codecs wire (l ++ [⟨.proceeds i newIds, site⟩]) ({ site with server := s'.1 }.setClone i
      { site.clones i with files := s'.2, push := some (args, out) }) := by
  have hends := @pushStep_ends env codecs client wire (site.clones i).root args newIds hwire phase
    (site.server, (site.clones i).files) fun ws he => h.opened i args ws (he ▸ hpush)
  have hself := Site.setClone_self { site with server := s'.1 } i
    { site.clones i with files := s'.2, push := some (args, out) }
  -- the other workspaces are not the one that is uploaded to
  have hkept : ∀ j, j ≠ i → ∀ ws D, site.workspace j = some ws → RowDeletes ws D site.server → RowDeletes ws D s'.1 := by
    intro j hj ws D hws hD
    have hne : phase ≠ .uploading ws := fun he => hj (h.apart j i ws hws (by rw [Site.workspace_of_push hpush, he]; rfl))
    have := @rowDeletes_pushStep env codecs client wire (site.clones i).root args newIds ws D phase hne
      (site.server, (site.clones i).files) hD
    rw [hout] at this
    exact this
  refine h.move (fun u hu => List.mem_append_left _ hu) i
    (fun j hj => congrArg Clone.push (Site.setClone_other _ hj _)) hkept ?_ ?_ ?_
  · intro args' ws hup
    rw [hself] at hup
    cases hup
    exact (hends.ok hout).2
  · intro args' ws stats hsub
    rw [hself] at hsub
    cases hsub
    obtain ⟨rfl, D, hD, hmem⟩ := hends.ok hout
    exact ⟨_, List.mem_append_right _ (List.mem_singleton.2 rfl), ⟨⟨newIds, rfl⟩, hpush⟩, D, hD, hmem⟩
  · intro j hj ws hws hother
    obtain ⟨D, hD⟩ := h.row hother
    unfold Site.workspace at hws
    rw [hself] at hws
    rcases out with e | phase'
    · cases hws
    cases phase' with
    | uploading ws' =>
      cases hws
      have hsome := hD.isSome
      rw [(hends.ok hout).1] at hsome
      cases hsome
    | submitting ws' stats =>
      cases hws
      obtain ⟨rfl, -⟩ := hends.ok hout
      exact hj (h.apart j i ws hother (Site.workspace_of_push hpush))
    | _ => cases hws

/-- **Every move keeps the workspaces apart and their rows true.** -/
theorem tracked_play (hwire : wire.ReadsBack codecs) {l : List Turn} {site : Site} (h : Tracked codecs wire l site)
    (m : Move) : Tracked codecs wire (l ++ [⟨m, site⟩]) (play env Fails.none codecs client wire m site) := by
  cases m with
  | begins i args =>
    refine h.aside _ i rfl (fun j hj => congrArg Clone.push (Site.setClone_other _ hj _)) (.inr ⟨args, ?_⟩)
    exact congrArg Clone.push (Site.setClone_self site i _)
  | works i files =>
    refine h.aside _ i rfl (fun j hj => congrArg Clone.push (Site.setClone_other _ hj _)) (.inl ?_)
    exact (congrArg Clone.push (Site.setClone_self site i _)).trans rfl
  | proceeds i newIds =>
    rcases hpush : (site.clones i).push with _ | ⟨args, e | phase⟩
    · rw [show play env Fails.none codecs client wire (.proceeds i newIds) site = site by simp only [play, hpush]]
      exact h.aside _ i rfl (fun _ _ => rfl) (.inl rfl)
    · rw [show play env Fails.none codecs client wire (.proceeds i newIds) site = site by simp only [play, hpush]]
      exact h.aside _ i rfl (fun _ _ => rfl) (.inl rfl)
    · rcases hout : pushStep env Fails.none codecs client wire (site.clones i).root args newIds phase
        (site.server, (site.clones i).files) with ⟨out, s'⟩
      rw [play_proceeds hpush hout]
      exact h.proceeds hwire hpush hout

theorem tracked_of_played (hwire : wire.ReadsBack codecs) {site₀ site : Site} {l : List Turn}
    (h₀ : ∀ i, (site₀.clones i).push = none) (h : Played env Fails.none codecs client wire site₀ l site) :
    Tracked codecs wire l site := by
  induction h with
  | start =>
    have hnone : ∀ i, site₀.workspace i = none := fun i => by unfold Site.workspace; rw [h₀ i]
    refine ⟨fun i args ws hi => ?_, fun i args ws stats hi => ?_, fun i j ws hi _ => ?_⟩
    · rw [h₀ i] at hi
      cases hi
    · rw [h₀ i] at hi
      cases hi
    · rw [hnone i] at hi
      cases hi
  | move _ m ih => exact tracked_play hwire ih m

/-! ## The main result -/

/-- Every path that was there still is. -/
def Spares (b b' : Backend) : Prop := ∀ p, (b.current p).isSome → (b'.current p).isSome

/-- **A push without `--force` spares what the server has, in every run, exactly when its upload did**: whatever has been
pushed, pulled and edited in between, a submit that returns removes no path of `current/` if and only if none of them was,
at the time of the upload, a file of `current/` that the working tree had not (or one that its `.vai-delta.json` lists). -/
theorem push_spares_iff (hwire : wire.ReadsBack codecs) {site₀ site : Site} {l : List Turn}
    (h₀ : ∀ i, (site₀.clones i).push = none) (h : Played env Fails.none codecs client wire site₀ l site) {i : Nat}
    {message : Text} {ws : Uuid} {stats : UploadSnapshotResponse} {outcome : PushOutcome}
    (hpush : (site.clones i).push = some (⟨message, false, false⟩, .ok (.submitting ws stats)))
    (hok : ((play env Fails.none codecs client wire (.proceeds i newIds) site).clones i).push =
      some (⟨message, false, false⟩, .ok (.returned outcome))) :
    ∃ u ∈ l, u.Uploads i ⟨message, false, false⟩ ws ∧
      (Spares site.server (play env Fails.none codecs client wire (.proceeds i newIds) site).server ↔
        ∀ p, (site.server.current p).isSome → u.deletes codecs wire i p = false) := by
  obtain ⟨u, hu, hup, D, hD, hmem⟩ := (tracked_of_played hwire h₀ h).uploaded i _ ws stats hpush
  refine ⟨u, hu, hup, ?_⟩
  rcases hout : pushStep env Fails.none codecs client wire (site.clones i).root ⟨message, false, false⟩ newIds
    (.submitting ws stats) (site.server, (site.clones i).files) with ⟨out, s'⟩
  rw [play_proceeds hpush hout] at hok ⊢
  rw [Site.setClone_self] at hok
  cases hok
  obtain ⟨outcome', s₁, hrun, hpure⟩ := bind_eq_ok.1 hout
  cases hpure
  obtain ⟨r, hsubmitted⟩ := (sendSubmit_submitted _ _ _ (site.server, (site.clones i).files)).ok hrun
  obtain ⟨m, hm, hcur⟩ := current_of_submitted hsubmitted
  rw [← hD.of_row hm] at hmem
  refine forall_congr' fun p => forall_congr' fun hp => ?_
  rw [← Bool.not_eq_true, ← hmem, ← hcur p hp, Option.isSome_iff_ne_none]
  rfl

/-! ## The guard -/

theorem manifestEntry_ends {entries : List ManifestEntry} {p : Path} {c : Bytes} {i : Nat} (hp : b.current p = some c) :
    Ends (manifestEntry env Fails.none entries ((currentKey p, c), i)) b
      (fun entries' b' => b' = b ∧ ∀ e, e ∈ entries' ↔ e ∈ entries ∨ p ≠ [] ∧ e = ⟨p, env.sha256Hex c⟩)
      (fun _ _ => False) := by
  unfold manifestEntry
  dsimp only
  rw [show Text.stripPrefix currentPrefix (currentKey p) = some p from Text.stripPrefix_append _ _]
  dsimp only
  split
  · rename_i hnil
    exact ends_pure ⟨rfl, fun e => (or_iff_left fun h => h.1 hnil).symm⟩
  · rename_i hne
    refine ends_bind (ends_mapErr ((get_ends i (currentKey p) b).mono ?_ ?_))
    · rintro content _ ⟨rfl, hget, -⟩
      obtain rfl : c = content := Option.some.inj (hp.symm.trans hget)
      refine ends_pure ⟨rfl, fun e => ?_⟩
      rw [List.mem_append, List.mem_singleton]
      exact or_congr_right ⟨fun h => ⟨hne, h⟩, fun h => h.2⟩
    · rintro _ _ ⟨rfl, hget | hfail⟩
      · exact absurd (hp.symm.trans hget) (by simp)
      · cases hfail

/-- The manifest has the paths of `current/` with their hashes. -/
theorem filesManifestHandler_ends (b : Backend) : Ends (filesManifestHandler env Fails.none) b
    (fun manifest b' => b' = b ∧ ∀ p hash, ⟨p, hash⟩ ∈ manifest.files ↔
      p ≠ [] ∧ (b.current p).map env.sha256Hex = some hash) (fun _ _ => False) := by
  have hhead : mapErr (fun _ => ApiError.internal) (readHead Fails.none) b = (.ok b.head, b) := rfl
  have hlist : mapErr (fun _ => ApiError.internal) (Backend.list Fails.none 0 currentPrefix) b =
    (.ok (listing b), b) := rfl
  refine ends_bind_of_ok hhead (ends_bind_of_ok hlist ?_)
  have hloop := ends_foldlM (f := manifestEntry env Fails.none) (E := fun _ _ => False)
    (fun pre entries b' => b' = b ∧ ∀ p hash, ⟨p, hash⟩ ∈ entries ↔
      p ≠ [] ∧ ∃ c i, ((currentKey p, c), i) ∈ pre ∧ hash = env.sha256Hex c) (listing b).zipIdx [] [] b ⟨rfl, by simp⟩ ?_
  · refine hloop.bind (fun _ _ h => h.elim) fun entries b' h => ends_pure ⟨h.1, fun p hash => ?_⟩
    rw [(List.perm_insertionSort _ _).mem_iff, h.2]
    refine and_congr_right fun _ => ?_
    rw [List.nil_append, Option.map_eq_some_iff]
    constructor
    · rintro ⟨c, i, hmem, rfl⟩
      obtain ⟨q, hq, hc⟩ := mem_listing.1 (List.fst_mem_of_mem_zipIdx hmem)
      rw [currentKey_injective hq]
      exact ⟨c, hc, rfl⟩
    · rintro ⟨c, hc, rfl⟩
      obtain ⟨i, hi⟩ := List.mem_iff_getElem?.1 (mem_listing.2 ⟨p, rfl, hc⟩)
      exact ⟨c, i, List.mk_mem_zipIdx_iff_getElem?.2 hi, rfl⟩
  · rintro pre ⟨⟨key, c⟩, i⟩ post entries _ hsplit ⟨rfl, hmem⟩
    obtain ⟨p, rfl, hp⟩ := mem_listing.1 (List.fst_mem_of_mem_zipIdx (x := ((key, c), i)) (mem_of_split hsplit))
    refine (manifestEntry_ends hp).mono (fun entries' _ h => ⟨h.1, fun q hash => ?_⟩) fun _ _ h => h
    rw [h.2, hmem]
    constructor
    · rintro (⟨hne, c', j, hj, rfl⟩ | ⟨hne, he⟩)
      · exact ⟨hne, c', j, List.mem_append_left _ hj, rfl⟩
      · cases he
        exact ⟨hne, c, i, List.mem_append_right _ (List.mem_singleton.2 rfl), rfl⟩
    · rintro ⟨hne, c', j, hj, rfl⟩
      rcases List.mem_append.1 hj with hj | hj
      · exact .inl ⟨hne, c', j, hj, rfl⟩
      · have hkey := congrArg (fun q => q.1.1) (List.mem_singleton.1 hj)
        have hcontent : c' = c := congrArg (fun q => q.1.2) (List.mem_singleton.1 hj)
        rw [currentKey_injective hkey] at hne ⊢
        exact .inr ⟨hne, by rw [hcontent]⟩

theorem get_serverMap {manifest : ManifestResult} (h : ∀ p hash, ⟨p, hash⟩ ∈ manifest.files ↔
    p ≠ [] ∧ (b.current p).map env.sha256Hex = some hash) (p : Path) :
    (serverMap manifest).get p = (currentHashes env b).get p := by
  refine FMap.get_ofList_of_mem_iff (f := (currentHashes env b).get) (fun p hash => ?_) p
  rw [get_currentHashes, List.mem_map]
  constructor
  · rintro ⟨e, he, heq⟩
    cases heq
    obtain ⟨hne, hcur⟩ := (h e.path e.sha256).1 he
    rw [if_neg hne, hcur]
  · intro hget
    split at hget
    · cases hget
    · rename_i hne
      exact ⟨⟨p, hash⟩, (h p hash).2 ⟨hne, hget⟩, rfl⟩

/-- A push without `--force` that goes on has every path of the manifest. -/
theorem planPush_guards {message : Text} {manifest : ManifestResult} {localMap : FMap Text Text}
    (h : planPush ⟨message, false, false⟩ manifest localMap = .ok none) {p : Path}
    (hp : ((serverMap manifest).get p).isSome) : (localMap.get p).isSome := by
  unfold planPush at h
  dsimp only at h
  split at h
  · cases h
  · split at h
    · cases h
    · rename_i hguard
      have hnil : deletedPaths (serverMap manifest) localMap = [] := by simpa using hguard
      by_contra hnone
      have hmem : p ∈ deletedPaths (serverMap manifest) localMap := by
        unfold deletedPaths
        rw [List.mem_insertionSort, List.mem_filter]
        exact ⟨FMap.mem_keys.2 hp, by simpa using hnone⟩
      rw [hnil] at hmem
      cases hmem

/-- **When the guard is enough**: no path has come to `current/` since the manifest was read, every file that was seen
then is in the snapshot, and there is no `.vai-delta.json`. -/
theorem guard_suffices {message : Text} {s s₁ : Backend × Local} {t : Tree}
    (hplan : readPlan env Fails.none client wire root ⟨message, false, false⟩ s = (.ok none, s₁))
    (hadded : ∀ p, (b.current p).isSome → (s.1.current p).isSome)
    (hsent : ∀ p, ((collectLocalHashes client root s.2.tree).get p).isSome → ((snapshotFiles wire root t).get p).isSome)
    (hfull : (archive wire root t).get manifestPath = none) (p : Path) : deletes codecs wire root t b p = false := by
  have hends : Ends (readPlan env Fails.none client wire root ⟨message, false, false⟩) s
      (fun plan _ => plan = none → ∀ p, p ≠ [] → (s.1.current p).isSome →
        ((collectLocalHashes client root s.2.tree).get p).isSome) (fun _ _ => True) := by
    refine ends_bind (ends_onFst (ends_mapErr (((filesManifestHandler_ends s.1)).mono (fun manifest b' hman => ?_)
      fun _ _ _ => trivial)))
    refine ends_bind (ends_read (ends_ofExcept (fun plan hok hnone q hne hq => ?_) fun _ _ => trivial))
    subst hnone
    refine planPush_guards hok ?_
    rw [get_serverMap hman.2, get_currentHashes, if_neg hne, Option.isSome_map]
    exact hq
  unfold deletes
  rw [hfull]
  by_cases hne : p = []
  · simp [hne]
  · by_cases hp : (b.current p).isSome
    · have := hsent p (hends.ok hplan rfl p hne (hadded p hp))
      simp [this]
    · simp [hp]

/-! ## Two clones -/

/-- The turns of a list of moves, after the turns `l` that led to `site`. -/
def playAll (env : Env) (codecs : Codecs) (client : ClientEnv) (wire : Wire) : List Move → List Turn → Site →
    List Turn × Site
  | [], l, site => (l, site)
  | m :: ms, l, site => playAll env codecs client wire ms (l ++ [⟨m, site⟩])
    (play env Fails.none codecs client wire m site)

theorem played_playAll {site₀ : Site} : ∀ (ms : List Move) {l : List Turn} {site : Site},
    Played env Fails.none codecs client wire site₀ l site →
      Played env Fails.none codecs client wire site₀ (playAll env codecs client wire ms l site).1
        (playAll env codecs client wire ms l site).2
  | [], _, _, h => h
  | m :: ms, _, _, h => played_playAll ms (h.move m)

/-- An archiver that knows some lists of files. -/
def wireOf (known : List (List (Text × Bytes))) : Wire where
  tarGz files := if files ∈ known then .ok (List.replicate (known.idxOf files) 0) else .error .invalidInput
  entryPath path := path
  statusLine n := Text.ofNat n
  bodyText e := e.message

def codecsOf (known : List (List (Text × Bytes))) : Codecs :=
  { oneLetter with
    untar := fun gz =>
      match known[gz.length]? with
      | some files => .ok (files.map (fun f => .ok ⟨.file, .ok f.1, .ok f.2⟩))
      | none => .error "invalid gzip header".toList }

theorem wireOf_readsBack (known : List (List (Text × Bytes))) : (wireOf known).ReadsBack (codecsOf known) := by
  intro files gz h
  unfold wireOf at h
  dsimp only at h
  split at h
  · rename_i hmem
    cases h
    unfold codecsOf
    dsimp only
    rw [List.length_replicate, List.getElem?_idxOf hmem]
    rfl
  · cases h

def pushClient : ClientEnv := { sampleClient with sha256Hex := hashed.sha256Hex }

/-- A working tree in the directory `/repo`. -/
def workTree (files : List (Text × Bytes)) : Tree := planted (files.map (fun f => ("/repo/".toList ++ f.1, f.2)))

/-- HEAD has the file `a`.  One clone has it and a new file `x`, the other ones have `files`. -/
def twoClones (files : List (Text × Bytes)) : Site where
  server := { fresh with store := FMap.ofList [(currentKey "a".toList, [1])] }
  clones i := ⟨["repo".toList], ⟨workTree (if i = 0 then [("a".toList, [1]), ("x".toList, [2])] else files), []⟩, none⟩

/-- What the clones send. -/
def sentFiles (files : List (Text × Bytes)) : List (List (Text × Bytes)) :=
  [[("a".toList, [1]), ("x".toList, [2])], files].map (fun files => fullFiles ["repo".toList] (workTree files))

def careful : PushArgs := ⟨"change".toList, false, false⟩

/-- One clone reads the manifest and another one pushes, before the first one goes on as far as its submit. -/
def movesBetween : List Move :=
  [.begins 0 careful, .proceeds 0 (1, 9), .begins 1 careful, .proceeds 1 (2, 9), .proceeds 1 (2, 9), .proceeds 1 (2, 9),
    .proceeds 1 (2, 9), .proceeds 0 (1, 9), .proceeds 0 (1, 9)]

def sharedRun (files : List (Text × Bytes)) : List Turn × Site :=
  playAll hashed (codecsOf (sentFiles files)) pushClient (wireOf (sentFiles files)) movesBetween [] (twoClones files)

/-- The submit of the first clone. -/
def afterSubmit (files : List (Text × Bytes)) : Site :=
  play hashed Fails.none (codecsOf (sentFiles files)) pushClient (wireOf (sentFiles files)) (.proceeds 0 (1, 9))
    (sharedRun files).2

theorem played_sharedRun (files : List (Text × Bytes)) : Played hashed Fails.none (codecsOf (sentFiles files)) pushClient
    (wireOf (sentFiles files)) (twoClones files) (sharedRun files).1 (sharedRun files).2 :=
      played_playAll movesBetween .start

attribute [local irreducible] play playAll

def changedA : List (Text × Bytes) := [("a".toList, [3])]

theorem push_spares_iff_changed : Spares (sharedRun changedA).2.server (afterSubmit changedA).server := by
  have hpush : ((sharedRun changedA).2.clones 0).push = some (careful, .ok (.submitting 1 ⟨1, 1, 0, 0, false⟩)) := by
    decide +kernel
  have hok : ((afterSubmit changedA).clones 0).push =
      some (careful, .ok (.returned ⟨"v3".toList, 1, 1, 0, [], 2, false⟩)) := by decide +kernel
  have hcovered : ∀ u ∈ (sharedRun changedA).1, (u.before.clones 0).push = some (careful, .ok (.uploading 1)) →
      ∀ p ∈ currentPaths (sharedRun changedA).2.server,
        u.deletes (codecsOf (sentFiles changedA)) (wireOf (sentFiles changedA)) 0 p = false := by decide +kernel
  obtain ⟨u, hu, hup, hiff⟩ := push_spares_iff (wireOf_readsBack (sentFiles changedA)) (fun _ => rfl)
    (played_sharedRun changedA) hpush hok
  refine hiff.2 fun p hp => ?_
  by_cases hne : p = []
  · subst hne
    rfl
  · exact hcovered u hu hup.2 p (mem_currentPaths.2 ⟨hne, hp⟩)

def newY : List (Text × Bytes) := [("a".toList, [1]), ("y".toList, [3])]

/-- **The guard is not enough**: a file that was pushed after the manifest was read is deleted. -/
theorem push_deletes_new_file : ¬ ∀ (env : Env) (codecs : Codecs) (client : ClientEnv) (wire : Wire) (site₀ site : Site)
    (l : List Turn) (i : Nat) (message : Text) (ws : Uuid) (stats : UploadSnapshotResponse) (outcome : PushOutcome)
    (newIds : Uuid × Uuid), wire.ReadsBack codecs → (∀ i, (site₀.clones i).push = none) →
    Played env Fails.none codecs client wire site₀ l site →
    (site.clones i).push = some (⟨message, false, false⟩, .ok (.submitting ws stats)) →
    ((play env Fails.none codecs client wire (.proceeds i newIds) site).clones i).push =
      some (⟨message, false, false⟩, .ok (.returned outcome)) →
    Spares site.server (play env Fails.none codecs client wire (.proceeds i newIds) site).server := by
  intro h
  have hpush : ((sharedRun newY).2.clones 0).push = some (careful, .ok (.submitting 1 ⟨1, 0, 1, 1, false⟩)) := by
    decide +kernel
  have hok : ((afterSubmit newY).clones 0).push =
      some (careful, .ok (.returned ⟨"v3".toList, 1, 0, 1, [], 1, false⟩)) := by decide +kernel
  have hspares : Spares (sharedRun newY).2.server (afterSubmit newY).server :=
    h hashed _ pushClient _ _ _ _ 0 "change".toList 1 _ _ (1, 9) (wireOf_readsBack (sentFiles newY)) (fun _ => rfl)
      (played_sharedRun newY) hpush hok
  have hkept := hspares "y".toList (by decide +kernel)
  have hgone : (afterSubmit newY).server.current "y".toList = none := by decide +kernel
  rw [hgone] at hkept
  cases hkept

end Remote
end Vai
