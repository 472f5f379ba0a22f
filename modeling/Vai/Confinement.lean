import Vai.Escalation
import Vai.Orgs
import Vai.Steps
/-!
# Confinement — who can change the roles on a repository

The requests of a group of users, in any order and with any faults, leave every role on a repository where none of them
may write (`roles_kept_without_writer`).  A single writer among them is enough to make any other of them an owner
(`owner_reached_iff`): inviting needs `Write` and gives whatever role is asked for.

The personal organisation of a user is the one exception: whoever owns it by its slug is made its owner again by the next
exchange of a session, so the repository is not to be in one that a user of the group is not a member of.
-/
namespace Vai
namespace Orgs

open Auth Proc

/-! ## The rows of one repository -/

def rowsOf (of : Uuid) (rows : List Member) : List Member := rows.filter fun m => m.of = of

theorem memberRole_rowsOf (of user : Uuid) (rows : List Member) : memberRole (rowsOf of rows) of user = memberRole rows of user := by
  unfold memberRole rowsOf
  rw [List.find?_filter]
  congr 2
  funext m
  by_cases hm : m.of = of <;> by_cases hu : m.user = user <;> simp [hm, hu]

theorem memberRole_congr {of : Uuid} {rows rows' : List Member} (h : rowsOf of rows = rowsOf of rows') (user : Uuid) :
    memberRole rows of user = memberRole rows' of user := by
  rw [← memberRole_rowsOf of user rows, h, memberRole_rowsOf]

theorem rowsOf_append {of : Uuid} {m : Member} (h : m.of ≠ of) (rows : List Member) : rowsOf of (rows ++ [m]) = rowsOf of rows := by
  simp [rowsOf, h]

variable {of : Uuid} {e : StorageError} {m : Member} {rows : List Member}

theorem rowsOf_insertMember (known : Bool) (h : m.of ≠ of) : rowsOf of (insertMember known e m rows).2 = rowsOf of rows := by
  unfold insertMember
  split
  · rfl
  · exact rowsOf_append h rows

theorem rowsOf_updateMember (h : m.of ≠ of) : rowsOf of (updateMember e m rows).2 = rowsOf of rows := by
  unfold updateMember
  split
  · apply Rows.filter_updateWhere
    intro r hr
    have hof : r.of = m.of := by simp at hr; exact hr.1
    simp [hof, h]
  · rfl

theorem rowsOf_deleteMember {of' user : Uuid} (h : of' ≠ of) : rowsOf of (deleteMember e of' user rows).2 = rowsOf of rows := by
  unfold deleteMember rowsOf
  split
  · dsimp only
    rw [List.filter_filter]
    refine List.filter_congr fun r _ => ?_
    by_cases hr : r.of = of
    · simp [hr, Ne.symm h]
    · simp [hr]
  · rfl

/-! ## What the group keeps -/

section Held

variable {G : Set Uuid} {repo : Uuid} {r : Repo} {db₀ : Db}

/-- Of a user of the group, the personal organisation is not that of the repository, or the user is in it. -/
def PersonalHeld (G : Set Uuid) (r : Repo) (db : Db) : Prop :=
  ∀ org ∈ db.organizations, r.orgId = some org.id → ∀ u ∈ G, org.slug = personalSlug u →
    (memberRole db.orgMembers org.id u).isSome = true

/-- The rows that roles on the repository come from are those of `db₀`. -/
structure Held (G : Set Uuid) (repo : Uuid) (r : Repo) (db₀ db : Db) : Prop where
  row : db.repos.find? (fun x => x.id == repo) = some r
  members : ∀ o, r.orgId = some o → rowsOf o db.orgMembers = rowsOf o db₀.orgMembers
  direct : rowsOf repo db.repoCollaborators = rowsOf repo db₀.repoCollaborators
  personal : PersonalHeld G r db

theorem Held.resolveRepoRole {db : Db} (h : Held G repo r db₀ db) (hrow : db₀.repos.find? (fun x => x.id == repo) = some r)
    (user : Uuid) : db.resolveRepoRole user repo = db₀.resolveRepoRole user repo := by
  have hdirect := memberRole_congr h.direct user
  have hmembers : r.orgId.bind (fun o => memberRole db.orgMembers o user) =
      r.orgId.bind (fun o => memberRole db₀.orgMembers o user) := by
    cases ho : r.orgId with
    | none => rfl
    | some o => exact memberRole_congr (h.members o ho) user
  unfold Db.resolveRepoRole
  simp only [h.row, hrow, hdirect, hmembers]

/-! ### The personal organisation -/

theorem upsertOrg_ends (draw : Auth.Draw) (name slug : Text) (db : Db) :
    Ends (upsertOrg draw name slug) db
      (fun org db' => org.slug = slug ∧ org ∈ db'.organizations ∧
        (db' = db ∨ org.id = draw.orgId ∧ db' = { db with organizations := db.organizations ++ [org] }))
      (fun _ _ => False) := by
  cases h : db.organizations.find? (fun o => o.slug == slug) with
  | some org =>
    have hslug : org.slug = slug := by simpa using List.find?_some h
    have hrun : upsertOrg draw name slug db = (.ok org, db) := by simp [upsertOrg, h]
    apply ends_of_ok hrun
    exact ⟨hslug, List.mem_of_find?_eq_some h, .inl rfl⟩
  | none =>
    apply ends_of_ok (a := ⟨draw.orgId, name, slug⟩)
    · simp [upsertOrg, h]
      rfl
    · exact ⟨rfl, by simp, .inr ⟨rfl, rfl⟩⟩

theorem ends_call {α : Type} {fails : AuthCall → Bool} {c : AuthCall} {p : Proc Db StorageError α} {db : Db}
    {Q : α → Db → Prop} {E : StorageError → Db → Prop} (h : Ends p db Q E) (hE : E (.database []) db) :
    Ends (Auth.call fails c p) db Q E := by
  unfold Auth.call
  split
  · exact hE
  · exact h

/-- An organisation that is new is not that of the repository. -/
theorem Held.of_upsert {db db' : Db} {org : Organization} {id : Uuid} (h : Held G repo r db₀ db) (hid : r.orgId ≠ some id)
    (hdb : db' = db ∨ org.id = id ∧ db' = { db with organizations := db.organizations ++ [org] }) :
    Held G repo r db₀ db' := by
  rcases hdb with rfl | ⟨rfl, rfl⟩
  · exact h
  · refine ⟨h.row, h.members, h.direct, fun org' horg' ho u hu hslug => ?_⟩
    rcases List.mem_append.1 horg' with horg' | horg'
    · exact h.personal org' horg' ho u hu hslug
    · rw [List.mem_singleton.1 horg'] at ho
      exact absurd ho hid

/-- A member of the group that the organisation of the repository belongs to by its slug is in it already. -/
theorem Held.insertOwner {db : Db} {org : Organization} {u : Uuid} (h : Held G repo r db₀ db) (hu : u ∈ G)
    (hmem : org ∈ db.organizations) (hslug : org.slug = personalSlug u) : Held G repo r db₀ (Auth.insertOwner org.id u db).2 := by
  unfold Auth.insertOwner
  rw [modify_apply]
  split
  · exact h
  · rename_i hnot
    have hother : ∀ o, r.orgId = some o → o ≠ org.id := by
      rintro o ho rfl
      exact hnot (h.personal org hmem ho u hu hslug)
    refine ⟨h.row, fun o ho => ?_, h.direct, fun org' horg' ho v hv hslug' => ?_⟩
    · rw [← h.members o ho]
      exact rowsOf_append (hother o ho).symm db.orgMembers
    · have hsame := memberRole_congr (rowsOf_append (m := ⟨org.id, u, "owner".toList⟩) (hother _ ho).symm db.orgMembers) v
      exact hsame ▸ h.personal org' horg' ho v hv hslug'

theorem Held.ends_insertOwner {db : Db} {org : Organization} {u : Uuid} {E : StorageError → Db → Prop}
    (h : Held G repo r db₀ db) (hu : u ∈ G) (hmem : org ∈ db.organizations) (hslug : org.slug = personalSlug u) :
    Ends (Auth.insertOwner org.id u) db (fun _ => Held G repo r db₀) E := h.insertOwner hu hmem hslug

variable {draw : Draw}

theorem Held.getOrCreate {db : Db} {u : Uuid} {name : Text} (h : Held G repo r db₀ db) (hu : u ∈ G)
    (hid : r.orgId ≠ some draw.auth.orgId) : Held G repo r db₀ (Auth.getOrCreatePersonalOrg draw.auth u name db).2 := by
  refine Ends.state (?_ : Ends _ _ (fun _ => Held G repo r db₀) (fun _ => Held G repo r db₀))
  unfold Auth.getOrCreatePersonalOrg
  apply (ends_call (upsertOrg_ends draw.auth name (personalSlug u) db |>.mono (fun _ _ h => h)
    (fun _ _ h => h.elim)) h).bind (fun _ _ h => h)
  rintro org db₁ ⟨hslug, hmem, hdb₁⟩
  have h₁ := h.of_upsert hid hdb₁
  exact (ends_call (h₁.ends_insertOwner hu hmem hslug) h₁).bind (fun _ _ h => h) fun _ _ h => ends_pure h

/-! ### The session exchange -/

theorem ends_orNotFound {α : Type} {f : Db → Option α} {what : Text} {db : Db} :
    Ends (orNotFound f what) db (fun a db' => f db = some a ∧ db' = db) (fun _ db' => db' = db) := by
  unfold orNotFound
  apply ends_bind_of_ok (read_apply f db)
  cases hf : f db with
  | none => exact ends_fail rfl
  | some a => exact ends_pure ⟨rfl, rfl⟩

theorem ends_lookupRepoRole (fails : AuthCall → Bool) (user p : Uuid) (db : Db) :
    Ends (lookupRepoRole fails user p) db (fun role db' => role = db.resolveRepoRole user p ∧ db' = db) (fun _ db' => db' = db) :=
  ends_call (ends_read ⟨rfl, rfl⟩) rfl

theorem ends_claimedRole (fails : AuthCall → Bool) (user : Uuid) (p : Option Uuid) (db : Db) :
    Ends (claimedRole fails user p) db (fun _ db' => db' = db) (fun _ db' => db' = db) := by
  cases p with
  | none => exact ends_pure rfl
  | some p =>
    apply (ends_lookupRepoRole fails user p db).bind (fun _ _ h => h)
    rintro role db' ⟨-, rfl⟩
    exact ends_pure rfl

/-- A session of a member of the group. -/
theorem Held.exchange {srv : AppState} {body : TokenRequest} {db : Db} (h : Held G repo r db₀ db)
    (hG : ∀ user, sessionUser draw.auth body db = some user → user.id ∈ G) (hid : r.orgId ≠ some draw.auth.orgId) :
    Ends (sessionExchange srv draw.auth body) db (fun _ => Held G repo r db₀) (fun _ => Held G repo r db₀) := by
  unfold sessionExchange
  cases hst : body.sessionToken with
  | none => exact h
  | some st =>
    apply (ends_renamed (ends_call ends_orNotFound rfl)).bind (fun _ _ hs => hs ▸ h)
    rintro session _ ⟨hsession, rfl⟩
    cases hid' : Text.parseNat session.userId with
    | none => exact h
    | some uid =>
      apply (ends_renamed (ends_call ends_orNotFound rfl)).bind (fun _ _ hs => hs ▸ h)
      rintro user db₁ ⟨huser, rfl⟩
      have hu : user.id ∈ G := by
        apply hG
        simp [sessionUser, hst, hsession, hid', huser]
      -- the personal organisation is made sure of, or that fails and is ignored
      have h₁ : Held G repo r db₀ (Auth.getOrCreatePersonalOrg draw.auth user.id user.name db₁).2 := h.getOrCreate hu hid
      apply ends_bind_of_ok (attempt_apply _ _)
      have hstate : (mapErr ApiError.ofStorage (Auth.getOrCreatePersonalOrg draw.auth user.id user.name) db₁).2 =
          (Auth.getOrCreatePersonalOrg draw.auth user.id user.name db₁).2 := by
        unfold mapErr
        rcases Auth.getOrCreatePersonalOrg draw.auth user.id user.name db₁ with ⟨_ | _, _⟩ <;> rfl
      rw [hstate]
      generalize (Auth.getOrCreatePersonalOrg draw.auth user.id user.name db₁).2 = db₂ at h₁ ⊢
      apply (ends_renamed (ends_claimedRole draw.auth.fails user.id body.repoId db₂)).bind (fun _ _ hs => hs ▸ h₁)
      rintro role db₂ rfl
      apply (ends_ofExcept (Q := fun _ s => s = _) (E := fun _ s => s = _) (fun _ _ => rfl) (fun _ _ => rfl)).bind
        (fun _ _ hs => hs ▸ h₁)
      rintro access db₂ rfl
      have hrefresh : Ends (Auth.call draw.auth.fails .createRefreshToken (createRefreshToken srv draw.auth user.id)) db₂
          (fun _ => Held G repo r db₀) (fun _ => Held G repo r db₀) :=
        ends_call ⟨h₁.row, h₁.members, h₁.direct, h₁.personal⟩ h₁
      exact (ends_renamed hrefresh).bind (fun _ _ h => h) fun _ _ h => ends_pure h

end Held

/-! ## One request -/

section Request

variable {cfg : Config} {G : Set Uuid} {repo : Uuid} {r : Repo} {db₀ : Db} {draw : Draw} {identity : AgentIdentity}
  {d d' : Directory}

/-- A user of the group, neither an administrator of the server nor a worker on the repository. -/
structure Caller (G : Set Uuid) (repo : Uuid) (identity : AgentIdentity) : Prop where
  plain : identity.isAdmin = false
  scope : identity.roleOverride = some "worker".toList → identity.jwtRepoScope ≠ some repo
  member : ∀ u, identity.userId = some u → u ∈ G

/-- Nobody of the group may write. -/
def NoWriter (G : Set Uuid) (repo : Uuid) (db : Db) : Prop :=
  ∀ u ∈ G, ∀ role, db.resolveRepoRole u repo = some role → role.rank < RepoRole.write.rank

/-- Where nobody of the group may write, no caller passes a check that asks for that. -/
theorem Caller.refused (hc : Caller G repo identity) {db : Db} (hnone : NoWriter G repo db) {required : RepoRole}
    (hreq : RepoRole.write.rank ≤ required.rank) {fails : AuthCall → Bool} {role : RepoRole} :
    (requireRepoPermission .server fails identity repo required db).1 ≠ .ok role := by
  intro h
  by_cases hw : identity.roleOverride = some "worker".toList
  · unfold requireRepoPermission at h
    rw [hc.plain, if_neg Bool.false_ne_true, if_neg (by decide), if_pos hw, if_neg (hc.scope hw)] at h
    cases h
  · obtain ⟨u, held, hu, hheld, hrank, -⟩ := requireRepoPermission_ok hc.plain hw h
    have := hnone u (hc.member u hu) held hheld
    omega

theorem Caller.ends_repoOf (hc : Caller G repo identity) (hnone : NoWriter G repo d.db) {required : RepoRole}
    (hreq : RepoRole.write.rank ≤ required.rank) (slug name : Text) :
    Ends (repoOf draw identity slug name required) d (fun p d' => d' = d ∧ p ≠ repo) (fun _ d' => d' = d) := by
  have hsame : Keeps (fun s => s = d) (orgOf draw slug) := by
    refine Keeps.mapErr (keeps_ite (keeps_fail _ _) ((keeps_read _ _).bind fun org => ?_)) _
    split
    · exact keeps_pure _ _
    · exact keeps_fail _ _
  have hrepo : ∀ orgId, Keeps (fun s => s = d)
      (mapErr ApiError.ofStorage (call draw.fails .getRepoIdInOrg (getRepoIdInOrg orgId name))) := by
    intro orgId
    refine Keeps.mapErr (keeps_ite (keeps_fail _ _) ((keeps_read _ _).bind fun p => ?_)) _
    split
    · exact keeps_pure _ _
    · exact keeps_fail _ _
  unfold repoOf
  apply (hsame.ends rfl).bind (fun _ _ h => h)
  rintro org _ rfl
  apply ((hrepo org.id).ends rfl).bind (fun _ _ h => h)
  rintro p d rfl
  have hstate := requireRepoPermission_state .server draw.auth.fails identity p required d.db
  have hcheck : Ends (onDb (requireRepoPermission .server draw.auth.fails identity p required)) d
      (fun _ d' => d' = d ∧ p ≠ repo) (fun _ d' => d' = d) := by
    apply ends_iff.2
    constructor
    · intro role d' h
      have hok : (requireRepoPermission .server draw.auth.fails identity p required d.db).1 = .ok role := congrArg Prod.fst h
      have hd : d' = { d with db := (requireRepoPermission .server draw.auth.fails identity p required d.db).2 } :=
        (congrArg Prod.snd h).symm
      rw [hstate] at hd
      refine ⟨hd, ?_⟩
      rintro rfl
      exact hc.refused hnone hreq hok
    · intro e d' h
      have hd : d' = { d with db := (requireRepoPermission .server draw.auth.fails identity p required d.db).2 } :=
        (congrArg Prod.snd h).symm
      rw [hstate] at hd
      exact hd
  apply hcheck.bind (fun _ _ h => h)
  rintro _ _ ⟨rfl, hp⟩
  exact ends_pure ⟨rfl, hp⟩

/-- The invariant, over all the tables. -/
abbrev HeldIn (G : Set Uuid) (repo : Uuid) (r : Repo) (db₀ : Db) (d : Directory) : Prop := Held G repo r db₀ d.db

/-- The identifiers that a request draws are not in use. -/
def Draw.Fresh (draw : Draw) (d : Directory) : Prop := ∀ x ∈ d.db.repos, x.id ≠ draw.id ∧ x.orgId ≠ some draw.auth.orgId

theorem Held.fresh {db : Db} (h : Held G repo r db₀ db) (hd : d.db = db) (hf : draw.Fresh d) :
    draw.id ≠ repo ∧ r.orgId ≠ some draw.auth.orgId := by
  subst hd
  obtain ⟨hid, horg⟩ := hf r (List.mem_of_find?_eq_some h.row)
  have hrepo : r.id = repo := by simpa using List.find?_some h.row
  exact ⟨fun heq => hid (hrepo.trans heq.symm), horg⟩

theorem Held.collaborators {db : Db} (h : Held G repo r db₀ db) {rows : List Member}
    (hrows : rowsOf repo rows = rowsOf repo db.repoCollaborators) : Held G repo r db₀ { db with repoCollaborators := rows } :=
  ⟨h.row, h.members, hrows.trans h.direct, h.personal⟩

theorem keeps_asServerAdmin {α : Type} (ha : identity.isAdmin = false) (I : Directory → Prop) (p : Proc Directory ApiError α) :
    Keeps I (asServerAdmin identity p) := by
  have hrefused : requireServerAdmin identity = .error (.forbidden "this endpoint requires the bootstrap admin key".toList) := by
    unfold requireServerAdmin
    rw [ha, if_neg Bool.false_ne_true]
  unfold asServerAdmin
  rw [hrefused]
  exact keeps_fail I _

theorem keeps_call (I : Directory → Prop) {α : Type} {c : OrgCall} {p : Proc Directory StorageError α} (h : Keeps I p) :
    Keeps I (call draw.fails c p) := keeps_ite (keeps_fail I _) h

theorem ends_onDb {ε α : Type} {m : Proc Db ε α} {Q : α → Directory → Prop} {E : ε → Directory → Prop}
    (h : Ends m d.db (fun a db => Q a { d with db := db }) fun e db => E e { d with db := db }) : Ends (onDb m) d Q E := by
  unfold Ends onDb at *
  rcases hm : m d.db with ⟨_ | _, _⟩ <;> rw [hm] at h <;> exact h

theorem Caller.keeps_collaborators {α : Type} (hc : Caller G repo identity) (hnone : NoWriter G repo db₀) {required : RepoRole}
    (hreq : RepoRole.write.rank ≤ required.rank) (slug name : Text) {c : OrgCall} {p : Uuid → Db → Proc (List Member) StorageError α}
    (hp : ∀ id db rows, id ≠ repo → rowsOf repo (p id db rows).2 = rowsOf repo rows)
    (hrow : db₀.repos.find? (fun x => x.id == repo) = some r) :
    Keeps (HeldIn G repo r db₀) (do
      let id ← repoOf draw identity slug name required
      mapErr ApiError.ofStorage (call draw.fails c (onCollaborators (p id)))) := by
  intro d hd
  refine Ends.state (?_ : Ends _ _ (fun _ => HeldIn G repo r db₀) (fun _ => HeldIn G repo r db₀))
  have hwriter : NoWriter G repo d.db := fun u hu role hrole => hnone u hu role (by rw [← hd.resolveRepoRole hrow]; exact hrole)
  apply (hc.ends_repoOf hwriter hreq slug name).bind (fun _ _ h => h ▸ hd)
  rintro id d ⟨rfl, hid⟩
  have hkeeps : Keeps (fun d' => d' = d ∨ HeldIn G repo r db₀ d')
      (mapErr ApiError.ofStorage (call draw.fails c (onCollaborators (p id)))) := by
    refine Keeps.mapErr (keeps_call _ ?_) _
    rintro s (rfl | hs)
    · exact .inr (hd.collaborators (hp id _ _ hid))
    · exact .inr (hs.collaborators (hp id _ _ hid))
  apply (hkeeps.ends (.inl rfl)).mono
  · rintro _ d' (rfl | h)
    · exact hd
    · exact h
  · rintro _ d' (rfl | h)
    · exact hd
    · exact h

theorem keeps_getOrCreatePersonalOrg {u : Uuid} (name : Text) (hu : u ∈ G) (hid : r.orgId ≠ some draw.auth.orgId) :
    Keeps (HeldIn G repo r db₀) (getOrCreatePersonalOrg draw u name) := by
  intro d hd
  refine Ends.state (ends_onDb ?_)
  apply (ends_call (upsertOrg_ends draw.auth name (personalSlug u) d.db |>.mono (fun _ _ h => h)
    (fun _ _ h => h.elim)) hd).bind (fun _ _ h => h)
  rintro org db ⟨hslug, hmem, hdb⟩
  have hdb := hd.of_upsert hid hdb
  apply ends_bind_of_ok (read_apply _ _)
  have howner : Ends (if (db.findUser u).isSome = true then Auth.insertOwner org.id u else fail (.database [])) db
      (fun _ => Held G repo r db₀) (fun _ => Held G repo r db₀) := by
    split
    · exact hdb.ends_insertOwner hu hmem hslug
    · exact hdb
  exact (ends_call howner hdb).bind (fun _ _ h => h) fun _ _ h => ends_pure h

theorem keeps_createRepo (hc : Caller G repo identity) (hfresh : draw.id ≠ repo ∧ r.orgId ≠ some draw.auth.orgId) (name : Text) :
    Keeps (HeldIn G repo r db₀) (createRepoHandler draw cfg identity name) := by
  have hquota : Keeps (HeldIn G repo r db₀) (checkQuota draw cfg identity) := by
    unfold checkQuota
    split
    · exact (Keeps.mapErr (keeps_call _ (keeps_read _ _)) _).bind fun current => keeps_ite (keeps_fail _ _) (keeps_pure _ _)
    · exact keeps_pure _ _
  have horg : Keeps (HeldIn G repo r db₀) (personalOrgId draw identity) := by
    unfold personalOrgId
    split
    · rename_i u hu
      refine Keeps.bind (Keeps.attempt (Keeps.mapErr (keeps_getOrCreatePersonalOrg _ (hc.member u hu) hfresh.2) _)) fun org => ?_
      split
      · exact keeps_pure _ _
      · exact keeps_pure _ _
    · exact keeps_pure _ _
  have hinsert : ∀ orgId, Keeps (HeldIn G repo r db₀) (insertRepo draw name orgId identity.userId) := by
    intro orgId d hd
    have hrow : (d.db.repos ++ [(⟨draw.id, orgId⟩ : Repo)]).find? (fun x => x.id == repo) = some r := by
      rw [List.find?_append, hd.row]
      rfl
    unfold insertRepo
    cases identity.userId with
    | none =>
      dsimp only
      split_ifs
      iterate 4 exact hd
      exact ⟨hrow, hd.members, hd.direct, hd.personal⟩
    | some u =>
      dsimp only
      split_ifs
      iterate 5 exact hd
      exact ⟨hrow, hd.members, (rowsOf_append hfresh.1 _).trans hd.direct, hd.personal⟩
  unfold createRepoHandler
  refine keeps_ite (keeps_fail _ _) (keeps_ite (keeps_fail _ _) (keeps_ite (keeps_fail _ _) ?_))
  refine hquota.bind fun _ => (Keeps.mapErr (keeps_call _ (keeps_read _ _)) _).bind fun existing => ?_
  exact keeps_ite (keeps_fail _ _) (horg.bind fun orgId => (hinsert orgId).bind fun _ => keeps_pure _ _)

/-- **A request of the group, where none of them may write.** -/
theorem handle_held (hc : Caller G repo identity) (hnone : NoWriter G repo db₀)
    (hrow : db₀.repos.find? (fun x => x.id == repo) = some r) (hfresh : draw.Fresh d) (req : Request)
    (hsession : ∀ body, req = .exchange body → ∀ user, sessionUser draw.auth body d.db = some user → user.id ∈ G)
    (h : HeldIn G repo r db₀ d) : HeldIn G repo r db₀ (handle draw cfg identity d req) := by
  have hids := Held.fresh h rfl hfresh
  cases req with
  | createRepo name => exact keeps_createRepo hc hids name d h
  | createOrg name slug => exact keeps_asServerAdmin hc.plain _ _ d h
  | deleteOrg slug => exact keeps_asServerAdmin hc.plain _ _ d h
  | createUser email name => exact keeps_asServerAdmin hc.plain _ _ d h
  | addOrgMember slug u role => exact keeps_asServerAdmin hc.plain _ _ d h
  | updateOrgMember slug u role => exact keeps_asServerAdmin hc.plain _ _ d h
  | removeOrgMember slug u => exact keeps_asServerAdmin hc.plain _ _ d h
  | addCollaborator o n u role =>
    refine (keeps_ofExcept _ _ _).bind (fun role => hc.keeps_collaborators hnone le_rfl o n ?_ hrow) d h
    exact fun id db rows hid => rowsOf_insertMember _ hid
  | updateCollaborator o n u role =>
    refine (keeps_ofExcept _ _ _).bind (fun role => hc.keeps_collaborators hnone (by decide) o n ?_ hrow) d h
    exact fun id db rows hid => rowsOf_updateMember hid
  | removeCollaborator o n u =>
    refine hc.keeps_collaborators hnone (by decide) o n ?_ hrow d h
    exact fun id db rows hid => rowsOf_deleteMember hid
  | exchange body =>
    refine Ends.state (ends_onDb ?_)
    unfold tokenExchangeHandler
    split_ifs
    · exact Held.exchange h (hsession body rfl) hids.2
    · unfold apiKeyExchange
      split
      · exact ends_fail h
      · rename_i key _
        have hsubject : Keeps (Held G repo r db₀) (keySubject cfg.auth draw.auth key) := by
          refine keeps_ite (keeps_pure _ _) ((Keeps.mapErr (keeps_ite (keeps_fail _ _) ?_) _).bind fun _ => keeps_pure _ _)
          refine (keeps_read _ _).bind fun k => ?_
          split
          · exact keeps_pure _ _
          · exact keeps_fail _ _
        refine (hsubject.bind fun s => ?_).ends h
        exact (keeps_ofExcept _ _ _).bind fun _ => keeps_pure _ _
    · exact ends_fail h

end Request

/-! ## Runs of requests -/

/-- A request, who it comes from and what it draws. -/
structure Call where
  draw : Draw
  identity : AgentIdentity
  request : Request

def step (cfg : Config) (c : Call) (d : Directory) : Option Directory := some (handle c.draw cfg c.identity d c.request)

/-- A request that the group can make: under an identity of one of them, or to exchange a session of one of them. -/
structure FromGroup (G : Set Uuid) (repo : Uuid) (c : Call) (d : Directory) : Prop where
  caller : Caller G repo c.identity
  session : ∀ body, c.request = .exchange body → ∀ user, sessionUser c.draw.auth body d.db = some user → user.id ∈ G
  fresh : c.draw.Fresh d

section Run

variable {cfg : Config} {G : Set Uuid} {repo : Uuid} {r : Repo} {d₀ d : Directory} {l : List (Steps.Turn Call Directory)}

theorem held_of_ran (hrow : d₀.db.repos.find? (fun x => x.id == repo) = some r) (hpersonal : PersonalHeld G r d₀.db)
    (hnone : NoWriter G repo d₀.db) (hran : Steps.Ran (step cfg) d₀ l d)
    (hgroup : ∀ t ∈ l, FromGroup G repo t.action t.before) : HeldIn G repo r d₀.db d := by
  have hstart : HeldIn G repo r d₀.db d₀ := ⟨hrow, fun _ _ => rfl, rfl, hpersonal⟩
  have hstep : ∀ c s s', HeldIn G repo r d₀.db s → FromGroup G repo c s → step cfg c s = some s' →
      HeldIn G repo r d₀.db s' := by
    intro c s s' hheld hmeets hs
    obtain rfl := Option.some.inj hs
    exact handle_held hmeets.caller hnone hrow hmeets.fresh c.request hmeets.session hheld
  exact hran.keeps hstep hstart hgroup

/-- **Where nobody of the group may write, no run of their requests changes a role on the repository.** -/
theorem roles_kept_without_writer (hrow : d₀.db.repos.find? (fun x => x.id == repo) = some r)
    (hpersonal : PersonalHeld G r d₀.db) (hnone : NoWriter G repo d₀.db) (hran : Steps.Ran (step cfg) d₀ l d)
    (hgroup : ∀ t ∈ l, FromGroup G repo t.action t.before) (user : Uuid) :
    d.db.resolveRepoRole user repo = d₀.db.resolveRepoRole user repo :=
  (held_of_ran hrow hpersonal hnone hran hgroup).resolveRepoRole hrow user

end Run

/-! ## One invitation -/

section Invitation

variable {cfg : Config} {G : Set Uuid} {repo : Uuid} {r : Repo} {d₀ d : Directory}

/-- The identity of a user under an access token without a cap. -/
def identityOfUser (u : Uuid) : AgentIdentity where
  keyId := "jwt:".toList ++ Text.ofNat u
  name := Text.ofNat u
  isAdmin := false
  userId := some u
  roleOverride := none
  jwtRepoScope := none
  authSource := .jwt

/-- Nothing fails. -/
def quietDraw (id : Uuid) : Draw := ⟨⟨0, id, [], fun _ => false⟩, id, fun _ => false⟩

theorem exists_fresh (d : Directory) : ∃ id, (quietDraw id).Fresh d := by
  obtain ⟨id, hid⟩ := Infinite.exists_notMem_finset (d.db.repos.map Repo.id ++ d.db.repos.filterMap Repo.orgId).toFinset
  simp only [List.mem_toFinset, List.mem_append, List.mem_map, List.mem_filterMap, not_or, not_exists, not_and] at hid
  exact ⟨id, fun x hx => ⟨hid.1 x hx, hid.2 x hx⟩⟩

theorem resolveRepoRole_of_owner {db : Db} {u : Uuid} (hrow : db.repos.find? (fun x => x.id == repo) = some r)
    (hdirect : memberRole db.repoCollaborators repo u = some "owner".toList) : db.resolveRepoRole u repo = some .owner := by
  unfold Db.resolveRepoRole
  simp only [hrow, hdirect, Option.map_some, show RepoRole.fromDbStr "owner".toList = .owner by decide]
  split
  · rename_i a _ horg hb
    cases hb
    cases a <;> decide
  · rename_i hb
    cases hb
  · rename_i hb
    exact hb.symm
  · rename_i hb
    cases hb

theorem memberRole_append_self {rows : List Member} {m : Member} (h : memberRole rows m.of m.user = none) :
    memberRole (rows ++ [m]) m.of m.user = some m.role := by
  unfold memberRole at h ⊢
  rw [Option.map_eq_none_iff] at h
  rw [List.find?_append, h]
  simp

/-- Where a path leads to. -/
structure Addressed (d : Directory) (slug name : Text) (r : Repo) (org : Organization) : Prop where
  orgRow : d.db.organizations.find? (fun o => o.slug = slug) = some org
  repoRow : d.db.repos.find? (fun x => x.orgId = some org.id && d.nameOf x.id = some name) = some r

theorem requireRepoPermission_user {fails : AuthCall → Bool} {u : Uuid} {role : RepoRole} {db : Db} (hfails : fails .resolveRepoRole = false)
    (hrole : db.resolveRepoRole u repo = some role) (hrank : RepoRole.write.rank ≤ role.rank) :
    requireRepoPermission .server fails (identityOfUser u) repo .write db = (.ok role, db) := by
  have hlookup : mapErr (fun _ => ApiError.internal) (lookupRepoRole fails u repo) db = (.ok (some role), db) := by
    simp [mapErr, lookupRepoRole, Auth.call, hfails, hrole]
  have hnot : ¬ role.rank < RepoRole.write.rank := by omega
  unfold requireRepoPermission
  rw [if_neg (show ¬ (identityOfUser u).isAdmin = true from Bool.false_ne_true), if_neg (by decide),
    if_neg (show (identityOfUser u).roleOverride ≠ _ from fun h => by cases h)]
  change (mapErr (fun _ => ApiError.internal) (lookupRepoRole fails u repo) >>= _) db = _
  rw [bind_of_ok hlookup]
  change (if role.rank < RepoRole.write.rank then _ else pure role : Proc Db ApiError RepoRole) db = _
  rw [if_neg hnot]
  rfl

theorem invite_owner {u v id : Uuid} {slug name : Text} {org : Organization} {role : RepoRole}
    (haddr : Addressed d slug name r org) (hrole : d.db.resolveRepoRole u r.id = some role)
    (hrank : RepoRole.write.rank ≤ role.rank) (hknown : (d.db.findUser v).isSome = true)
    (habsent : memberRole d.db.repoCollaborators r.id v = none) :
    handle (quietDraw id) cfg (identityOfUser u) d (.addCollaborator slug name v "owner".toList) =
      { d with db := { d.db with repoCollaborators := d.db.repoCollaborators ++ [⟨r.id, v, "owner".toList⟩] } } := by
  have hparse : parseRepoRole "owner".toList = .ok .owner := by decide
  have horg : orgOf (quietDraw id) slug d = (.ok org, d) := by
    have hget : getOrgBySlug slug d = (.ok org, d) := by
      unfold getOrgBySlug
      rw [bind_of_ok (read_apply _ _), haddr.orgRow]
      rfl
    exact mapErr_of_ok hget
  have hrepo : mapErr ApiError.ofStorage (call (quietDraw id).fails .getRepoIdInOrg (getRepoIdInOrg org.id name)) d =
      (.ok r.id, d) := by
    have hget : getRepoIdInOrg org.id name d = (.ok r.id, d) := by
      unfold getRepoIdInOrg
      rw [bind_of_ok (read_apply _ _), haddr.repoRow]
      rfl
    exact mapErr_of_ok hget
  have hcheck : onDb (requireRepoPermission .server (quietDraw id).auth.fails (identityOfUser u) r.id .write) d = (.ok role, d) := by
    unfold onDb
    rw [requireRepoPermission_user rfl hrole hrank]
  have hmem : d.db.repos.any (fun x => x.id = r.id) = true :=
    List.any_eq_true.2 ⟨r, List.mem_of_find?_eq_some haddr.repoRow, by simp⟩
  have hrepoOf : repoOf (quietDraw id) (identityOfUser u) slug name .write d = (.ok r.id, d) := by
    unfold repoOf
    rw [bind_of_ok horg, bind_of_ok hrepo, bind_of_ok hcheck]
    rfl
  change (addCollaboratorHandler (quietDraw id) (identityOfUser u) slug name v "owner".toList d).2 = _
  unfold addCollaboratorHandler
  rw [hparse]
  change ((repoOf (quietDraw id) (identityOfUser u) slug name .write >>= _) d).2 = _
  rw [bind_of_ok hrepoOf]
  simp [mapErr, call, quietDraw, addCollaborator, onCollaborators, insertMember, hmem, hknown, habsent, RepoRole.asStr]

/-- **A group can make one of its members an owner exactly when one of them may write.** -/
theorem owner_reached_iff {v : Uuid} {slug name : Text} {org : Organization}
    (hrow : d₀.db.repos.find? (fun x => x.id == repo) = some r) (hpersonal : PersonalHeld G r d₀.db)
    (haddr : Addressed d₀ slug name r org) (hv : v ∈ G) (hknown : (d₀.db.findUser v).isSome = true)
    (habsent : memberRole d₀.db.repoCollaborators repo v = none) :
    (∃ l d, Steps.Ran (step cfg) d₀ l d ∧ (∀ t ∈ l, FromGroup G repo t.action t.before) ∧
        ∃ u ∈ G, d.db.resolveRepoRole u repo = some .owner) ↔
      ∃ u ∈ G, ∃ role, d₀.db.resolveRepoRole u repo = some role ∧ RepoRole.write.rank ≤ role.rank := by
  constructor
  · rintro ⟨l, d, hran, hgroup, u, hu, howner⟩
    by_contra hwriter
    have hnone : NoWriter G repo d₀.db := by
      intro u hu role hrole
      by_contra hrank
      exact hwriter ⟨u, hu, role, hrole, by omega⟩
    rw [(held_of_ran hrow hpersonal hnone hran hgroup).resolveRepoRole hrow] at howner
    exact hwriter ⟨u, hu, .owner, howner, by decide⟩
  · rintro ⟨u, hu, role, hrole, hrank⟩
    have hid : r.id = repo := by simpa using List.find?_some hrow
    subst hid
    obtain ⟨id, hfresh⟩ := exists_fresh d₀
    have hstep : handle (quietDraw id) cfg (identityOfUser u) d₀ (.addCollaborator slug name v "owner".toList) = _ :=
      invite_owner haddr hrole hrank hknown habsent
    refine ⟨_, _, Steps.Ran.start.next ⟨quietDraw id, identityOfUser u, .addCollaborator slug name v "owner".toList⟩
      (congrArg some hstep), ?_, v, hv, ?_⟩
    · intro t ht
      rw [List.nil_append, List.mem_singleton] at ht
      subst ht
      refine ⟨⟨rfl, fun h => (by cases h), fun w hw => ?_⟩, fun body h => (by cases h), hfresh⟩
      obtain rfl := Option.some.inj hw
      exact hu
    · exact resolveRepoRole_of_owner hrow (memberRole_append_self habsent)

/-! ### A small directory -/

/-- Users `1`, who may write, `2`, who may read, and `3`, on the repository `20` of the organisation `10`. -/
def smallDirectory : Directory where
  db :=
    { users := [⟨1, "ann".toList⟩, ⟨2, "ben".toList⟩, ⟨3, "cem".toList⟩], sessions := [], apiKeys := []
      organizations := [⟨10, "Acme".toList, "acme".toList⟩], orgMembers := [], repos := [⟨20, some 10⟩]
      repoCollaborators := [⟨20, 1, "write".toList⟩, ⟨20, 2, "read".toList⟩], refreshTokens := [] }
  emails := []
  repoNames := [(20, "core".toList)]

theorem personalHeld_smallDirectory (G : Set Uuid) : PersonalHeld G ⟨20, some 10⟩ smallDirectory.db := by
  intro org horg ho u hu hslug
  rw [List.mem_singleton.1 horg] at hslug
  -- `acme` does not begin with `user-`
  exact absurd (congrArg List.head? hslug) (by simp [personalSlug])

def smallServer : Config := ⟨readableServer, ⟨Char.isAlphanum, List.map Char.toLower⟩, some "/srv".toList, 5⟩

/-- A reader who invites an owner. -/
def vainCall : Call := ⟨quietDraw 30, identityOfUser 2, .addCollaborator "acme".toList "core".toList 3 "owner".toList⟩

/-- In a small directory, where the reader invites. -/
theorem roles_kept_smallDirectory :
    (handle vainCall.draw smallServer vainCall.identity smallDirectory vainCall.request).db.resolveRepoRole 3 20 =
      smallDirectory.db.resolveRepoRole 3 20 := by
  refine roles_kept_without_writer (G := {2}) (r := ⟨20, some 10⟩) (by decide) (personalHeld_smallDirectory _) ?_
    (Steps.Ran.start.next vainCall rfl) ?_ 3
  · rintro u rfl role hrole
    have hread : smallDirectory.db.resolveRepoRole 2 20 = some .read := by decide
    rw [hread] at hrole
    obtain rfl := Option.some.inj hrole
    decide
  · intro t ht
    rw [List.nil_append, List.mem_singleton] at ht
    subst ht
    refine ⟨⟨rfl, fun h => (by cases h), fun w hw => (Option.some.inj hw).symm⟩, fun body h => (by cases h), ?_⟩
    intro x hx
    rw [List.mem_singleton.1 hx]
    decide

/-- In a small directory, for the writer and a user who has no role. -/
theorem owner_reached_smallDirectory :
    (∃ l d, Steps.Ran (step smallServer) smallDirectory l d ∧ (∀ t ∈ l, FromGroup {1, 3} 20 t.action t.before) ∧
        ∃ u ∈ ({1, 3} : Set Uuid), d.db.resolveRepoRole u 20 = some .owner) ↔
      ∃ u ∈ ({1, 3} : Set Uuid), ∃ role, smallDirectory.db.resolveRepoRole u 20 = some role ∧
        RepoRole.write.rank ≤ role.rank :=
  have haddr : Addressed smallDirectory "acme".toList "core".toList ⟨20, some 10⟩ ⟨10, "Acme".toList, "acme".toList⟩ :=
    ⟨by decide, by decide⟩
  owner_reached_iff (v := 3) (by decide) (personalHeld_smallDirectory _) haddr (by simp) (by decide) (by decide)

end Invitation
end Orgs
end Vai
