import Vai.Auth
/-!
# Escalation — what an exchanged token may do

The role of a token is one word.  `token_exchange_handler` writes the user's role on one repository there, or the cap of
an API key; `auth_middleware` reads `"admin"` there as the mark of the bootstrap key, and `require_repo_permission` reads
`"worker"` as the mark of a cloud worker.  A token is confined to what its holder may do exactly when neither of the two
words came from a user (`noEscalation_iff`).
-/
namespace Vai
namespace Auth

open Proc

variable {srv : AppState} {draw : Draw} {body : TokenRequest} {db db' : Db} {resp : TokenResponse} {token : Text}

/-! ## Roles -/

theorem RepoRole.fromDbStr_asStr (r : RepoRole) : fromDbStr r.asStr = r := by
  cases r <;> decide

theorem RepoRole.asStr_ne_worker (r : RepoRole) : r.asStr ≠ "worker".toList := by
  cases r <;> decide

theorem RepoRole.asStr_eq_admin {r : RepoRole} : r.asStr = "admin".toList ↔ r = .admin := by
  cases r <;> decide

/-! ## Signing and verifying -/

theorem verify_sign (hl : srv.jsonwebtoken.Lawful) {t : Nat} {sub : Text} {name repoId role : Option Text}
    (h : sign srv t sub name repoId role = .ok token) (now : Nat) : verify srv now token =
      if t + srv.jwtService.accessTokenTtl + srv.jwtService.leewaySecs < now then .error .expired
      else .ok ⟨sub, name, repoId, role, t, t + srv.jwtService.accessTokenTtl⟩ := by
  unfold sign at h
  split at h
  · rename_i tok henc
    cases h
    have hdec := hl.decode_encode henc srv.jwtService.leewaySecs now
    unfold verify tryDecode
    by_cases hexp : t + srv.jwtService.accessTokenTtl + srv.jwtService.leewaySecs < now
    · rw [hdec, if_pos hexp, if_pos hexp]
    · rw [hdec, if_neg hexp, if_neg hexp]
  · cases h

theorem dot_mem_sign (hl : srv.jsonwebtoken.Lawful) {t : Nat} {sub : Text} {name repoId role : Option Text}
    (h : sign srv t sub name repoId role = .ok token) : '.' ∈ token := by
  unfold sign at h
  split at h
  · rename_i tok henc
    cases h
    exact hl.dot_mem henc
  · cases h

/-- The identity behind a token, as the middleware reads it off the claims. -/
def identityOf (sub : Text) (name repoId role : Option Text) : AgentIdentity where
  keyId := "jwt:".toList ++ sub
  name := name.getD sub
  isAdmin := role == some "admin".toList
  userId := Text.parseNat sub
  roleOverride := role
  jwtRepoScope := repoId.bind Text.parseNat
  authSource := .jwt

theorem identityOf_isAdmin (sub : Text) (name repoId : Option Text) {role : Option Text}
    (h : role ≠ some "admin".toList) : (identityOf sub name repoId role).isAdmin = false := by
  simpa [identityOf] using h

/-- The middleware gives back the claims that were signed, until they expire. -/
theorem authMiddleware_sign (hl : srv.jsonwebtoken.Lawful) {t : Nat} {sub : Text} {name repoId role : Option Text}
    (h : sign srv t sub name repoId role = .ok token) (draw : Draw) (db : Db) : authMiddleware srv draw token db =
      if t + srv.jwtService.accessTokenTtl + srv.jwtService.leewaySecs < draw.now then
        (.error (.unauthorized "JWT token has expired".toList), db)
      else (.ok (identityOf sub name repoId role), db) := by
  unfold authMiddleware
  rw [if_pos (dot_mem_sign hl h), verify_sign hl h]
  split_ifs <;> rfl

/-! ## Calls -/

theorem call_ok {α : Type} {fails : AuthCall → Bool} {c : AuthCall} {m : Proc Db StorageError α} {a : α}
    (h : call fails c m db = (.ok a, db')) : m db = (.ok a, db') := by
  unfold call at h
  split at h
  · cases h
  · exact h

theorem mapErr_ok {α ε ε' : Type} {g : ε' → ε} {m : Proc Db ε' α} {a : α} (h : mapErr g m db = (.ok a, db')) :
    m db = (.ok a, db') := by
  unfold mapErr at h
  rcases hm : m db with ⟨_ | _, _⟩ <;> rw [hm] at h <;> cases h
  rfl

theorem attempt_mapErr_ok {α ε ε' : Type} {g : ε' → ε} {m : Proc Db ε' α} {r : Except ε α}
    (h : attempt (mapErr g m) db = (.ok r, db')) : db' = (m db).2 := by
  rw [attempt_apply] at h
  cases h
  unfold mapErr
  rcases m db with ⟨_ | _, _⟩ <;> rfl

theorem orNotFound_ok {α : Type} {f : Db → Option α} {what : Text} {a : α}
    (h : orNotFound f what db = (.ok a, db')) : f db = some a ∧ db' = db := by
  unfold orNotFound at h
  obtain ⟨o, s, hr, hm⟩ := bind_eq_ok.1 h
  cases hr
  cases hf : f db with
  | none => rw [hf] at hm; cases hm
  | some b => rw [hf] at hm; cases hm; exact ⟨rfl, rfl⟩

theorem ofExcept_ok {α ε ε' : Type} {g : ε' → ε} {r : Except ε' α} {a : α}
    (h : (Proc.ofExcept g r : Proc Db ε α) db = (.ok a, db')) : r = .ok a ∧ db' = db := by
  cases r <;> cases h
  exact ⟨rfl, rfl⟩

theorem lookupRepoRole_ok {fails : AuthCall → Bool} {user repo : Uuid} {r : Option RepoRole}
    (h : lookupRepoRole fails user repo db = (.ok r, db')) : db.resolveRepoRole user repo = r ∧ db' = db := by
  cases call_ok h
  exact ⟨rfl, rfl⟩

theorem claimedRole_ok {fails : AuthCall → Bool} {user : Uuid} {repo : Option Uuid} {r : Option Text}
    (h : claimedRole fails user repo db = (.ok r, db')) :
    r = repo.bind (fun p => (db.resolveRepoRole user p).map RepoRole.asStr) ∧ db' = db := by
  cases repo with
  | none => cases h; exact ⟨rfl, rfl⟩
  | some p =>
    obtain ⟨role, s, hr, hp⟩ := bind_eq_ok.1 h
    obtain ⟨hrole, rfl⟩ := lookupRepoRole_ok hr
    cases hp
    exact ⟨by rw [← hrole]; rfl, rfl⟩

/-! ## The exchange -/

/-- The session's user, and the tables once the personal organisation is in place. -/
def sessionUser (draw : Draw) (body : TokenRequest) (db : Db) : Option User :=
  (body.sessionToken.bind (db.findSession draw.now)).bind fun s => (Text.parseNat s.userId).bind db.findUser

def withPersonalOrg (draw : Draw) (user : User) (db : Db) : Db := (getOrCreatePersonalOrg draw user.id user.name db).2

theorem sessionExchange_ok (h : sessionExchange srv draw body db = (.ok resp, db')) :
    ∃ user, sessionUser draw body db = some user ∧
      sign srv draw.now (Text.ofNat user.id) (some user.name) (body.repoId.map Text.ofNat)
        (body.repoId.bind fun p => ((withPersonalOrg draw user db).resolveRepoRole user.id p).map RepoRole.asStr) =
          .ok resp.accessToken := by
  unfold sessionExchange at h
  unfold sessionUser
  cases hst : body.sessionToken with
  | none => rw [hst] at h; cases h
  | some st =>
    rw [hst] at h
    obtain ⟨session, s₁, h₁, hr₁⟩ := bind_eq_ok.1 h
    obtain ⟨hsession, rfl⟩ := orNotFound_ok (call_ok (mapErr_ok h₁))
    cases hid : Text.parseNat session.userId with
    | none => rw [hid] at hr₁; cases hr₁
    | some uid =>
      rw [hid] at hr₁
      obtain ⟨user, s₂, h₂, hr₂⟩ := bind_eq_ok.1 hr₁
      obtain ⟨huser, rfl⟩ := orNotFound_ok (call_ok (mapErr_ok h₂))
      obtain ⟨_, s₃, h₃, hr₃⟩ := bind_eq_ok.1 hr₂
      have hs₃ : s₃ = withPersonalOrg draw user s₂ := attempt_mapErr_ok h₃
      obtain ⟨role, s₄, h₄, hr₄⟩ := bind_eq_ok.1 hr₃
      obtain ⟨hrole, rfl⟩ := claimedRole_ok (mapErr_ok h₄)
      obtain ⟨access, s₅, h₅, hr₅⟩ := bind_eq_ok.1 hr₄
      obtain ⟨hsign, rfl⟩ := ofExcept_ok h₅
      obtain ⟨refresh, s₆, -, hr₆⟩ := bind_eq_ok.1 hr₅
      cases hr₆
      refine ⟨user, ?_, ?_⟩
      · simp only [Option.bind_some, hsession, hid, huser]
      · rw [← hs₃, ← hrole]
        exact hsign

theorem keySubject_ok {key : Text} {sub name : Text} {role : Option Text}
    (h : keySubject srv draw key db = (.ok (sub, name, role), db')) : db' = db ∧
      (key = srv.adminKey ∧ role = some "admin".toList ∨
        key ≠ srv.adminKey ∧ ∃ k, db.findKey srv.hashToken draw.now key = some k ∧
          sub = (k.userId.map Text.ofNat).getD k.id ∧ role = k.roleOverride) := by
  unfold keySubject at h
  split at h
  · cases h
    exact ⟨rfl, .inl ⟨‹_›, rfl⟩⟩
  · obtain ⟨k, s₁, h₁, hr₁⟩ := bind_eq_ok.1 h
    obtain ⟨hk, rfl⟩ := orNotFound_ok (call_ok (mapErr_ok h₁))
    cases hr₁
    exact ⟨rfl, .inr ⟨‹_›, k, hk, rfl, rfl⟩⟩

theorem apiKeyExchange_ok (h : apiKeyExchange srv draw body db = (.ok resp, db')) :
    ∃ key sub name role, body.apiKey = some key ∧ keySubject srv draw key db = (.ok (sub, name, role), db) ∧
      sign srv draw.now sub (some name) (body.repoId.map Text.ofNat) role = .ok resp.accessToken := by
  unfold apiKeyExchange at h
  cases hkey : body.apiKey with
  | none => rw [hkey] at h; cases h
  | some key =>
    rw [hkey] at h
    obtain ⟨⟨sub, name, role⟩, s₁, h₁, hr₁⟩ := bind_eq_ok.1 h
    obtain ⟨rfl, -⟩ := keySubject_ok h₁
    obtain ⟨access, s₂, h₂, hr₂⟩ := bind_eq_ok.1 hr₁
    obtain ⟨hsign, rfl⟩ := ofExcept_ok h₂
    cases hr₂
    exact ⟨key, sub, name, role, rfl, h₁, hsign⟩

theorem tokenExchangeHandler_ok (h : tokenExchangeHandler srv draw body db = (.ok resp, db')) :
    body.grantType = "session_exchange".toList ∧ sessionExchange srv draw body db = (.ok resp, db') ∨
      body.grantType = "api_key".toList ∧ apiKeyExchange srv draw body db = (.ok resp, db') := by
  unfold tokenExchangeHandler at h
  split_ifs at h with hs hk
  · exact .inl ⟨hs, h⟩
  · exact .inr ⟨hk, h⟩
  · cases h

/-! ## The permission check -/

/-- A request that is neither an administrator's nor a worker's is accepted on the role of its user, under its cap. -/
theorem requireRepoPermission_ok {fails : AuthCall → Bool} {id : AgentIdentity} {repo : Uuid} {required eff : RepoRole}
    (ha : id.isAdmin = false) (hw : id.roleOverride ≠ some "worker".toList)
    (h : (requireRepoPermission .server fails id repo required db).1 = .ok eff) :
    ∃ user role, id.userId = some user ∧ db.resolveRepoRole user repo = some role ∧ required.rank ≤ role.rank ∧
      ∀ cap, id.roleOverride = some cap → required.rank ≤ (RepoRole.fromDbStr cap).rank := by
  obtain ⟨s', h⟩ : ∃ s', requireRepoPermission .server fails id repo required db = (.ok eff, s') := ⟨_, Prod.ext h rfl⟩
  unfold requireRepoPermission at h
  rw [ha, if_neg Bool.false_ne_true, if_neg (by decide), if_neg hw] at h
  cases hu : id.userId with
  | none => rw [hu] at h; cases h
  | some user =>
    rw [hu] at h
    obtain ⟨r, s₁, h₁, hr₁⟩ := bind_eq_ok.1 h
    obtain ⟨hr, rfl⟩ := lookupRepoRole_ok (mapErr_ok h₁)
    cases r with
    | none => cases hr₁
    | some role =>
      refine ⟨user, role, rfl, hr, ?_⟩
      cases hcap : id.roleOverride with
      | none =>
        simp only [hcap] at hr₁
        split_ifs at hr₁ with hlt
        · cases hr₁
        · exact ⟨by omega, fun _ hc => by cases hc⟩
      | some cap =>
        simp only [hcap] at hr₁
        -- the lower of the two ranks is the one compared
        split_ifs at hr₁ with hlow hlt hlt
        · cases hr₁
        · exact ⟨by omega, fun c hc => by cases hc; omega⟩
        · cases hr₁
        · exact ⟨by omega, fun c hc => by cases hc; omega⟩

theorem requireRepoPermission_state (storage : StorageBackend) (fails : AuthCall → Bool) (identity : AgentIdentity)
    (p : Uuid) (required : RepoRole) (db : Db) : (requireRepoPermission storage fails identity p required db).2 = db := by
  have hsame : ∀ user, Keeps (fun s => s = db) (mapErr (fun _ => ApiError.internal) (lookupRepoRole fails user p)) := by
    intro user
    apply Keeps.mapErr
    unfold lookupRepoRole call
    exact keeps_ite (keeps_fail _ _) (keeps_read _ _)
  have hkeeps : Keeps (fun s => s = db) (requireRepoPermission storage fails identity p required) := by
    unfold requireRepoPermission
    refine keeps_ite (keeps_pure _ _) (keeps_ite (keeps_pure _ _) (keeps_ite ?_ ?_))
    · exact keeps_ite (keeps_ite (keeps_fail _ _) (keeps_pure _ _)) (keeps_fail _ _)
    · split
      · exact keeps_fail _ _
      · refine (hsame _).bind fun role => ?_
        split
        · exact keeps_fail _ _
        · exact keeps_ite (keeps_fail _ _) (keeps_pure _ _)
  exact hkeeps db rfl

theorem requireServerAdmin_iff {id : AgentIdentity} : requireServerAdmin id = .ok () ↔ id.isAdmin = true := by
  unfold requireServerAdmin
  cases id.isAdmin <;> simp

/-- A worker's token passes for writing on the repository it is scoped to. -/
theorem requireRepoPermission_worker {fails : AuthCall → Bool} {id : AgentIdentity} {repo : Uuid}
    (ha : id.isAdmin = false) (hw : id.roleOverride = some "worker".toList) (hs : id.jwtRepoScope = some repo) (db : Db) :
    requireRepoPermission .server fails id repo .write db = (.ok .write, db) := by
  unfold requireRepoPermission
  rw [ha, if_neg Bool.false_ne_true, if_neg (by decide), if_pos hw, if_pos hs, if_neg (by decide)]
  rfl

theorem requireRepoPermission_worker_unscoped {fails : AuthCall → Bool} {id : AgentIdentity} {repo : Uuid}
    {required eff : RepoRole} (ha : id.isAdmin = false) (hw : id.roleOverride = some "worker".toList)
    (hs : id.jwtRepoScope = none) : (requireRepoPermission .server fails id repo required db).1 ≠ .ok eff := by
  unfold requireRepoPermission
  rw [ha, if_neg Bool.false_ne_true, if_neg (by decide), if_pos hw, hs, if_neg (by simp)]
  intro h
  cases h

/-! ## Credentials -/

/-- What a request carries: a string that is no token of this server (a key, a session, anything), or the answer of
`token_exchange_handler` to a request made before. -/
inductive Credential where
  | plain (token : Text)
  | exchanged (draw : Draw) (body : TokenRequest) (db : Db)

namespace Credential

variable (srv)

def Presents : Credential → Text → Prop
  | .plain token, t => t = token ∧ ∀ now claims, verify srv now token ≠ .ok claims
  | .exchanged draw body db, t => ∃ resp db', tokenExchangeHandler srv draw body db = (.ok resp, db') ∧ resp.accessToken = t

/-- The bootstrap key, or a token obtained with it. -/
def Bootstrap : Credential → Prop
  | .plain token => token = srv.adminKey
  | .exchanged _ body _ => body.grantType = "api_key".toList ∧ body.apiKey = some srv.adminKey

/-- The user a credential belongs to, and the cap of the key. -/
def holder (draw : Draw) (db : Db) : Credential → Option (Uuid × Option Text)
  | .plain token =>
    (db.findKey srv.hashToken draw.now token).bind fun k => k.userId.map fun u => (u, k.roleOverride)
  | .exchanged draw₀ body db₀ =>
    if body.grantType = "session_exchange".toList then (sessionUser draw₀ body db₀).map fun u => (u.id, none)
    else (body.apiKey.bind (db₀.findKey srv.hashToken draw₀.now)).bind fun k => k.userId.map fun u => (u, k.roleOverride)

/-- The word in the token is not one that the middleware takes for something else: a session exchanged for a repository
where its user is not an admin, a key that is not capped at `admin`, nor a user's key capped at `worker` for some
repository. -/
def Confined : Credential → Prop
  | .plain _ => True
  | .exchanged draw body db =>
    (body.grantType = "session_exchange".toList → ∀ user repo, sessionUser draw body db = some user →
      body.repoId = some repo → (withPersonalOrg draw user db).resolveRepoRole user.id repo ≠ some .admin) ∧
    (body.grantType = "api_key".toList → ∀ key k, body.apiKey = some key → key ≠ srv.adminKey →
      db.findKey srv.hashToken draw.now key = some k → k.roleOverride ≠ some "admin".toList ∧
        ¬ (k.roleOverride = some "worker".toList ∧ k.userId.isSome ∧ body.repoId.isSome))

end Credential

/-- Whenever the token is presented, only the bootstrap key is the server's administrator, and a user's credential is
accepted only on the role of the user and under the cap of the key. -/
def NoEscalation (srv : AppState) (cred : Credential) (token : Text) : Prop :=
  ∀ draw db id, (authMiddleware srv draw token db).1 = .ok id →
    (requireServerAdmin id = .ok () → cred.Bootstrap srv) ∧
    (¬ cred.Bootstrap srv → ∀ user cap, cred.holder srv draw db = some (user, cap) → ∀ repo required eff,
      (requireRepoPermission .server draw.fails id repo required db).1 = .ok eff →
        (∃ role, db.resolveRepoRole user repo = some role ∧ required.rank ≤ role.rank) ∧
        ∀ c, cap = some c → required.rank ≤ (RepoRole.fromDbStr c).rank)

variable {cred : Credential}

/-- A plain string is accepted as what it is in the key table, or as the bootstrap key. -/
theorem authMiddleware_plain {id : AgentIdentity} (hn : ∀ now claims, verify srv now token ≠ .ok claims)
    (h : (authMiddleware srv draw token db).1 = .ok id) :
    (∃ k, db.findKey srv.hashToken draw.now token = some k ∧
      id = ⟨k.id, k.name, false, k.userId, k.roleOverride, none, .apiKey⟩) ∨ token = srv.adminKey := by
  obtain ⟨s', h⟩ : ∃ s', authMiddleware srv draw token db = (.ok id, s') := ⟨_, Prod.ext h rfl⟩
  unfold authMiddleware at h
  by_cases hdot : '.' ∈ token
  · rw [if_pos hdot] at h
    cases hv : verify srv draw.now token with
    | ok claims => exact absurd hv (hn _ _)
    | error e => rw [hv] at h; cases e <;> cases h
  · rw [if_neg hdot] at h
    obtain ⟨r, s₁, h₁, hr₁⟩ := bind_eq_ok.1 h
    have hread := call_ok (mapErr_ok h₁)
    rw [read_apply] at hread
    cases hk : db.findKey srv.hashToken draw.now token with
    | some k => rw [hk] at hread; cases hread; cases hr₁; exact .inl ⟨k, rfl, rfl⟩
    | none =>
      rw [hk] at hread
      cases hread
      by_cases hadmin : token = srv.adminKey
      · exact .inr hadmin
      · simp only [if_neg hadmin] at hr₁
        cases hr₁

theorem noEscalation_plain (hn : ∀ now claims, verify srv now token ≠ .ok claims) :
    NoEscalation srv (.plain token) token := by
  intro draw db id hid
  rcases authMiddleware_plain hn hid with ⟨k, hk, rfl⟩ | hadmin
  · refine ⟨fun h => absurd (requireServerAdmin_iff.1 h) (by simp), fun _ user cap hh repo required eff hreq => ?_⟩
    simp only [Credential.holder, hk, Option.bind_some, Option.map_eq_some_iff, Prod.mk.injEq] at hh
    obtain ⟨u, hu, rfl, rfl⟩ := hh
    by_cases hw : k.roleOverride = some "worker".toList
    · exact absurd hreq (requireRepoPermission_worker_unscoped rfl hw rfl)
    · obtain ⟨u', role, hu', hrole, hle, hcap⟩ := requireRepoPermission_ok rfl hw hreq
      obtain rfl : u = u' := Option.some.inj (hu.symm.trans hu')
      exact ⟨⟨role, hrole, hle⟩, hcap⟩
  · exact ⟨fun _ => hadmin, fun hb => absurd hadmin hb⟩

/-- A signed token with the role `"admin"` passes for the server's administrator. -/
theorem noEscalation_admin (hl : srv.jsonwebtoken.Lawful) {sub : Text} {name repoId : Option Text}
    (h : sign srv draw.now sub name repoId (some "admin".toList) = .ok token) (hs : NoEscalation srv cred token) :
    cred.Bootstrap srv := by
  have hid := authMiddleware_sign hl h draw ⟨[], [], [], [], [], [], [], []⟩
  rw [if_neg (by omega)] at hid
  exact (hs _ _ _ (congrArg Prod.fst hid)).1 (requireServerAdmin_iff.2 rfl)

/-- A signed token with another role than `"admin"` and `"worker"` gives its subject the subject's own role, under the
role as a cap. -/
theorem noEscalation_sign (hl : srv.jsonwebtoken.Lawful) {t : Nat} {sub : Text} {name repoId role : Option Text}
    (h : sign srv t sub name repoId role = .ok token) (ha : role ≠ some "admin".toList)
    (hw : role = some "worker".toList → ∀ draw db, repoId = none ∨ cred.holder srv draw db = none)
    (hh : ∀ draw db user cap, cred.holder srv draw db = some (user, cap) →
      sub = Text.ofNat user ∧ ∀ c, cap = some c → role = some c) : NoEscalation srv cred token := by
  intro draw db id hid
  rw [authMiddleware_sign hl h] at hid
  split_ifs at hid
  · obtain rfl : identityOf sub name repoId role = id := by cases hid; rfl
    have hadmin := identityOf_isAdmin sub name repoId ha
    refine ⟨fun hs => ?_, fun _ user cap hholder repo required eff hreq => ?_⟩
    · rw [requireServerAdmin_iff, hadmin] at hs
      cases hs
    · obtain ⟨rfl, hcap⟩ := hh draw db user cap hholder
      by_cases hworker : role = some "worker".toList
      · rcases hw hworker draw db with hnone | hnone
        · rw [hnone] at hreq
          exact absurd hreq (requireRepoPermission_worker_unscoped (by rw [← hnone]; exact hadmin) hworker rfl)
        · rw [hnone] at hholder
          cases hholder
      · obtain ⟨u', r, hu', hrole, hle, hle'⟩ := requireRepoPermission_ok hadmin hworker hreq
        obtain rfl : user = u' := by simpa [identityOf] using hu'
        exact ⟨⟨r, hrole, hle⟩, fun c hc => hle' c (hcap c hc)⟩

/-! ## The two grants -/

theorem noEscalation_session_iff (hl : srv.jsonwebtoken.Lawful) (hg : body.grantType = "session_exchange".toList)
    (h : sessionExchange srv draw body db = (.ok resp, db')) :
    NoEscalation srv (.exchanged draw body db) resp.accessToken ↔ (Credential.exchanged draw body db).Confined srv := by
  obtain ⟨user, huser, hsign⟩ := sessionExchange_ok h
  constructor
  · refine fun hs => ⟨fun _ user' repo hu hr hadmin => ?_, fun hk => by rw [hg] at hk; exact absurd hk (by decide)⟩
    obtain rfl : user = user' := Option.some.inj (huser.symm.trans hu)
    rw [hr, Option.bind_some, hadmin] at hsign
    have hb := (noEscalation_admin hl hsign hs).1
    rw [hg] at hb
    exact absurd hb (by decide)
  · rintro ⟨hc, -⟩
    have hrole : ∀ s, (body.repoId.bind fun p =>
        ((withPersonalOrg draw user db).resolveRepoRole user.id p).map RepoRole.asStr) = some s →
        s ≠ "admin".toList ∧ s ≠ "worker".toList := by
      intro s hs
      obtain ⟨repo, hr, hs⟩ := Option.bind_eq_some_iff.1 hs
      obtain ⟨r, hres, rfl⟩ := Option.map_eq_some_iff.1 hs
      refine ⟨fun hadmin => ?_, r.asStr_ne_worker⟩
      rw [RepoRole.asStr_eq_admin.1 hadmin] at hres
      exact hc hg user repo huser hr hres
    refine noEscalation_sign hl hsign (fun ha => (hrole _ ha).1 rfl) (fun hw => absurd rfl (hrole _ hw).2) ?_
    intro draw' db₁ u cap hh
    simp only [Credential.holder, hg, if_true, huser, Option.map_some, Option.some.injEq, Prod.mk.injEq] at hh
    obtain ⟨rfl, rfl⟩ := hh
    exact ⟨rfl, fun _ hc => by cases hc⟩

theorem noEscalation_apiKey_iff (hl : srv.jsonwebtoken.Lawful) (hg : body.grantType = "api_key".toList)
    (h : apiKeyExchange srv draw body db = (.ok resp, db')) :
    NoEscalation srv (.exchanged draw body db) resp.accessToken ↔ (Credential.exchanged draw body db).Confined srv := by
  obtain ⟨key, sub, name, role, hkey, hsub, hsign⟩ := apiKeyExchange_ok h
  have hns : ¬ body.grantType = "session_exchange".toList := by rw [hg]; decide
  rcases (keySubject_ok hsub).2 with ⟨rfl, rfl⟩ | ⟨hne, k, hk, rfl, rfl⟩
  · -- the bootstrap key: every right is its own
    refine iff_of_true (fun _ _ _ _ => ⟨fun _ => ⟨hg, hkey⟩, fun hb => absurd ⟨hg, hkey⟩ hb⟩) ?_
    exact ⟨fun hs => absurd hs hns, fun _ key' k hk' hne => by
      rw [hkey] at hk'
      exact absurd (Option.some.inj hk').symm hne⟩
  · have hholder : ∀ draw' db₁, (Credential.exchanged draw body db).holder srv draw' db₁ =
        k.userId.map fun u => (u, k.roleOverride) := by
      intro draw' db₁
      simp only [Credential.holder, if_neg hns, hkey, Option.bind_some, hk]
    constructor
    · refine fun hs => ⟨fun hg' => absurd hg' hns, fun _ key' k' hkey' _ hk' => ?_⟩
      obtain rfl : key = key' := Option.some.inj (hkey.symm.trans hkey')
      obtain rfl : k = k' := Option.some.inj (hk.symm.trans hk')
      have ha : k.roleOverride ≠ some "admin".toList := by
        intro ha
        rw [ha] at hsign
        have hb := (noEscalation_admin hl hsign hs).2
        exact hne (Option.some.inj (hkey.symm.trans hb))
      refine ⟨ha, fun ⟨hw, hu, hr⟩ => ?_⟩
      obtain ⟨u, hu⟩ := Option.isSome_iff_exists.1 hu
      obtain ⟨repo, hr⟩ := Option.isSome_iff_exists.1 hr
      -- writing passes on the repository named in the request, under a cap of rank 1
      have hid := authMiddleware_sign hl hsign draw db
      rw [if_neg (by omega)] at hid
      have hb : ¬ (Credential.exchanged draw body db).Bootstrap srv :=
        fun hb => hne (Option.some.inj (hkey.symm.trans hb.2))
      have hhold := hholder draw db
      rw [hu, hw] at hhold
      have hpass : requireRepoPermission .server draw.fails _ repo .write db = (.ok .write, db) :=
        requireRepoPermission_worker (identityOf_isAdmin ((k.userId.map Text.ofNat).getD k.id) (some name)
          (body.repoId.map Text.ofNat) ha) hw (by rw [hr]; simp [identityOf]) db
      have hrank := ((hs _ _ _ (congrArg Prod.fst hid)).2 hb u _ hhold repo .write .write
        (congrArg Prod.fst hpass)).2 _ rfl
      exact absurd hrank (by decide)
    · rintro ⟨-, hc⟩
      obtain ⟨ha, hw⟩ := hc hg key k hkey hne hk
      refine noEscalation_sign hl hsign ha (fun hworker draw' db₁ => ?_) ?_
      · cases hr : body.repoId with
        | none => exact .inl rfl
        | some repo =>
          right
          cases hu : k.userId with
          | none => rw [hholder, hu]; rfl
          | some u => exact absurd ⟨hworker, by rw [hu]; rfl, by rw [hr]; rfl⟩ hw
      · intro draw' db₁ u cap hh
        rw [hholder] at hh
        obtain ⟨u', hu, hpair⟩ := Option.map_eq_some_iff.1 hh
        cases hpair
        exact ⟨by rw [hu]; rfl, fun c hc => hc⟩

/-- **A credential gives its holder no more than the holder's own rights exactly when it is confined**: it is no token
that was exchanged from a session for a repository where the user is an admin, or from a key capped at `admin`, or from
a user's key capped at `worker`. -/
theorem noEscalation_iff (hl : srv.jsonwebtoken.Lawful) (h : cred.Presents srv token) :
    NoEscalation srv cred token ↔ cred.Confined srv := by
  cases cred with
  | plain t =>
    obtain ⟨rfl, hn⟩ := h
    exact iff_of_true (noEscalation_plain hn) trivial
  | exchanged draw body db =>
    obtain ⟨resp, db', hex, rfl⟩ := h
    rcases tokenExchangeHandler_ok hex with ⟨hg, hs⟩ | ⟨hg, hk⟩
    · exact noEscalation_session_iff hl hg hs
    · exact noEscalation_apiKey_iff hl hg hk

/-! ## A server with readable tokens -/

/-- Each character after an `x`, each field closed by a dot. -/
def packField (s : Text) : Text := s.flatMap (fun c => ['x', c]) ++ ['.']

def unpack : Text → Text → List Text
  | acc, '.' :: s => acc.reverse :: unpack [] s
  | acc, 'x' :: c :: s => unpack (c :: acc) s
  | _, _ => []

theorem unpack_packField : ∀ (s acc t : Text), unpack acc (packField s ++ t) = (acc.reverse ++ s) :: unpack [] t
  | [], acc, t => by simp [packField, unpack]
  | c :: s, acc, t => by
    have ih := unpack_packField s (c :: acc) t
    simp only [packField, List.flatMap_cons, List.append_assoc, List.cons_append, List.nil_append, unpack] at ih ⊢
    rw [ih, List.reverse_cons, List.append_assoc, List.singleton_append]

theorem unpack_flatMap : ∀ (l : List Text), unpack [] (l.flatMap packField) = l
  | [] => rfl
  | s :: l => by rw [List.flatMap_cons, unpack_packField, unpack_flatMap l, List.reverse_nil, List.nil_append]

def ofOption : Option Text → Text
  | none => []
  | some s => 'y' :: s

def toOption : Text → Option Text
  | [] => none
  | _ :: s => some s

theorem toOption_ofOption : ∀ (o : Option Text), toOption (ofOption o) = o
  | none => rfl
  | some _ => rfl

def fields (c : TokenClaims) (secret : Text) : List Text :=
  [secret, c.sub, ofOption c.name, ofOption c.repoId, ofOption c.role, Text.ofNat c.iat, Text.ofNat c.exp]

def ofFields (secret : Text) (leeway now : Nat) : List Text → Except DecodeError TokenClaims
  | [s, sub, name, repoId, role, iat, exp] =>
    if s ≠ secret then .error (.other "InvalidSignature".toList)
    else
      let exp := (Text.parseNat exp).getD 0
      if exp + leeway < now then .error .expiredSignature
      else .ok ⟨sub, toOption name, toOption repoId, toOption role, (Text.parseNat iat).getD 0, exp⟩
  | _ => .error (.other "InvalidToken".toList)

def readableTokens : JsonWebToken where
  encode c secret := .ok ((fields c secret).flatMap packField)
  decode token secret leeway now := ofFields secret leeway now (unpack [] token)

theorem ofFields_fields (c : TokenClaims) (secret : Text) (leeway now : Nat) : ofFields secret leeway now (fields c secret) =
    if c.exp + leeway < now then .error .expiredSignature else .ok c := by
  simp only [fields, ofFields, ne_eq, not_true, if_false, Text.parseNat_ofNat, Option.getD_some, toOption_ofOption]

theorem readableTokens_lawful : readableTokens.Lawful where
  decode_encode := by
    intro c secret token h leeway now
    obtain rfl : (fields c secret).flatMap packField = token := Except.ok.inj h
    show ofFields secret leeway now (unpack [] _) = _
    rw [unpack_flatMap, ofFields_fields]
  dot_mem := by
    intro c secret token h
    obtain rfl : (fields c secret).flatMap packField = token := Except.ok.inj h
    rw [fields, List.flatMap_cons, packField]
    exact List.mem_append_left _ (List.mem_append_right _ List.mem_cons_self)

/-- User 7 is a collaborator of repository 3 with the role `role`. -/
def collaboratorDb (role : Text) : Db where
  users := [⟨7, "ann".toList⟩]
  sessions := [⟨"s".toList, "7".toList, 10⟩]
  apiKeys := []
  organizations := []
  orgMembers := []
  repos := [⟨3, none⟩]
  repoCollaborators := [⟨3, 7, role⟩]
  refreshTokens := []

def readableServer : AppState where
  jsonwebtoken := readableTokens
  hashToken := id
  adminKey := "bootstrap".toList
  jwtService := ⟨"secret".toList, none, 900, 30⟩

def collaboratorDraw : Draw := ⟨0, 20, "r".toList, fun _ => false⟩

/-- The session of user 7, exchanged for a token of repository 3. -/
def collaboratorRequest : TokenRequest := ⟨"session_exchange".toList, some "s".toList, none, some 3⟩

theorem collaborator_exchanges (role : Text) : ∃ resp db',
    tokenExchangeHandler readableServer collaboratorDraw collaboratorRequest (collaboratorDb role) = (.ok resp, db') ∧
      sessionExchange readableServer collaboratorDraw collaboratorRequest (collaboratorDb role) = (.ok resp, db') :=
  ⟨_, _, rfl, rfl⟩

/-- A collaborator with the role `write` exchanges a session and gets no further than before. -/
theorem noEscalation_iff_write : ∃ token,
    (Credential.exchanged collaboratorDraw collaboratorRequest (collaboratorDb "write".toList)).Presents readableServer token ∧
      NoEscalation readableServer (.exchanged collaboratorDraw collaboratorRequest (collaboratorDb "write".toList)) token := by
  obtain ⟨resp, db', h, -⟩ := collaborator_exchanges "write".toList
  have hp : (Credential.exchanged collaboratorDraw collaboratorRequest (collaboratorDb "write".toList)).Presents
      readableServer resp.accessToken := ⟨resp, db', h, rfl⟩
  refine ⟨_, hp, (noEscalation_iff readableTokens_lawful hp).2 ⟨fun _ user repo hu hr => ?_, fun hg => ?_⟩⟩
  · cases hu
    cases hr
    decide
  · exact absurd hg (by decide)

/-- A collaborator with the role `admin` on one repository exchanges a session and is the server's administrator. -/
theorem repo_admin_becomes_server_admin : ∃ token,
    (Credential.exchanged collaboratorDraw collaboratorRequest (collaboratorDb "admin".toList)).Presents readableServer token ∧
      ¬ NoEscalation readableServer (.exchanged collaboratorDraw collaboratorRequest (collaboratorDb "admin".toList)) token := by
  obtain ⟨resp, db', h, hs⟩ := collaborator_exchanges "admin".toList
  refine ⟨resp.accessToken, ⟨resp, db', h, rfl⟩, fun hno => ?_⟩
  have hc := ((noEscalation_session_iff readableTokens_lawful rfl hs).1 hno).1 rfl ⟨7, "ann".toList⟩ 3 rfl rfl
  exact hc (by decide)

end Auth
end Vai
