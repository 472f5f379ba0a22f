import Vai.Escalation
import Vai.KeyRotation
import Vai.Steps
/-!
# KeyChain — what a key leads to

`create_key_handler` of `server/admin.rs` compares the cap of a new key with the role of its creator when a repository is
named, and with nothing when none is.  `token_exchange_handler` copies the cap into a token, where `"admin"` stands for
the administrator of the server.  So of all the keys that a client may begin with, those that belong to a user lead to the
administrator of the server, and those that do not lead nowhere (`serverAdmin_reached_iff`).

The client makes keys under the tokens that it has, and exchanges its keys; it has no session.
-/
namespace Vai
namespace KeyChain

open Auth Proc

/-! ## Tables -/

/-- The tables of `Auth`, with all the columns of `api_keys`. -/
structure Keyring where
  db : Db
  keys : List KeyRotation.ApiKey
deriving DecidableEq, Repr

/-- The columns of a key that are read to validate it. -/
def authRow (k : KeyRotation.ApiKey) : ApiKey := ⟨k.id, k.name, k.keyHash, k.revoked, k.userId, k.roleOverride, k.expiresAt⟩

def Keyring.tables (s : Keyring) : Db := { s.db with apiKeys := s.keys.map authRow }

/-- A call on the tables of `Auth`, which leaves the keys. -/
def onTables {ε α : Type} (m : Proc Db ε α) : Proc Keyring ε α := fun s =>
  ((m s.tables).1, { s with db := { (m s.tables).2 with apiKeys := s.db.apiKeys } })

/-- What a request draws from outside. -/
structure KeyDraw where
  auth : Draw
  id : Text
  fails : Bool

/-! ## `POST /api/keys` -/

structure CreateKeyRequest where
  name : Text
  repoId : Option Uuid
  forUserId : Option Uuid
  roleOverride : Option Text
  agentType : Option Text
  expiresAt : Option Nat
deriving DecidableEq, Repr

section Handler

variable (srv : AppState) (draw : KeyDraw)

/-- The user that the key is for. -/
def keyUser (identity : AgentIdentity) (body : CreateKeyRequest) : Except ApiError (Option Uuid) :=
  if identity.isAdmin then .ok body.forUserId
  else match identity.userId with
    | some u => .ok (some u)
    | none => .error (.forbidden "this key is not associated with a user; cannot create scoped keys".toList)

/-- The cap of the key.  An unknown word is `read`. -/
def keyCap (identity : AgentIdentity) (body : CreateKeyRequest) : Proc Keyring ApiError (Option Text) :=
  match body.roleOverride with
  | none => pure none
  | some r =>
    let parsed := RepoRole.fromDbStr r
    match identity.isAdmin, body.repoId with
    | false, some repoId => do
      let effective ← onTables (requireRepoPermission .server draw.auth.fails identity repoId .read)
      if effective.rank < parsed.rank then
        fail (.badRequest "role_override cannot exceed your own effective role on this repo".toList)
      else pure (some parsed.asStr)
    | _, _ => pure (some parsed.asStr)

/-- A new key refers to its user and to its repository. -/
def Keyring.known (s : Keyring) (req : KeyRotation.KeyRequest) : Bool :=
  req.userId.all (fun u => (s.db.findUser u).isSome) && req.repoId.all fun p => s.db.repos.any fun r => r.id = p

/-- `create_key`. -/
def insertKey (req : KeyRotation.KeyRequest) : Proc Keyring ApiError (KeyRotation.ApiKey × Text) := fun s =>
  if draw.fails then (.error .internal, s)
  else match KeyRotation.createKey srv.hashToken s.known req draw.id draw.auth.random draw.auth.now s.keys with
    | .ok (key, keys) => (.ok (key, draw.auth.random), { s with keys := keys })
    | .error _ => (.error .internal, s)

def createKeyHandler (identity : AgentIdentity) (body : CreateKeyRequest) :
    Proc Keyring ApiError (KeyRotation.ApiKey × Text) := do
  let userId ← Proc.ofExcept id (keyUser identity body)
  let roleOverride ← keyCap draw identity body
  insertKey srv draw ⟨body.repoId, body.name, userId, roleOverride, body.agentType, body.expiresAt⟩

end Handler

/-! ## A client -/

/-- The tables, and the tokens that the client has. -/
structure Client where
  ring : Keyring
  known : List Text

inductive Action where
  | create (draw : KeyDraw) (token : Text) (body : CreateKeyRequest)
  | exchange (draw : Draw) (key : Text) (repoId : Option Uuid)

/-- One request, under a token or with a key that the client has.  It keeps the token that it is given. -/
def step (srv : AppState) (a : Action) (c : Client) : Option Client :=
  match a with
  | .create draw token body =>
    if token ∈ c.known then
      match (authMiddleware srv draw.auth token c.ring.tables).1 with
      | .error _ => some c
      | .ok identity =>
        match createKeyHandler srv draw identity body c.ring with
        | (.ok r, ring) => some ⟨ring, c.known ++ [r.2]⟩
        | (.error _, ring) => some ⟨ring, c.known⟩
    else none
  | .exchange draw key repoId =>
    if key ∈ c.known then
      match onTables (tokenExchangeHandler srv draw ⟨"api_key".toList, none, some key, repoId⟩) c.ring with
      | (.ok resp, ring) => some ⟨ring, c.known ++ [resp.accessToken]⟩
      | (.error _, ring) => some ⟨ring, c.known⟩
    else none

/-- One of the tokens is accepted, at some time, as that of the administrator. -/
def Client.ServerAdmin (srv : AppState) (c : Client) : Prop :=
  ∃ token ∈ c.known, ∃ draw identity, (authMiddleware srv draw token c.ring.tables).1 = .ok identity ∧
    requireServerAdmin identity = .ok ()

/-- What the database and the digest see to: no two keys have a hash, a key's user is there, and no token with a dot has
the hash of a key. -/
structure Sound (srv : AppState) (s : Keyring) : Prop where
  hashes : (s.keys.map KeyRotation.ApiKey.keyHash).Nodup
  users : ∀ k ∈ s.keys, ∀ u, k.userId = some u → (s.db.findUser u).isSome = true
  dots : ∀ k ∈ s.keys, ∀ token, '.' ∈ token → k.keyHash ≠ srv.hashToken token
  adminKey : '.' ∉ srv.adminKey

/-! ## Keys without a user -/

section Userless

variable {srv : AppState} {draw : KeyDraw} {s : Keyring} {identity : AgentIdentity} {body : CreateKeyRequest}

theorem tables_onTables {ε α : Type} {m : Proc Db ε α} (h : (m s.tables).2 = s.tables) : (onTables m s).2 = s := by
  unfold onTables
  rw [h]
  rfl

theorem mem_of_findKey {now : Nat} {token : Text} {row : ApiKey} (h : s.tables.findKey srv.hashToken now token = some row) :
    ∃ k ∈ s.keys, authRow k = row ∧ k.keyHash = srv.hashToken token := by
  have hmem := List.mem_of_find?_eq_some h
  obtain ⟨k, hk, rfl⟩ := List.mem_map.1 hmem
  have hp := List.find?_some h
  simp only [Bool.and_eq_true, beq_iff_eq] at hp
  exact ⟨k, hk, rfl, hp.1.1⟩

theorem Sound.findKey_eq (hs : Sound srv s) {k : KeyRotation.ApiKey} (hk : k ∈ s.keys) {token : Text}
    (hash : k.keyHash = srv.hashToken token) {now : Nat} {row : ApiKey}
    (h : s.tables.findKey srv.hashToken now token = some row) : row = authRow k := by
  obtain ⟨k', hk', rfl, hash'⟩ := mem_of_findKey h
  rw [List.inj_on_of_nodup_map hs.hashes hk hk' (hash.trans hash'.symm)]

theorem Sound.findKey_dot (hs : Sound srv s) {token : Text} (hdot : '.' ∈ token) (now : Nat) :
    s.tables.findKey srv.hashToken now token = none := by
  cases h : s.tables.findKey srv.hashToken now token with
  | none => rfl
  | some row =>
    obtain ⟨k, hk, -, hash⟩ := mem_of_findKey h
    exact absurd hash (hs.dots k hk token hdot)

/-- Who a key stands for. -/
def keyIdentity (row : ApiKey) : AgentIdentity := ⟨row.id, row.name, false, row.userId, row.roleOverride, none, .apiKey⟩

theorem authMiddleware_key {draw : Draw} {db : Db} {token : Text} (hdot : '.' ∉ token)
    (h : (authMiddleware srv draw token db).1 = .ok identity) :
    (∃ row, db.findKey srv.hashToken draw.now token = some row ∧ identity = keyIdentity row) ∨ token = srv.adminKey := by
  obtain ⟨s', h⟩ : ∃ s', authMiddleware srv draw token db = (.ok identity, s') := ⟨_, Prod.ext h rfl⟩
  unfold authMiddleware at h
  rw [if_neg hdot] at h
  obtain ⟨r, s₁, h₁, hr₁⟩ := bind_eq_ok.1 h
  have hread := call_ok (mapErr_ok h₁)
  rw [read_apply] at hread
  cases hk : db.findKey srv.hashToken draw.now token with
  | some k =>
    rw [hk] at hread
    cases hread
    cases hr₁
    exact .inl ⟨k, rfl, rfl⟩
  | none =>
    rw [hk] at hread
    cases hread
    by_cases hadmin : token = srv.adminKey
    · exact .inr hadmin
    · simp only [if_neg hadmin] at hr₁
      cases hr₁

theorem createKeyHandler_userless (hs : Sound srv s) (ha : identity.isAdmin = false)
    (hu : ∀ u, identity.userId = some u → s.db.findUser u = none) :
    ∃ e, createKeyHandler srv draw identity body s = (.error e, s) := by
  unfold createKeyHandler
  cases hid : identity.userId with
  | none =>
    have huser : keyUser identity body =
        .error (.forbidden "this key is not associated with a user; cannot create scoped keys".toList) := by
      unfold keyUser
      rw [ha, hid, if_neg Bool.false_ne_true]
    rw [huser]
    exact ⟨_, rfl⟩
  | some u =>
    have huser : keyUser identity body = .ok (some u) := by
      unfold keyUser
      rw [ha, hid, if_neg Bool.false_ne_true]
    rw [huser]
    change ∃ e, (keyCap draw identity body >>= _) s = _
    have hcap : (keyCap draw identity body s).2 = s := by
      have hperm : ∀ p, Keeps (fun t => t = s) (onTables (requireRepoPermission .server draw.auth.fails identity p .read)) := by
        rintro p t rfl
        exact tables_onTables (requireRepoPermission_state .server draw.auth.fails identity p .read t.tables)
      have hkeeps : Keeps (fun t => t = s) (keyCap draw identity body) := by
        unfold keyCap
        split
        · exact keeps_pure _ _
        · dsimp only
          split
          · exact (hperm _).bind fun effective => keeps_ite (keeps_fail _ _) (keeps_pure _ _)
          · exact keeps_pure _ _
      exact hkeeps s rfl
    rw [bind_apply]
    rcases hres : keyCap draw identity body s with ⟨e | cap, s'⟩
    · rw [hres] at hcap
      exact ⟨e, by rw [show s' = s from hcap]⟩
    · rw [hres] at hcap
      obtain rfl : s' = s := hcap
      -- the row would refer to a user who is not there
      have hnone : s'.keys.find? (KeyRotation.KeyRequest.takes
          ⟨body.repoId, body.name, some u, cap, body.agentType, body.expiresAt⟩) = none := by
        apply List.find?_eq_none.2
        intro k hk htakes
        obtain ⟨w, hw, hactive⟩ := KeyRotation.takes_iff.1 htakes
        obtain rfl := Option.some.inj hw
        unfold KeyRotation.ApiKey.activeName at hactive
        split at hactive
        · cases hactive
        · obtain ⟨v, hv, hpair⟩ := Option.map_eq_some_iff.1 hactive
          have hvu : v = u := (Prod.ext_iff.1 hpair).1
          have hthere := hs.users k hk v hv
          rw [hvu, hu u hid] at hthere
          cases hthere
      have hknown : s'.known ⟨body.repoId, body.name, some u, cap, body.agentType, body.expiresAt⟩ = false := by
        simp [Keyring.known, hu u hid]
      dsimp only
      unfold insertKey KeyRotation.createKey
      simp only [hnone, hknown]
      split
      · exact ⟨_, rfl⟩
      · split
        · rename_i heq
          split at heq <;> cases heq
        · exact ⟨_, rfl⟩

/-- `key` is the key `k`, not the bootstrap key; it has no user, not even one of its identifier, and is not capped at
`admin`. -/
structure Userless (srv : AppState) (s : Keyring) (k : KeyRotation.ApiKey) (key : Text) : Prop where
  mem : k ∈ s.keys
  hash : k.keyHash = srv.hashToken key
  dot : '.' ∉ key
  plain : key ≠ srv.adminKey
  noUser : k.userId = none
  nobody : ∀ u, Text.parseNat k.id = some u → s.db.findUser u = none
  role : k.roleOverride ≠ some "admin".toList

/-- What a client has that began with the key `k`: the key, and tokens that it was exchanged for. -/
def FromKey (srv : AppState) (k : KeyRotation.ApiKey) (key token : Text) : Prop :=
  token = key ∨ ∃ now name repoId, sign srv now k.id (some name) repoId k.roleOverride = .ok token

variable {k : KeyRotation.ApiKey} {key token : Text}

/-- Who such a token stands for: nobody that there is, and not the administrator. -/
theorem FromKey.nobody (hl : srv.jsonwebtoken.Lawful) (hs : Sound srv s) (h : Userless srv s k key)
    (hfrom : FromKey srv k key token) {draw : Draw} (hok : (authMiddleware srv draw token s.tables).1 = .ok identity) :
    identity.isAdmin = false ∧ ∀ u, identity.userId = some u → s.db.findUser u = none := by
  rcases hfrom with rfl | ⟨now, name, repoId, hsign⟩
  · rcases authMiddleware_key h.dot hok with ⟨row, hrow, rfl⟩ | hadmin
    · rw [hs.findKey_eq h.mem h.hash hrow]
      refine ⟨rfl, fun u hu => ?_⟩
      rw [show (keyIdentity (authRow k)).userId = none from h.noUser] at hu
      cases hu
    · exact absurd hadmin h.plain
  · rw [authMiddleware_sign hl hsign] at hok
    split_ifs at hok
    obtain rfl := Except.ok.inj hok
    exact ⟨identityOf_isAdmin _ _ _ h.role, h.nobody⟩

/-- What it is exchanged for is such a token again. -/
theorem FromKey.exchange (hl : srv.jsonwebtoken.Lawful) (hs : Sound srv s) (h : Userless srv s k key)
    (hfrom : FromKey srv k key token) {draw : Draw} {repoId : Option Uuid} {resp : TokenResponse} {db : Db}
    (hok : tokenExchangeHandler srv draw ⟨"api_key".toList, none, some token, repoId⟩ s.tables = (.ok resp, db)) :
    FromKey srv k key resp.accessToken := by
  rcases tokenExchangeHandler_ok hok with ⟨hgrant, -⟩ | ⟨-, hex⟩
  · exact absurd (show "api_key".toList = "session_exchange".toList from hgrant) (by decide)
  · obtain ⟨token', sub, name, role, htok, hsubject, hsign⟩ := apiKeyExchange_ok hex
    obtain rfl := Option.some.inj htok
    have hne : token ≠ srv.adminKey := by
      rcases hfrom with rfl | ⟨now, name', repoId', hsigned⟩
      · exact h.plain
      · intro heq
        exact hs.adminKey (heq ▸ dot_mem_sign hl hsigned)
    rcases (keySubject_ok hsubject).2 with ⟨hadmin, -⟩ | ⟨-, row, hrow, rfl, rfl⟩
    · exact absurd hadmin hne
    · rcases hfrom with rfl | ⟨now, name', repoId', hsigned⟩
      · obtain rfl := hs.findKey_eq h.mem h.hash hrow
        rw [show (authRow k).userId = none from h.noUser] at hsign
        exact .inr ⟨_, _, _, hsign⟩
      · rw [hs.findKey_dot (dot_mem_sign hl hsigned)] at hrow
        cases hrow

theorem tokenExchange_state (draw : Draw) (token : Text) (repoId : Option Uuid) (db : Db) :
    (tokenExchangeHandler srv draw ⟨"api_key".toList, none, some token, repoId⟩ db).2 = db := by
  have hsubject : Keeps (fun t => t = db) (keySubject srv draw token) := by
    refine keeps_ite (keeps_pure _ _) ((Keeps.mapErr (keeps_ite (keeps_fail _ _) ?_) _).bind fun _ => keeps_pure _ _)
    refine (keeps_read _ _).bind fun row => ?_
    split
    · exact keeps_pure _ _
    · exact keeps_fail _ _
  have hkeeps : Keeps (fun t => t = db) (apiKeyExchange srv draw ⟨"api_key".toList, none, some token, repoId⟩) :=
    hsubject.bind fun _ => (keeps_ofExcept _ _ _).bind fun _ => keeps_pure _ _
  exact hkeeps db rfl

/-- **A client with a key that has no user and is not capped at `admin` never changes the tables, and what it has stands for
nobody.** -/
theorem userless_run (hl : srv.jsonwebtoken.Lawful) (hs : Sound srv s) (h : Userless srv s k key)
    {l : List (Steps.Turn Action Client)} {c : Client} (hran : Steps.Ran (step srv) ⟨s, [key]⟩ l c) :
    c.ring = s ∧ ∀ token ∈ c.known, FromKey srv k key token := by
  refine @Steps.Ran.keeps _ _ _ _ _ _ (fun c => c.ring = s ∧ ∀ token ∈ c.known, FromKey srv k key token)
    (fun _ _ => True) ?_ ⟨rfl, fun token ht => .inl (List.mem_singleton.1 ht)⟩ hran fun _ _ => trivial
  rintro a c c' ⟨hring, hknown⟩ - hstep
  cases a with
  | create draw token body =>
    simp only [step] at hstep
    split_ifs at hstep with htoken
    rw [hring] at hstep
    cases hauth : (authMiddleware srv draw.auth token s.tables).1 with
    | error e =>
      rw [hauth] at hstep
      obtain rfl := Option.some.inj hstep
      exact ⟨hring, hknown⟩
    | ok identity =>
      obtain ⟨ha, hu⟩ := (hknown token htoken).nobody hl hs h hauth
      have hnone : ∃ e, createKeyHandler srv draw identity body s = (.error e, s) := createKeyHandler_userless hs ha hu
      obtain ⟨e, hrefused⟩ := hnone
      rw [hauth] at hstep
      simp only [hrefused] at hstep
      obtain rfl := Option.some.inj hstep
      exact ⟨rfl, hknown⟩
  | exchange draw token repoId =>
    simp only [step] at hstep
    split_ifs at hstep with htoken
    rw [hring] at hstep
    have hstate := tables_onTables (@tokenExchange_state srv draw token repoId s.tables)
    rcases hres : onTables (tokenExchangeHandler srv draw ⟨"api_key".toList, none, some token, repoId⟩) s with ⟨e | resp, ring⟩
    · rw [hres] at hstate hstep
      obtain rfl := Option.some.inj hstep
      exact ⟨hstate, hknown⟩
    · rw [hres] at hstate hstep
      obtain rfl := Option.some.inj hstep
      have hok : (tokenExchangeHandler srv draw ⟨"api_key".toList, none, some token, repoId⟩ s.tables).1 = .ok resp :=
        congrArg Prod.fst hres
      refine ⟨hstate, fun t ht => ?_⟩
      rcases List.mem_append.1 ht with ht | ht
      · exact hknown t ht
      · rw [List.mem_singleton.1 ht]
        exact (hknown token htoken).exchange hl hs h (Prod.ext hok rfl)

end Userless

/-! ## Keys of a user -/

section User

variable {srv : AppState} {s : Keyring} {key token : Text}

/-- The calls succeed. -/
def quiet (now : Nat) (random : Text) : Draw := ⟨now, 0, random, fun _ => false⟩

theorem authMiddleware_of_findKey {now : Nat} {random : Text} {db : Db} {row : ApiKey} (hdot : '.' ∉ key)
    (h : db.findKey srv.hashToken now key = some row) :
    authMiddleware srv (quiet now random) key db = (.ok (keyIdentity row), db) := by
  have hread : mapErr (fun _ => ApiError.internal) (Auth.call (quiet now random).fails .validateKey (Proc.read fun db =>
      db.findKey srv.hashToken (quiet now random).now key)) db = (.ok (some row), db) :=
    mapErr_of_ok (congrArg (fun r => (Except.ok r, db)) h)
  unfold authMiddleware
  rw [if_neg hdot, bind_of_ok hread]
  rfl

/-- A key that is capped at `admin` is exchanged for a token of the administrator. -/
theorem exchange_admin (hl : srv.jsonwebtoken.Lawful)
    (hsigns : ∀ claims, ∃ t, srv.jsonwebtoken.encode claims srv.jwtService.currentSecret = .ok t) {now : Nat} {row : ApiKey}
    (hkey : key ≠ srv.adminKey) (h : s.tables.findKey srv.hashToken now key = some row)
    (hrole : row.roleOverride = some "admin".toList) (known : List Text) (hmem : key ∈ known) :
    ∃ c, step srv (.exchange (quiet now []) key none) ⟨s, known⟩ = some c ∧ c.ServerAdmin srv := by
  have hread : mapErr (asUnauthorized "invalid or revoked API key".toList) (Auth.call (quiet now []).fails .validateKey
      (orNotFound (fun db => db.findKey srv.hashToken (quiet now []).now key) "invalid or revoked API key".toList)) s.tables =
        (.ok row, s.tables) := by
    apply mapErr_of_ok
    change orNotFound (fun db => db.findKey srv.hashToken now key) "invalid or revoked API key".toList s.tables = _
    unfold orNotFound
    rw [bind_of_ok (read_apply _ _), h]
    rfl
  have hsubject : keySubject srv (quiet now []) key s.tables =
      (.ok ((row.userId.map Text.ofNat).getD row.id, row.name, row.roleOverride), s.tables) := by
    unfold keySubject
    rw [if_neg hkey, bind_of_ok hread]
    rfl
  obtain ⟨token, henc⟩ := hsigns ⟨(row.userId.map Text.ofNat).getD row.id, some row.name, none, row.roleOverride, now,
    now + srv.jwtService.accessTokenTtl⟩
  have hsign : sign srv now ((row.userId.map Text.ofNat).getD row.id) (some row.name) none row.roleOverride = .ok token := by
    unfold sign
    rw [henc]
  have hexchange : tokenExchangeHandler srv (quiet now []) ⟨"api_key".toList, none, some key, none⟩ s.tables =
      (.ok ⟨token, "Bearer".toList, srv.jwtService.accessTokenTtl, none⟩, s.tables) := by
    change (keySubject srv (quiet now []) key >>= _) s.tables = _
    rw [bind_of_ok hsubject]
    change (Proc.ofExcept _ (sign srv now _ (some row.name) none row.roleOverride) >>= _) s.tables = _
    rw [hsign]
    rfl
  have honTables : onTables (tokenExchangeHandler srv (quiet now []) ⟨"api_key".toList, none, some key, none⟩) s =
      (.ok ⟨token, "Bearer".toList, srv.jwtService.accessTokenTtl, none⟩, s) := by
    unfold onTables
    rw [hexchange]
    rfl
  refine ⟨⟨s, known ++ [token]⟩, ?_, token, by simp, quiet now [],
    identityOf ((row.userId.map Text.ofNat).getD row.id) (some row.name) none row.roleOverride, ?_, ?_⟩
  · simp only [step, if_pos hmem]
    rw [honTables]
  · rw [authMiddleware_sign hl hsign, if_neg (by simp [quiet]; omega)]
  · rw [hrole]
    rfl

/-- A key without a repository is capped at whatever is asked for. -/
def adminKeyRequest (name : Text) : CreateKeyRequest := ⟨name, none, none, some "admin".toList, none, none⟩

/-- The key that such a request makes. -/
def adminKeyRow (srv : AppState) (now : Nat) (id token name : Text) (u : Uuid) : KeyRotation.ApiKey :=
  KeyRotation.KeyRequest.row srv.hashToken ⟨none, name, some u, some "admin".toList, none, none⟩ id token now

theorem createKeyHandler_user {identity : AgentIdentity} {u : Uuid} {now : Nat} {id name : Text} (ha : identity.isAdmin = false)
    (hu : identity.userId = some u) (hthere : (s.db.findUser u).isSome = true) (hname : ∀ k ∈ s.keys, k.name ≠ name)
    (hfresh : ∀ k ∈ s.keys, k.id ≠ id ∧ k.keyHash ≠ srv.hashToken token) :
    createKeyHandler srv ⟨quiet now token, id, false⟩ identity (adminKeyRequest name) s =
      (.ok (adminKeyRow srv now id token name u, token), { s with keys := s.keys ++ [adminKeyRow srv now id token name u] }) := by
  have huser : keyUser identity (adminKeyRequest name) = .ok (some u) := by
    unfold keyUser
    rw [ha, hu, if_neg Bool.false_ne_true]
  have hcap : keyCap ⟨quiet now token, id, false⟩ identity (adminKeyRequest name) s = (.ok (some "admin".toList), s) := by
    unfold keyCap adminKeyRequest
    rw [ha]
    rfl
  have hnone : s.keys.find? (KeyRotation.KeyRequest.takes ⟨none, name, some u, some "admin".toList, none, none⟩) = none := by
    apply List.find?_eq_none.2
    intro k hk htakes
    obtain ⟨w, -, hactive⟩ := KeyRotation.takes_iff.1 htakes
    unfold KeyRotation.ApiKey.activeName at hactive
    split at hactive
    · cases hactive
    · obtain ⟨v, -, hpair⟩ := Option.map_eq_some_iff.1 hactive
      exact hname k hk (Prod.ext_iff.1 hpair).2
  have hany : s.keys.any (fun k => k.id = id || k.keyHash = srv.hashToken token) = false := by
    rw [List.any_eq_false]
    intro k hk
    simp [hfresh k hk]
  have hknown : s.known ⟨none, name, some u, some "admin".toList, none, none⟩ = true := by
    simp [Keyring.known, hthere]
  have hcreate : KeyRotation.createKey srv.hashToken s.known ⟨none, name, some u, some "admin".toList, none, none⟩ id token now
      s.keys = .ok (adminKeyRow srv now id token name u, s.keys ++ [adminKeyRow srv now id token name u]) := by
    unfold KeyRotation.createKey
    simp only [hnone, hknown]
    rw [if_neg (by rw [← Bool.not_eq_true] at hany; exact hany)]
    rfl
  unfold createKeyHandler
  rw [huser]
  change (keyCap ⟨quiet now token, id, false⟩ identity (adminKeyRequest name) >>= _) s = _
  rw [bind_of_ok hcap]
  change insertKey srv ⟨quiet now token, id, false⟩ ⟨none, name, some u, some "admin".toList, none, none⟩ s = _
  unfold insertKey
  rw [if_neg Bool.false_ne_true]
  change (match KeyRotation.createKey srv.hashToken s.known _ id token now s.keys with
    | .ok (key, keys) => _
    | .error _ => _) = _
  rw [hcreate]
  rfl

theorem findKey_new {now : Nat} {id name : Text} {u : Uuid} (hfresh : ∀ k ∈ s.keys, k.keyHash ≠ srv.hashToken token) :
    ({ s with keys := s.keys ++ [adminKeyRow srv now id token name u] } : Keyring).tables.findKey srv.hashToken now token =
      some (authRow (adminKeyRow srv now id token name u)) := by
  unfold Keyring.tables Db.findKey
  dsimp only
  have hold : (s.keys.map authRow).find? (fun k => k.keyHash == srv.hashToken token && !k.revoked &&
      k.expiresAt.all fun e => decide (now < e)) = none := by
    apply List.find?_eq_none.2
    intro row hrow
    obtain ⟨k, hk, rfl⟩ := List.mem_map.1 hrow
    simp [authRow, hfresh k hk]
  rw [List.map_append, List.find?_append, hold]
  simp [authRow, adminKeyRow, KeyRotation.KeyRequest.row]

theorem exists_name (s : Keyring) : ∃ name, ∀ k ∈ s.keys, k.name ≠ name := by
  obtain ⟨name, hname⟩ := Infinite.exists_notMem_finset (s.keys.map KeyRotation.ApiKey.name).toFinset
  exact ⟨name, fun k hk h => hname (List.mem_toFinset.2 (List.mem_map.2 ⟨k, hk, h⟩))⟩

/-- **A client that begins with one key, not the bootstrap key, comes to be the administrator of the server exactly when the
key belongs to a user, or is capped at `admin`.**  Any other cap is of no account. -/
theorem serverAdmin_reached_iff (hl : srv.jsonwebtoken.Lawful)
    (hsigns : ∀ claims, ∃ t, srv.jsonwebtoken.encode claims srv.jwtService.currentSecret = .ok t) (hs : Sound srv s)
    {k : KeyRotation.ApiKey} (hk : k ∈ s.keys) {now : Nat} (hdot : '.' ∉ key) (hkey : key ≠ srv.adminKey)
    (hvalid : s.tables.findKey srv.hashToken now key = some (authRow k))
    (hid : ∀ u, Text.parseNat k.id = some u → s.db.findUser u = none)
    {id : Text} (htoken : token ≠ srv.adminKey) (hfresh : ∀ k ∈ s.keys, k.id ≠ id ∧ k.keyHash ≠ srv.hashToken token) :
    (∃ l c, Steps.Ran (step srv) ⟨s, [key]⟩ l c ∧ c.ServerAdmin srv) ↔
      k.userId.isSome = true ∨ k.roleOverride = some "admin".toList := by
  obtain ⟨k', hk', hrow, hash⟩ := mem_of_findKey hvalid
  have hash : k.keyHash = srv.hashToken key := (congrArg ApiKey.keyHash hrow).symm.trans hash
  constructor
  · rintro ⟨l, c, hran, t, ht, draw, identity, hok, hadmin⟩
    by_contra hnone
    rw [not_or, Bool.not_eq_true, Option.isSome_eq_false_iff, Option.isNone_iff_eq_none] at hnone
    have huserless : Userless srv s k key := ⟨hk, hash, hdot, hkey, hnone.1, hid, hnone.2⟩
    obtain ⟨hring, hknown⟩ := userless_run hl hs huserless hran
    rw [hring] at hok
    have hplain := ((hknown t ht).nobody hl hs huserless hok).1
    rw [requireServerAdmin_iff, hplain] at hadmin
    cases hadmin
  · rintro (huser | hrole)
    · obtain ⟨u, hu⟩ := Option.isSome_iff_exists.1 huser
      obtain ⟨name, hname⟩ := exists_name s
      -- a key without a repository, capped at `admin`, and then the token that it is exchanged for
      have hmiddle : authMiddleware srv (quiet now token) key s.tables = (.ok (keyIdentity (authRow k)), s.tables) :=
        authMiddleware_of_findKey hdot hvalid
      have hcreate : createKeyHandler srv ⟨quiet now token, id, false⟩ (keyIdentity (authRow k)) (adminKeyRequest name) s = _ :=
        createKeyHandler_user rfl hu (hs.users k hk u hu) hname hfresh
      have hfirst : step srv (.create ⟨quiet now token, id, false⟩ key (adminKeyRequest name)) ⟨s, [key]⟩ =
          some ⟨{ s with keys := s.keys ++ [adminKeyRow srv now id token name u] }, [key, token]⟩ := by
        simp only [step, List.mem_singleton, if_true]
        rw [hmiddle]
        dsimp only
        rw [hcreate]
        rfl
      obtain ⟨c, hsecond, hadmin⟩ := exchange_admin hl hsigns htoken (findKey_new fun k hk => (hfresh k hk).2) rfl
        [key, token] (by simp)
      exact ⟨_, c, (Steps.Ran.start.next _ hfirst).next _ hsecond, hadmin⟩
    · obtain ⟨c, hstep, hadmin⟩ := exchange_admin hl hsigns hkey hvalid hrole [key] (by simp)
      exact ⟨_, c, Steps.Ran.start.next _ hstep, hadmin⟩

end User

/-! ### A reader -/

/-- A key of user `7`, capped at `read`. -/
def readerKey : KeyRotation.ApiKey :=
  ⟨"k1".toList, none, "laptop".toList, "reader".toList, "reader".toList, some 7, some "read".toList, none, none, none, 0, false⟩

def readerRing : Keyring := ⟨⟨[⟨7, "ann".toList⟩], [], [], [], [], [], [], []⟩, [readerKey]⟩

theorem sound_readerRing : Sound readableServer readerRing where
  hashes := List.nodup_singleton _
  users := by
    intro k hk u hu
    rw [List.mem_singleton.1 hk] at hu
    obtain rfl := Option.some.inj hu
    rfl
  dots := by
    rintro k hk token hdot hash
    rw [List.mem_singleton.1 hk] at hash
    obtain rfl : "reader".toList = token := hash
    exact absurd hdot (by decide)
  adminKey := by decide

/-- The key of a reader leads to the administrator of the server. -/
theorem serverAdmin_reached_reader :
    ∃ l c, Steps.Ran (step readableServer) ⟨readerRing, ["reader".toList]⟩ l c ∧ c.ServerAdmin readableServer := by
  have hfresh : ∀ k ∈ readerRing.keys, k.id ≠ "k2".toList ∧ k.keyHash ≠ readableServer.hashToken "f00d".toList := by
    intro k hk
    rw [List.mem_singleton.1 hk]
    decide
  have hsigns : ∀ claims, ∃ t, readableServer.jsonwebtoken.encode claims readableServer.jwtService.currentSecret = .ok t :=
    fun _ => ⟨_, rfl⟩
  have hid : ∀ u, Text.parseNat readerKey.id = some u → readerRing.db.findUser u = none := by
    intro u hu
    rw [show Text.parseNat readerKey.id = none by decide] at hu
    cases hu
  exact (serverAdmin_reached_iff readableTokens_lawful hsigns sound_readerRing (List.mem_singleton.2 rfl) (by decide)
    (by decide) (show readerRing.tables.findKey readableServer.hashToken 0 "reader".toList = some (authRow readerKey) from rfl) hid
    (by decide) hfresh).2 (.inl rfl)

end KeyChain
end Vai
