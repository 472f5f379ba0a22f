import Vai.Backend
import Vai.Rows
import Vai.Steps
/-!
# RefreshTokens — the table `refresh_tokens` (`storage/postgres/auth.rs`)

A refresh token is drawn, its SHA-256 digest is stored, and it is handed out behind `rt_`; `validate_refresh_token` and
`revoke_refresh_token` take the digest of the token as it is handed in.  So what is handed out is never found, and what
is found was never handed out.

`refresh_works_iff`: after any calls, `validate_refresh_token` tells the tokens that work exactly where the token was not
handed out with its expiry ahead, and is not the drawn part of such a token either, unless revoked as that.

Times are seconds.  Statements of the database that fail are left out.
-/
namespace Vai
namespace RefreshTokens

open Proc Rows Steps

/-- What `random_token(64)` draws: sixty-four hexadecimal digits. -/
structure RandomToken where
  text : Text
  length : text.length = 64
  hex : ∀ c ∈ text, c ∈ "0123456789abcdef".toList

structure RefreshToken where
  userId : Uuid
  tokenHash : Text
  expiresAt : Nat
  revokedAt : Option Nat
deriving DecidableEq, Repr

structure AuthDb where
  users : List Uuid
  refreshTokens : List RefreshToken
deriving DecidableEq, Repr

variable (hashToken : Text → Text)

/-- The user has to exist, and the digest is unique. -/
def createRefreshToken (userId : Uuid) (expiresAt : Nat) (random : RandomToken) : Proc AuthDb StorageError Text := do
  let tokenHash := hashToken random.text
  if ← Proc.read (fun db => !db.users.contains userId || db.refreshTokens.any (fun r => r.tokenHash = tokenHash)) then
    fail (.database [])
  else
    modify fun db => { db with refreshTokens := db.refreshTokens ++ [⟨userId, tokenHash, expiresAt, none⟩] }
    pure ("rt_".toList ++ random.text)

/-- The row that `validate_refresh_token` asks for. -/
def accepts (token : Text) (now : Nat) (r : RefreshToken) : Bool :=
  r.tokenHash = hashToken token && r.expiresAt > now && r.revokedAt.isNone

def validateRefreshToken (token : Text) (now : Nat) : Proc AuthDb StorageError Uuid := do
  match ← Proc.read (fun db => db.refreshTokens.find? (accepts hashToken token now)) with
  | some r => pure r.userId
  | none => fail (.notFound "invalid, expired, or revoked refresh token".toList)

/-- The rows that `revoke_refresh_token` writes. -/
def revocable (token : Text) (r : RefreshToken) : Bool := r.tokenHash = hashToken token && r.revokedAt.isNone

def revokeRefreshToken (token : Text) (now : Nat) : Proc AuthDb StorageError Unit := do
  let rowsAffected ← Proc.read fun db => db.refreshTokens.countP (revocable hashToken token)
  modify fun db => { db with
    refreshTokens := updateWhere (revocable hashToken token) (fun r => { r with revokedAt := some now }) db.refreshTokens }
  if rowsAffected = 0 then fail (.notFound "refresh token not found or already revoked".toList) else pure ()

inductive Call where
  | create (userId : Uuid) (expiresAt : Nat) (random : RandomToken)
  | validate (token : Text) (now : Nat)
  | revoke (token : Text) (now : Nat)

/-- Every call is answered. -/
def step (c : Call) (db : AuthDb) : Option AuthDb :=
  some <| match c with
    | .create userId expiresAt random => (createRefreshToken hashToken userId expiresAt random db).2
    | .validate token now => (validateRefreshToken hashToken token now db).2
    | .revoke token now => (revokeRefreshToken hashToken token now db).2

/-- The texts that a call takes the digest of. -/
def Call.digested : Call → Text
  | .create _ _ random => random.text
  | .validate token _ => token
  | .revoke token _ => token

/-! ## What the calls so far promise -/

abbrev History := List (Turn Call AuthDb)

/-- A creation in the history that drew `random` and returned `token`, and what came after it. -/
def Issued (l : History) (userId : Uuid) (expiresAt : Nat) (random : RandomToken) (token : Text) (later : History) : Prop :=
  ∃ earlier db, l = earlier ++ ⟨.create userId expiresAt random, db⟩ :: later ∧
    (createRefreshToken hashToken userId expiresAt random db).1 = .ok token

/-- A call revoked the token. -/
def Revoked (t : Turn Call AuthDb) (token : Text) : Prop :=
  ∃ now, t.action = .revoke token now ∧ (revokeRefreshToken hashToken token now t.before).1 = .ok ()

/-- The token was returned for the user, its expiry is ahead, and it has not been revoked since. -/
def Works (l : History) (token : Text) (now : Nat) (userId : Uuid) : Prop :=
  ∃ expiresAt random later, Issued hashToken l userId expiresAt random token later ∧ now < expiresAt ∧
    ∀ t ∈ later, ¬ Revoked hashToken t token

/-- The token is none that was returned with its expiry ahead; nor is it the drawn part of one, unless a call to revoke
that came later. -/
def Meets (l : History) (token : Text) (now : Nat) : Prop :=
  ∀ userId expiresAt random returned later, Issued hashToken l userId expiresAt random returned later → now < expiresAt →
    token ≠ returned ∧ (token = random.text → ∃ t ∈ later, ∃ at', t.action = .revoke random.text at')

/-! ## The calls -/

variable {hashToken : Text → Text}

theorem not_hex_plaintext (random : RandomToken) (t : Text) : random.text ≠ "rt_".toList ++ t := by
  intro h
  have hr : 'r' ∈ random.text := by
    rw [h]
    exact List.mem_cons_self
  exact absurd (random.hex _ hr) (by decide)

theorem createRefreshToken_cases (userId : Uuid) (expiresAt : Nat) (random : RandomToken) (db : AuthDb) :
    createRefreshToken hashToken userId expiresAt random db = (.error (.database []), db) ∨
    createRefreshToken hashToken userId expiresAt random db = (.ok ("rt_".toList ++ random.text),
      { db with refreshTokens := db.refreshTokens ++ [⟨userId, hashToken random.text, expiresAt, none⟩] }) := by
  unfold createRefreshToken
  rw [bind_apply, read_apply]
  dsimp only
  split
  · exact Or.inl rfl
  · exact Or.inr rfl

theorem validateRefreshToken_state (token : Text) (now : Nat) (db : AuthDb) :
    (validateRefreshToken hashToken token now db).2 = db := by
  unfold validateRefreshToken
  rw [bind_apply, read_apply]
  dsimp only
  cases db.refreshTokens.find? (accepts hashToken token now) <;> rfl

theorem validateRefreshToken_ok {token : Text} {now : Nat} {db : AuthDb} {userId : Uuid}
    (h : (validateRefreshToken hashToken token now db).1 = .ok userId) :
    ∃ r ∈ db.refreshTokens, accepts hashToken token now r = true := by
  unfold validateRefreshToken at h
  rw [bind_apply, read_apply] at h
  dsimp only at h
  cases hfind : db.refreshTokens.find? (accepts hashToken token now) with
  | none =>
    rw [hfind] at h
    cases h
  | some r => exact ⟨r, List.mem_of_find?_eq_some hfind, List.find?_some hfind⟩

theorem validateRefreshToken_accepts {token : Text} {now : Nat} {db : AuthDb} {r : RefreshToken} (hr : r ∈ db.refreshTokens)
    (h : accepts hashToken token now r = true) : ∃ userId, (validateRefreshToken hashToken token now db).1 = .ok userId := by
  unfold validateRefreshToken
  rw [bind_apply, read_apply]
  dsimp only
  cases hfind : db.refreshTokens.find? (accepts hashToken token now) with
  | none => exact absurd h (by simpa using List.find?_eq_none.1 hfind r hr)
  | some r' => exact ⟨r'.userId, rfl⟩

theorem revokeRefreshToken_state (token : Text) (now : Nat) (db : AuthDb) :
    (revokeRefreshToken hashToken token now db).2 = { db with
      refreshTokens := updateWhere (revocable hashToken token) (fun r => { r with revokedAt := some now }) db.refreshTokens } := by
  unfold revokeRefreshToken
  rw [bind_apply, read_apply]
  dsimp only
  rw [bind_apply, modify_apply]
  dsimp only
  split <;> rfl

theorem revokeRefreshToken_ok {token : Text} {now : Nat} {db : AuthDb}
    (h : (revokeRefreshToken hashToken token now db).1 = .ok ()) :
    ∃ r ∈ db.refreshTokens, r.tokenHash = hashToken token := by
  unfold revokeRefreshToken at h
  rw [bind_apply, read_apply] at h
  dsimp only at h
  rw [bind_apply, modify_apply] at h
  dsimp only at h
  split at h
  · cases h
  · rename_i hcount
    obtain ⟨r, hr, hrevocable⟩ := List.countP_pos_iff.1 (Nat.pos_of_ne_zero hcount)
    simp only [revocable, Bool.and_eq_true, decide_eq_true_eq] at hrevocable
    exact ⟨r, hr, hrevocable.1⟩

/-! ## The table and the history -/

/-- No call to revoke the drawn part. -/
def Unrevoked (later : History) (random : RandomToken) : Prop := ∀ t ∈ later, ∀ at', t.action ≠ .revoke random.text at'

theorem unrevoked_concat {later : History} {c : Call} {db : AuthDb} {random : RandomToken} :
    Unrevoked (later ++ [⟨c, db⟩]) random ↔ Unrevoked later random ∧ ∀ at', c ≠ .revoke random.text at' := by
  simp [Unrevoked, or_imp, forall_and]

theorem issued_concat {l : History} {c : Call} {db : AuthDb} {userId : Uuid} {expiresAt : Nat} {random : RandomToken}
    {token : Text} {later : History} :
    Issued hashToken (l ++ [⟨c, db⟩]) userId expiresAt random token later ↔
      (∃ later', later = later' ++ [⟨c, db⟩] ∧ Issued hashToken l userId expiresAt random token later') ∨
      (later = [] ∧ c = .create userId expiresAt random ∧
        (createRefreshToken hashToken userId expiresAt random db).1 = .ok token) := by
  constructor
  · rintro ⟨earlier, db', hl, hok⟩
    rcases List.eq_nil_or_concat later with rfl | ⟨later', x, rfl⟩
    · obtain ⟨-, ht⟩ := List.append_inj' hl rfl
      cases ht
      exact Or.inr ⟨rfl, rfl, hok⟩
    · rw [List.concat_eq_append, ← List.cons_append, ← List.append_assoc] at hl
      obtain ⟨rfl, hx⟩ := List.append_inj' hl rfl
      obtain rfl := List.singleton_inj.1 hx
      exact Or.inl ⟨later', List.concat_eq_append, earlier, db', rfl, hok⟩
  · rintro (⟨later', rfl, earlier, db', rfl, hok⟩ | ⟨rfl, rfl, hok⟩)
    · exact ⟨earlier, db', by simp, hok⟩
    · exact ⟨l, db, rfl, hok⟩

/-- The row that a creation has by now. -/
def RowOf (later : History) (userId : Uuid) (expiresAt : Nat) (random : RandomToken) (r : RefreshToken) : Prop :=
  r.userId = userId ∧ r.expiresAt = expiresAt ∧ r.tokenHash = hashToken random.text ∧
    (r.revokedAt = none ↔ Unrevoked later random)

/-- The rows are those of the creations that were answered. -/
structure Mirror (hashToken : Text → Text) (l : History) (db : AuthDb) : Prop where
  stored : ∀ r ∈ db.refreshTokens, ∃ random token later,
    Issued hashToken l r.userId r.expiresAt random token later ∧ @RowOf hashToken later r.userId r.expiresAt random r
  found : ∀ userId expiresAt random token later, Issued hashToken l userId expiresAt random token later →
    ∃ r ∈ db.refreshTokens, @RowOf hashToken later userId expiresAt random r

section Step

variable {S : Set Text} (hinj : Set.InjOn hashToken S) {l : History} {db db' : AuthDb} {c : Call}

/-- Rows that a call rewrites and rows that it inserts. -/
theorem Mirror.next (h : Mirror hashToken l db) (g : RefreshToken → RefreshToken) (new : List RefreshToken)
    (hrows : db'.refreshTokens = db.refreshTokens.map g ++ new)
    (hkeep : ∀ r, (g r).userId = r.userId ∧ (g r).expiresAt = r.expiresAt ∧ (g r).tokenHash = r.tokenHash)
    (hrevoked : ∀ userId expiresAt random token later r, Issued hashToken l userId expiresAt random token later →
      r.tokenHash = hashToken random.text →
        ((g r).revokedAt = none ↔ r.revokedAt = none ∧ ∀ at', c ≠ .revoke random.text at'))
    (hnew : ∀ r ∈ new, ∃ random token, c = .create r.userId r.expiresAt random ∧
      (createRefreshToken hashToken r.userId r.expiresAt random db).1 = .ok token ∧
      r.tokenHash = hashToken random.text ∧ r.revokedAt = none)
    (hcreated : ∀ userId expiresAt random token, c = .create userId expiresAt random →
      (createRefreshToken hashToken userId expiresAt random db).1 = .ok token →
        ⟨userId, hashToken random.text, expiresAt, none⟩ ∈ new) :
    Mirror hashToken (l ++ [⟨c, db⟩]) db' where
  stored := by
    intro r hr
    rw [hrows] at hr
    rcases List.mem_append.1 hr with hr | hr
    · obtain ⟨row, hrow, rfl⟩ := List.mem_map.1 hr
      obtain ⟨random, token, later, hissued, -, -, hhash, hrev⟩ := h.stored row hrow
      obtain ⟨huser, hexp, hhash'⟩ := hkeep row
      rw [huser, hexp]
      refine ⟨random, token, later ++ [⟨c, db⟩], issued_concat.2 (Or.inl ⟨later, rfl, hissued⟩), huser, hexp,
        hhash'.trans hhash, ?_⟩
      rw [unrevoked_concat, hrevoked _ _ _ _ _ row hissued hhash, hrev]
    · obtain ⟨random, token, hc, hok, hhash, hrev⟩ := hnew r hr
      exact ⟨random, token, [], issued_concat.2 (Or.inr ⟨rfl, hc, hok⟩), rfl, rfl, hhash, by simp [hrev, Unrevoked]⟩
  found := by
    intro userId expiresAt random token later hissued
    rw [hrows]
    rcases issued_concat.1 hissued with ⟨later', rfl, hbefore⟩ | ⟨rfl, hc, hok⟩
    · obtain ⟨r, hr, huser, hexp, hhash, hrev⟩ := h.found _ _ _ _ _ hbefore
      obtain ⟨huser', hexp', hhash'⟩ := hkeep r
      refine ⟨g r, List.mem_append_left _ (List.mem_map_of_mem hr), huser'.trans huser, hexp'.trans hexp,
        hhash'.trans hhash, ?_⟩
      rw [unrevoked_concat, hrevoked _ _ _ _ _ r hbefore hhash, hrev]
    · exact ⟨_, List.mem_append_right _ (hcreated _ _ _ _ hc hok), rfl, rfl, rfl, by simp [Unrevoked]⟩

theorem digested_of_issued {userId : Uuid} {expiresAt : Nat} {random : RandomToken} {token : Text} {later : History}
    (h : Issued hashToken l userId expiresAt random token later) : ∃ t ∈ l, t.action.digested = random.text := by
  obtain ⟨earlier, db', rfl, -⟩ := h
  exact ⟨_, List.mem_append_right _ List.mem_cons_self, rfl⟩

include hinj in
theorem Mirror.step (h : Mirror hashToken l db) (hl : ∀ t ∈ l, t.action.digested ∈ S) (hc : c.digested ∈ S)
    (hs : step hashToken c db = some db') : Mirror hashToken (l ++ [⟨c, db⟩]) db' := by
  obtain rfl := Option.some.inj hs
  cases c with
  | create userId expiresAt random =>
    rcases @createRefreshToken_cases hashToken userId expiresAt random db with hfail | hok
    · refine h.next id [] ?_ (fun r => ⟨rfl, rfl, rfl⟩) (fun _ _ random' _ _ r _ _ => by simp) (by simp) ?_
      · simp [hfail]
      · rintro _ _ _ _ ⟨⟩ hok
        rw [hfail] at hok
        cases hok
    · refine h.next id [⟨userId, hashToken random.text, expiresAt, none⟩] ?_ (fun r => ⟨rfl, rfl, rfl⟩)
        (fun _ _ random' _ _ r _ _ => by simp) ?_ ?_
      · simp [hok]
      · intro r hr
        obtain rfl := List.mem_singleton.1 hr
        exact ⟨random, _, rfl, by rw [hok], rfl, rfl⟩
      · rintro _ _ _ _ ⟨⟩ -
        exact List.mem_singleton_self _
  | validate token now =>
    refine h.next id [] ?_ (fun r => ⟨rfl, rfl, rfl⟩) (fun _ _ random' _ _ r _ _ => by simp) (by simp) ?_
    · simp [validateRefreshToken_state]
    · rintro _ _ _ _ ⟨⟩
  | revoke token now =>
    refine h.next (fun r => if revocable hashToken token r then { r with revokedAt := some now } else r) [] ?_ ?_ ?_
      (by simp) ?_
    · simp [revokeRefreshToken_state, updateWhere]
    · intro r
      split <;> exact ⟨rfl, rfl, rfl⟩
    · -- of the texts in question only the token itself has its digest
      intro _ _ random _ _ r hissued hhash
      obtain ⟨t, ht, hdigested⟩ := digested_of_issued hissued
      have hsame : r.tokenHash = hashToken token ↔ random.text = token := by
        rw [hhash]
        refine ⟨fun heq => hinj (hdigested ▸ hl t ht) hc heq, fun heq => by rw [heq]⟩
      by_cases hr : random.text = token
      · cases hrev : r.revokedAt <;> simp [revocable, hsame.2 hr, hr, hrev]
      · simp [revocable, hsame, hr, Ne.symm hr]
    · rintro _ _ _ _ ⟨⟩

include hinj in
theorem mirror_run {db₀ : AuthDb} (h₀ : db₀.refreshTokens = []) (h : Ran (RefreshTokens.step hashToken) db₀ l db)
    (hl : ∀ t ∈ l, t.action.digested ∈ S) : Mirror hashToken l db := by
  induction h with
  | start =>
    refine ⟨by simp [h₀], ?_⟩
    rintro _ _ _ _ _ ⟨earlier, db', hnil, -⟩
    simp at hnil
  | next _ c hs ih =>
    refine (ih fun t ht => hl t (List.mem_append_left _ ht)).step hinj (fun t ht => hl t (List.mem_append_left _ ht)) ?_ hs
    exact hl _ (List.mem_append_right _ (List.mem_singleton_self _))

end Step

/-! ## The tokens that work -/

theorem issued_token {l : History} {userId : Uuid} {expiresAt : Nat} {random : RandomToken} {token : Text} {later : History}
    (h : Issued hashToken l userId expiresAt random token later) : token = "rt_".toList ++ random.text := by
  obtain ⟨earlier, db, -, hok⟩ := h
  rcases @createRefreshToken_cases hashToken userId expiresAt random db with hfail | hdone
  · rw [hfail] at hok
    cases hok
  · rw [hdone] at hok
    exact (Except.ok.inj hok).symm

/-- The texts whose digests are taken: the drawn ones, those of the calls, and this one. -/
def Digested (l : History) (token : Text) : Set Text := {d | d = token ∨ ∃ t ∈ l, t.action.digested = d}

section Works

variable {l : History} {db₀ db : AuthDb} {token : Text} (h₀ : db₀.refreshTokens = [])
  (hran : Ran (step hashToken) db₀ l db) (hinj : Set.InjOn hashToken (Digested l token))
include h₀ hran hinj

omit h₀ hran in
/-- A row under the digest of a text is one whose drawn part the text is. -/
theorem drawn_of_row {l₁ l₂ : History} (hl : l = l₁ ++ l₂) {db' : AuthDb} (hmirror : Mirror hashToken l₁ db')
    {t : Text} (ht : t ∈ Digested l token) {r : RefreshToken} (hr : r ∈ db'.refreshTokens) (hhash : r.tokenHash = hashToken t) :
    ∃ random returned later, Issued hashToken l₁ r.userId r.expiresAt random returned later ∧ t = random.text ∧
      (r.revokedAt = none ↔ Unrevoked later random) := by
  obtain ⟨random, returned, later, hissued, -, -, hrandom, hrev⟩ := hmirror.stored r hr
  obtain ⟨x, hx, hdigested⟩ := digested_of_issued hissued
  refine ⟨random, returned, later, hissued, hinj ht (Or.inr ⟨x, ?_, hdigested⟩) (hhash.symm.trans hrandom), hrev⟩
  rw [hl]
  exact List.mem_append_left _ hx

theorem mirror_of_ran : Mirror hashToken l db :=
  mirror_run hinj h₀ hran fun t ht => Or.inr ⟨t, ht, rfl⟩

/-- What was handed out is never revoked: no row has its digest. -/
theorem not_revoked {random : RandomToken} (htoken : token = "rt_".toList ++ random.text) :
    ∀ t ∈ l, ¬ Revoked hashToken t token := by
  rintro t ht ⟨now, haction, hok⟩
  obtain ⟨l₁, l₂, rfl⟩ := List.append_of_mem ht
  have hbefore : Mirror hashToken l₁ t.before :=
    mirror_run hinj h₀ hran.earlier fun x hx => Or.inr ⟨x, List.mem_append_left _ hx, rfl⟩
  obtain ⟨r, hr, hhash⟩ := revokeRefreshToken_ok hok
  obtain ⟨random', -, -, -, hdrawn, -⟩ := drawn_of_row hinj rfl hbefore (Or.inl rfl) hr hhash
  exact not_hex_plaintext random' random.text (hdrawn.symm.trans htoken)

/-- **`validate_refresh_token` tells the tokens that work exactly where the condition is met.** -/
theorem refresh_works_iff (now : Nat) :
    (∀ userId, (validateRefreshToken hashToken token now db).1 = .ok userId ↔ Works hashToken l token now userId) ↔
      Meets hashToken l token now := by
  have hmirror := mirror_of_ran h₀ hran hinj
  constructor
  · intro hworks userId expiresAt random returned later hissued hahead
    have hreturned := issued_token hissued
    constructor
    · rintro rfl
      -- it works, and no row has its digest
      have hlater : ∀ t ∈ later, t ∈ l := by
        obtain ⟨earlier, db', rfl, -⟩ := hissued
        exact fun t ht => List.mem_append_right _ (List.mem_cons_of_mem _ ht)
      have hok := (hworks userId).2 ⟨expiresAt, random, later, hissued, hahead,
        fun t ht => not_revoked h₀ hran hinj hreturned t (hlater t ht)⟩
      obtain ⟨r, hr, haccepts⟩ := validateRefreshToken_ok hok
      simp only [accepts, Bool.and_eq_true, decide_eq_true_eq] at haccepts
      obtain ⟨random', -, -, -, hdrawn, -⟩ :=
        drawn_of_row hinj (List.append_nil l).symm hmirror (Or.inl rfl) hr haccepts.1.1
      exact not_hex_plaintext random' random.text (hdrawn.symm.trans hreturned)
    · intro htoken
      by_contra hnone
      have hunrevoked : Unrevoked later random := fun t ht at' hact => hnone ⟨t, ht, at', hact⟩
      obtain ⟨r, hr, -, hexp, hhash, hrev⟩ := hmirror.found _ _ _ _ _ hissued
      have haccepts : accepts hashToken token now r = true := by
        simp [accepts, hhash, htoken, hexp, hahead, hrev.2 hunrevoked]
      -- the row is accepted, and the drawn part was never handed out
      obtain ⟨user, hok⟩ := validateRefreshToken_accepts hr haccepts
      obtain ⟨_, random', _, hissued', -, -⟩ := (hworks user).1 hok
      exact not_hex_plaintext random random'.text (htoken.symm.trans (issued_token hissued'))
  · intro hmeets userId
    constructor
    · intro hok
      exfalso
      obtain ⟨r, hr, haccepts⟩ := validateRefreshToken_ok hok
      simp only [accepts, Bool.and_eq_true, decide_eq_true_eq, gt_iff_lt, Option.isNone_iff_eq_none] at haccepts
      obtain ⟨random, returned, later, hissued, hdrawn, hrev⟩ :=
        drawn_of_row hinj (List.append_nil l).symm hmirror (Or.inl rfl) hr haccepts.1.1
      obtain ⟨t, ht, at', hact⟩ := (hmeets _ _ _ _ _ hissued haccepts.1.2).2 hdrawn
      exact hrev.1 haccepts.2 t ht at' hact
    · rintro ⟨expiresAt, random, later, hissued, hahead, -⟩
      exact absurd rfl (hmeets _ _ _ _ _ hissued hahead).1

end Works

/-! ## One token -/

/-- The draw of two nil UUIDs. -/
def zeros : RandomToken where
  text := List.replicate 64 '0'
  length := rfl
  hex := fun c hc => by
    rw [List.eq_of_mem_replicate hc]
    decide

def plaintext : Text := "rt_".toList ++ zeros.text

/-- The SHA-256 digests of the drawn part and of what is handed out. -/
def digest (t : Text) : Text :=
  if t = zeros.text then "60e05bd1b195af2f94112fa7197a5c88289058840ce7c6df9693756bc6250f55".toList
  else if t = plaintext then "0f6dc38dad440512346cd951b4dd6a54dea6e53d3034961ae602217be93d889d".toList
  else []

def alone : AuthDb := ⟨[7], []⟩

/-- User 7 has a token that is good until second 100. -/
def handedOut : AuthDb := ⟨[7], [⟨7, digest zeros.text, 100, none⟩]⟩

def creation : History := [⟨.create 7 100 zeros, alone⟩]

theorem ran_creation : Ran (step digest) alone creation handedOut :=
  .next .start (Call.create 7 100 zeros) (by decide +kernel)

theorem injOn_digest : Set.InjOn digest (Digested creation plaintext) := by
  have hmem : ∀ t ∈ Digested creation plaintext, t = plaintext ∨ t = zeros.text := by
    intro t ht
    rcases ht with ht | ⟨x, hx, hdigested⟩
    · exact Or.inl ht
    · obtain rfl := List.mem_singleton.1 hx
      exact Or.inr hdigested.symm
  have hne : digest plaintext ≠ digest zeros.text := by decide +kernel
  intro a ha b hb hab
  rcases hmem a ha with rfl | rfl
  · rcases hmem b hb with rfl | rfl
    · rfl
    · exact absurd hab hne
  · rcases hmem b hb with rfl | rfl
    · exact absurd hab.symm hne
    · rfl

theorem issued_creation {userId : Uuid} {expiresAt : Nat} {random : RandomToken} {token : Text} {later : History}
    (h : Issued digest creation userId expiresAt random token later) : expiresAt = 100 ∧ later = [] := by
  obtain ⟨earlier, db, hl, -⟩ := h
  cases earlier with
  | nil =>
    obtain ⟨hturn, hlater⟩ := List.cons.inj hl
    cases hturn
    exact ⟨rfl, hlater.symm⟩
  | cons x earlier => simp [creation] at hl

/-- Past its expiry the token is refused, as it should be. -/
theorem refresh_works_iff_expired :
    (validateRefreshToken digest plaintext 100 handedOut).1 = .ok 7 ↔ Works digest creation plaintext 100 7 :=
  (refresh_works_iff rfl ran_creation injOn_digest 100).2 (fun _ _ _ _ _ hissued hahead =>
    absurd hahead (by rw [(issued_creation hissued).1]; decide)) 7

/-- The token that user 7 has just been handed works, and is refused. -/
theorem token_refused : Ran (step digest) alone creation handedOut ∧ Set.InjOn digest (Digested creation plaintext) ∧
    Works digest creation plaintext 1 7 ∧ (validateRefreshToken digest plaintext 1 handedOut).1 =
      .error (.notFound "invalid, expired, or revoked refresh token".toList) := by
  refine ⟨ran_creation, injOn_digest, ⟨100, zeros, [], ⟨[], alone, rfl, ?_⟩, by decide, by simp⟩, ?_⟩
  · decide +kernel
  · decide +kernel

end RefreshTokens
end Vai
