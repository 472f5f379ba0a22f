import Vai.Auth
import Vai.RefreshTokens
/-!
# DeviceCodes — the device-code login (`storage/postgres/auth.rs`, `server/auth.rs`)

A poll selects the row of its code and, where the row has a key, deletes it in a second statement before it answers with
the key; an error of that statement is ignored.  A request to authorise mints the key first, which replaces the one that
the user has under the same name, and then puts it into the row of the code.

Any number of polls and of requests to authorise run at once, a statement at a time.  `key_handed_out_once`: where no poll
reads a row whose key another has read and not yet deleted, the deletes succeed and each code can be authorised when it
comes to it, the login hands each key out once, and no request that fails has touched the keys.

Times are seconds, and `now()` of the database and the clock of the server are given with each statement.
-/
namespace Vai
namespace DeviceCodes

open Rows Steps Auth
open RefreshTokens (RandomToken digest plaintext zeros)

structure DeviceCode where
  userId : Option Uuid
  apiKey : Option Text
  expiresAt : Nat
deriving DecidableEq, Repr

inductive DeviceCodeStatus where
  | pending
  | expired
  | authorized (apiKey : Text) (userId : Uuid) (userEmail : Text)
deriving DecidableEq, Repr

inductive PollPhase where
  | asked
  /-- The row has expired and is to be deleted. -/
  | outdated
  /-- The row has a key and is to be deleted. -/
  | read (apiKey : Text) (userId : Uuid) (userEmail : Text)
  | failed (e : StorageError)
  | answered (status : DeviceCodeStatus)
deriving DecidableEq

/-- A call of `poll_device_code`; `seen` is the row that it selected, and the time at which it looked at it. -/
structure Poll where
  code : Text
  seen : Option (DeviceCode × Nat)
  phase : PollPhase
deriving DecidableEq

inductive AuthorizePhase where
  | asked
  | minted (plaintext : Text)
  /-- `404`. -/
  | refused
  | authorized (plaintext : Text)
deriving DecidableEq

/-- A call of `authorize_device_code_handler`. -/
structure Authorize where
  code : Text
  userId : Uuid
  phase : AuthorizePhase
deriving DecidableEq

structure Site where
  codes : FMap Text DeviceCode
  apiKeys : List ApiKey
  /-- The e-mail addresses. -/
  users : FMap Uuid Text
  /-- The tokens drawn so far. -/
  drawn : List Text
  polls : List Poll
  requests : List Authorize

/-! ## The statements -/

def keyName : Text := "CLI (device code)".toList

def isActive (userId : Uuid) (name : Text) (k : ApiKey) : Bool := k.userId = some userId && k.name = name && !k.revoked

/-- `create_key` for a user: the active key of the name is rotated, or there is a new one. -/
def createKey (id name keyHash : Text) (userId : Uuid) (roleOverride : Option Text) (keys : List ApiKey) : List ApiKey :=
  if keys.any (isActive userId name) then
    updateWhere (isActive userId name)
      (fun k => { k with keyHash := keyHash, roleOverride := k.roleOverride.or roleOverride }) keys
  else keys ++ [⟨id, name, keyHash, false, some userId, roleOverride, none⟩]

/-- What `poll_device_code` makes of the row that it has selected. -/
def judge (users : FMap Uuid Text) (now : Nat) : Option DeviceCode → PollPhase
  | none => .failed (.notFound "device code not found".toList)
  | some row =>
    if row.expiresAt < now then .outdated
    else match row.apiKey, row.userId with
      | none, _ => .answered .pending
      | some _, none => .failed (.database "device code has no user_id".toList)
      | some key, some uid => match users.get uid with
        | none => .failed (.database "authorized user not found".toList)
        | some email => .read key uid email

/-- The phase after the delete, which may have failed. -/
def PollPhase.deleted : PollPhase → Option PollPhase
  | .outdated => some (.answered .expired)
  | .read key uid email => some (.answered (.authorized key uid email))
  | _ => none

/-- The row can be authorised: it is there, it has not expired and it has no key. -/
def authorizable (codes : FMap Text DeviceCode) (code : Text) (now : Nat) : Option DeviceCode :=
  (codes.get code).filter fun row => now ≤ row.expiresAt && row.apiKey.isNone

inductive Action where
  | createDeviceCode (code : Text) (expiresAt : Nat)
  | poll (code : Text)
  | select (i : Nat) (now : Nat)
  | delete (i : Nat) (succeeds : Bool)
  | authorize (code : Text) (userId : Uuid)
  | mint (j : Nat) (id : Text) (token : RandomToken)
  | record (j : Nat) (now : Nat)

variable (hashToken : Text → Text)

/-- A code is a primary key; a token is never drawn twice. -/
def step : Action → Site → Option Site
  | .createDeviceCode code expiresAt, s =>
    if (s.codes.get code).isSome then some s
    else some { s with codes := s.codes.insert code ⟨none, none, expiresAt⟩ }
  | .poll code, s => some { s with polls := s.polls ++ [⟨code, none, .asked⟩] }
  | .select i now, s => (s.polls[i]?).bind fun p =>
    if p.phase = .asked then
      let row := s.codes.get p.code
      some { s with polls := s.polls.set i { p with seen := row.map (·, now), phase := judge s.users now row } }
    else none
  | .delete i succeeds, s => (s.polls[i]?).bind fun p =>
    p.phase.deleted.map fun phase => { s with
      codes := if succeeds then s.codes.erase p.code else s.codes
      polls := s.polls.set i { p with phase } }
  | .authorize code userId, s => some { s with requests := s.requests ++ [⟨code, userId, .asked⟩] }
  | .mint j id token, s => (s.requests[j]?).bind fun r =>
    if r.phase = .asked ∧ token.text ∉ s.drawn then
      some { s with
        apiKeys := createKey id keyName (hashToken token.text) r.userId (some "write".toList) s.apiKeys
        drawn := s.drawn ++ [token.text]
        requests := s.requests.set j { r with phase := .minted token.text } }
    else none
  | .record j now, s => (s.requests[j]?).bind fun r => match r.phase with
    | .minted plaintext => match authorizable s.codes r.code now with
      | none => some { s with requests := s.requests.set j { r with phase := .refused } }
      | some row => some { s with
        codes := s.codes.insert r.code { row with userId := some r.userId, apiKey := some plaintext }
        requests := s.requests.set j { r with phase := .authorized plaintext } }
    | _ => none

/-! ## What is to hold -/

/-- The poll has been answered with the key. -/
def Poll.Received (p : Poll) (key : Text) : Prop := ∃ uid email, p.phase = .answered (.authorized key uid email)

/-- It has read the key, and has not deleted the row. -/
def Poll.isReading (p : Poll) (key : Text) : Bool :=
  match p.phase with
  | .read k _ _ => k = key
  | _ => false

/-- It has, or it has read it. -/
def Poll.Holds (p : Poll) (key : Text) : Prop := (∃ uid email, p.phase = .read key uid email) ∨ p.Received key

def keysOf (userId : Uuid) (keys : List ApiKey) : List ApiKey := keys.filter fun k => k.userId = some userId

structure HandedOutOnce (l : List (Turn Action Site)) (s : Site) : Prop where
  /-- No two polls receive a key. -/
  once : ∀ (i i' : Nat) (p p' : Poll) key, s.polls[i]? = some p → s.polls[i']? = some p' → p.Received key →
    p'.Received key → i = i'
  /-- A poll that receives a key looked at its code when that was authorised and had not expired. -/
  in_time : ∀ p ∈ s.polls, ∀ key, p.Received key → ∃ row now, p.seen = some (row, now) ∧ row.apiKey = some key ∧
    now ≤ row.expiresAt ∧ ∃ r ∈ s.requests, r.code = p.code ∧ r.phase = .authorized key
  /-- A request that is refused has left the keys of its user. -/
  unchanged : ∀ t ∈ l, ∀ j id token, t.action = .mint j id token → ∀ r, s.requests[j]? = some r → r.phase = .refused →
    ∀ s', step hashToken t.action t.before = some s' → keysOf r.userId s'.apiKeys = keysOf r.userId t.before.apiKeys

/-- A poll that is to read a key reads one that no poll has read and not deleted yet; what follows the reading succeeds;
a code that a request comes to record can be authorised. -/
def Meets : Action → Site → Prop
  | .select i now, s => ∀ p ∈ s.polls[i]?, ∀ row ∈ s.codes.get p.code, now ≤ row.expiresAt →
    ∀ key ∈ row.apiKey, ∀ p' ∈ s.polls, p'.isReading key = false
  | .delete i succeeds, s => ∀ p ∈ s.polls[i]?, p.phase ≠ .outdated → succeeds = true
  | .record j now, s => ∀ r ∈ s.requests[j]?, (authorizable s.codes r.code now).isSome
  | _, _ => True

/-- The service before the first request: any keys, any users. -/
def idle (apiKeys : List ApiKey) (users : FMap Uuid Text) (drawn : List Text) : Site := ⟨∅, apiKeys, users, drawn, [], []⟩

/-! ## The invariant -/

theorem getElem?_set_cases {α : Type} {l : List α} {i j : Nat} {a b : α} (h : (l.set i a)[j]? = some b) :
    (i = j ∧ b = a) ∨ (i ≠ j ∧ l[j]? = some b) := by
  by_cases hij : i = j
  · subst hij
    rw [List.getElem?_set] at h
    simp only [if_true] at h
    split at h
    · exact Or.inl ⟨rfl, (Option.some.inj h).symm⟩
    · cases h
  · rw [List.getElem?_set_ne hij] at h
    exact Or.inr ⟨hij, h⟩

def Authorized (s : Site) (code key : Text) : Prop := ∃ r ∈ s.requests, r.code = code ∧ r.phase = .authorized key

structure Sound (s : Site) : Prop where
  /-- A key that is minted and not recorded is nowhere else. -/
  minted : ∀ (j : Nat) r key, s.requests[j]? = some r → r.phase = .minted key →
    key ∈ s.drawn ∧ (∀ code row, s.codes.get code = some row → row.apiKey ≠ some key) ∧ ∀ (i : Nat) p, s.polls[i]? = some p → ¬ p.Holds key
  apart : ∀ (j j' : Nat) r r' key, s.requests[j]? = some r → s.requests[j']? = some r' → r.phase = .minted key →
    r'.phase = .minted key → j = j'
  known : ∀ code row key, s.codes.get code = some row → row.apiKey = some key → key ∈ s.drawn ∧ Authorized s code key
  single : ∀ code code' row row' key, s.codes.get code = some row → s.codes.get code' = some row' →
    row.apiKey = some key → row'.apiKey = some key → code = code'
  held : ∀ (i : Nat) p key, s.polls[i]? = some p → p.Holds key → key ∈ s.drawn ∧ Authorized s p.code key ∧
    ∃ row now, p.seen = some (row, now) ∧ row.apiKey = some key ∧ now ≤ row.expiresAt
  once : ∀ (i i' : Nat) p p' key, s.polls[i]? = some p → s.polls[i']? = some p' → p.Holds key → p'.Holds key → i = i'
  /-- While the row of a key is there, the poll that holds it has not deleted it. -/
  reading : ∀ (i : Nat) p key, s.polls[i]? = some p → p.Holds key → ∀ code row, s.codes.get code = some row →
    row.apiKey = some key → code = p.code ∧ ∃ uid email, p.phase = .read key uid email
  served : ∀ r ∈ s.requests, r.phase ≠ .refused

theorem sound_idle (apiKeys : List ApiKey) (users : FMap Uuid Text) (drawn : List Text) : Sound (idle apiKeys users drawn) := by
  constructor <;> simp [idle]

variable {hashToken : Text → Text} {s s' : Site}

theorem judge_holds {users : FMap Uuid Text} {now : Nat} {found : Option DeviceCode} {p : Poll} {key : Text}
    (hp : p.phase = judge users now found) (h : p.Holds key) : (∃ uid email, p.phase = .read key uid email) ∧
      ∃ row, found = some row ∧ row.apiKey = some key ∧ now ≤ row.expiresAt := by
  unfold Poll.Holds Poll.Received at h
  rw [hp] at h ⊢
  unfold judge at h ⊢
  cases found with
  | none => simp at h
  | some row =>
    dsimp only at h ⊢
    by_cases hlate : row.expiresAt < now
    · simp [hlate] at h
    · simp only [hlate, if_false] at h ⊢
      cases hkey : row.apiKey with
      | none => simp [hkey] at h
      | some k =>
        cases huser : row.userId with
        | none => simp [hkey, huser] at h
        | some uid =>
          cases hemail : users.get uid with
          | none => simp [hkey, huser, hemail] at h
          | some email =>
            simp only [hkey, huser, hemail] at h ⊢
            obtain rfl : k = key := by simpa using h
            exact ⟨⟨uid, email, rfl⟩, row, rfl, hkey, by omega⟩

theorem not_holds_asked (code : Text) (key : Text) : ¬ Poll.Holds ⟨code, none, .asked⟩ key := by
  simp [Poll.Holds, Poll.Received]

theorem getElem?_concat_cases {α : Type} {l : List α} {a b : α} {j : Nat} (h : (l ++ [a])[j]? = some b) :
    l[j]? = some b ∨ b = a := by
  rcases List.mem_append.1 (List.mem_of_getElem? h) with hb | hb
  · by_cases hj : j < l.length
    · rw [List.getElem?_append_left hj] at h
      exact Or.inl h
    · rw [List.getElem?_append_right (by omega)] at h
      exact Or.inr (List.mem_singleton.1 (List.mem_of_getElem? h))
  · exact Or.inr (List.mem_singleton.1 hb)

theorem get_insert_key {codes : FMap Text DeviceCode} {code c key : Text} {expiresAt : Nat} {row : DeviceCode}
    (h : FMap.get (codes.insert code ⟨none, none, expiresAt⟩) c = some row) (hkey : row.apiKey = some key) :
    codes.get c = some row := by
  rw [FMap.get_insert] at h
  split at h
  · cases h
    cases hkey
  · exact h

theorem sound_createDeviceCode (h : Sound s) {code : Text} {expiresAt : Nat}
    (hs : step hashToken (.createDeviceCode code expiresAt) s = some s') : Sound s' := by
  simp only [step] at hs
  split at hs
  · cases hs
    exact h
  · cases hs
    refine ⟨fun j r key hr hphase => ?_, h.apart, fun c row key hrow hkey => h.known c row key (get_insert_key hrow hkey) hkey,
      fun c c' row row' key hrow hrow' hkey hkey' => ?_, h.held, h.once, fun i p key hp hholds c row hrow hkey => ?_, h.served⟩
    · obtain ⟨hdrawn, hrows, hpolls⟩ := h.minted j r key hr hphase
      exact ⟨hdrawn, fun c row hrow hkey => hrows c row (get_insert_key hrow hkey) hkey, hpolls⟩
    · exact h.single c c' row row' key (get_insert_key hrow hkey) (get_insert_key hrow' hkey') hkey hkey'
    · exact h.reading i p key hp hholds c row (get_insert_key hrow hkey) hkey

theorem sound_poll (h : Sound s) {code : Text} (hs : step hashToken (.poll code) s = some s') : Sound s' := by
  obtain rfl := Option.some.inj hs
  have hold : ∀ (i : Nat) p key, (s.polls ++ [⟨code, none, .asked⟩])[i]? = some p → p.Holds key → s.polls[i]? = some p := by
    intro i p key hp hholds
    rcases getElem?_concat_cases hp with hp | rfl
    · exact hp
    · exact absurd hholds (not_holds_asked code key)
  refine ⟨fun j r key hr hphase => ?_, h.apart, h.known, h.single,
    fun i p key hp hholds => h.held i p key (hold i p key hp hholds) hholds,
    fun i i' p p' key hp hp' hholds hholds' => ?_, fun i p key hp hholds => h.reading i p key (hold i p key hp hholds) hholds,
    h.served⟩
  · obtain ⟨hdrawn, hrows, hpolls⟩ := h.minted j r key hr hphase
    exact ⟨hdrawn, hrows, fun i p hp hholds => hpolls i p (hold i p key hp hholds) hholds⟩
  · exact h.once i i' p p' key (hold i p key hp hholds) (hold i' p' key hp' hholds') hholds hholds'

theorem sound_select (h : Sound s) {i : Nat} {now : Nat} (hmeets : Meets (.select i now) s)
    (hs : step hashToken (.select i now) s = some s') : Sound s' := by
  simp only [step] at hs
  obtain ⟨p, hp, hs⟩ := Option.bind_eq_some_iff.1 hs
  split at hs
  · obtain rfl := Option.some.inj hs
    set p' : Poll := { p with
      seen := (s.codes.get p.code).map (·, now), phase := judge s.users now (s.codes.get p.code) } with hp'
    -- a poll that comes to hold a key is the first
    have hgain : ∀ key, p'.Holds key → (∃ row, s.codes.get p.code = some row ∧ row.apiKey = some key ∧ now ≤ row.expiresAt) ∧
        (∃ uid email, p'.phase = .read key uid email) ∧ ∀ (j : Nat) q, s.polls[j]? = some q → ¬ q.Holds key := by
      intro key hholds
      obtain ⟨hread, row, hrow, hkey, hlive⟩ := judge_holds (p := p') rfl hholds
      refine ⟨⟨row, hrow, hkey, hlive⟩, hread, fun j q hq hqholds => ?_⟩
      obtain ⟨-, uid, email, hphase⟩ := h.reading j q key hq hqholds p.code row hrow hkey
      have hnone := hmeets p hp row hrow hlive key hkey q (List.mem_of_getElem? hq)
      simp [Poll.isReading, hphase] at hnone
    refine ⟨fun j r key hr hphase => ?_, h.apart, h.known, h.single, fun j q key hq hholds => ?_,
      fun j j' q q' key hq hq' hholds hholds' => ?_, fun j q key hq hholds => ?_, h.served⟩
    · obtain ⟨hdrawn, hrows, hpolls⟩ := h.minted j r key hr hphase
      refine ⟨hdrawn, hrows, fun j' q hq hholds => ?_⟩
      rcases getElem?_set_cases hq with ⟨-, rfl⟩ | ⟨-, hq⟩
      · obtain ⟨⟨row, hrow, hkey, -⟩, -, -⟩ := hgain key hholds
        exact hrows _ row hrow hkey
      · exact hpolls j' q hq hholds
    · rcases getElem?_set_cases hq with ⟨-, rfl⟩ | ⟨-, hq⟩
      · obtain ⟨⟨row, hrow, hkey, hlive⟩, -, -⟩ := hgain key hholds
        obtain ⟨hdrawn, hauthorized⟩ := h.known _ row key hrow hkey
        exact ⟨hdrawn, hauthorized, row, now, by simp [hp', hrow], hkey, hlive⟩
      · exact h.held j q key hq hholds
    · rcases getElem?_set_cases hq with ⟨rfl, rfl⟩ | ⟨-, hq⟩
      · rcases getElem?_set_cases hq' with ⟨rfl, -⟩ | ⟨-, hq'⟩
        · rfl
        · exact absurd hholds' ((hgain key hholds).2.2 j' q' hq')
      · rcases getElem?_set_cases hq' with ⟨rfl, rfl⟩ | ⟨-, hq'⟩
        · exact absurd hholds ((hgain key hholds').2.2 j q hq)
        · exact h.once j j' q q' key hq hq' hholds hholds'
    · rcases getElem?_set_cases hq with ⟨-, rfl⟩ | ⟨-, hq⟩
      · obtain ⟨⟨row, hrow, hkey, -⟩, hread, -⟩ := hgain key hholds
        exact fun c row' hrow' hkey' => ⟨h.single c p.code row' row key hrow' hrow hkey' hkey, hread⟩
      · exact h.reading j q key hq hholds
  · cases hs

theorem holds_deleted {p : Poll} {phase : PollPhase} {key : Text} (hdeleted : p.phase.deleted = some phase)
    (h : Poll.Holds { p with phase } key) : ∃ uid email, p.phase = .read key uid email := by
  unfold PollPhase.deleted at hdeleted
  split at hdeleted
  · cases hdeleted
    simp [Poll.Holds, Poll.Received] at h
  · rename_i k uid email hphase
    cases hdeleted
    obtain rfl : k = key := by simpa [Poll.Holds, Poll.Received] using h
    exact ⟨uid, email, hphase⟩
  · cases hdeleted

theorem sound_delete (h : Sound s) {i : Nat} {succeeds : Bool} (hmeets : Meets (.delete i succeeds) s)
    (hs : step hashToken (.delete i succeeds) s = some s') : Sound s' := by
  simp only [step] at hs
  obtain ⟨p, hp, hs⟩ := Option.bind_eq_some_iff.1 hs
  obtain ⟨phase, hdeleted, rfl⟩ := Option.map_eq_some_iff.1 hs
  have hcodes : ∀ c row, FMap.get (if succeeds then s.codes.erase p.code else s.codes) c = some row →
      s.codes.get c = some row ∧ (succeeds = true → c ≠ p.code) := by
    intro c row hrow
    cases succeeds with
    | false => exact ⟨hrow, fun h => by cases h⟩
    | true =>
      simp only [if_true, FMap.get_erase] at hrow
      split at hrow
      · cases hrow
      · exact ⟨hrow, fun _ => ‹_›⟩
  have hwas : ∀ (j : Nat) q key, (s.polls.set i { p with phase })[j]? = some q → q.Holds key →
      ∃ q₀, s.polls[j]? = some q₀ ∧ q₀.Holds key ∧ q₀.code = q.code ∧ q₀.seen = q.seen := by
    intro j q key hq hholds
    rcases getElem?_set_cases hq with ⟨rfl, rfl⟩ | ⟨-, hq⟩
    · exact ⟨p, hp, Or.inl (holds_deleted hdeleted hholds), rfl, rfl⟩
    · exact ⟨q, hq, hholds, rfl, rfl⟩
  refine ⟨fun j r key hr hphase => ?_, h.apart, fun c row key hrow hkey => h.known c row key (hcodes c row hrow).1 hkey,
    fun c c' row row' key hrow hrow' hkey hkey' =>
      h.single c c' row row' key (hcodes c row hrow).1 (hcodes c' row' hrow').1 hkey hkey',
    fun j q key hq hholds => ?_, fun j j' q q' key hq hq' hholds hholds' => ?_,
    fun j q key hq hholds c row hrow hkey => ?_, h.served⟩
  · obtain ⟨hdrawn, hrows, hpolls⟩ := h.minted j r key hr hphase
    refine ⟨hdrawn, fun c row hrow => hrows c row (hcodes c row hrow).1, fun j' q hq hholds => ?_⟩
    obtain ⟨q₀, hq₀, hholds₀, -, -⟩ := hwas j' q key hq hholds
    exact hpolls j' q₀ hq₀ hholds₀
  · obtain ⟨q₀, hq₀, hholds₀, hcode, hseen⟩ := hwas j q key hq hholds
    rw [← hcode, ← hseen]
    exact h.held j q₀ key hq₀ hholds₀
  · obtain ⟨q₀, hq₀, hholds₀, -, -⟩ := hwas j q key hq hholds
    obtain ⟨q₁, hq₁, hholds₁, -, -⟩ := hwas j' q' key hq' hholds'
    exact h.once j j' q₀ q₁ key hq₀ hq₁ hholds₀ hholds₁
  · obtain ⟨hrow, hgone⟩ := hcodes c row hrow
    rcases getElem?_set_cases hq with ⟨rfl, rfl⟩ | ⟨-, hq⟩
    · -- its own row is gone
      obtain ⟨uid, email, hphase⟩ := holds_deleted hdeleted hholds
      obtain ⟨hcode, -⟩ := h.reading i p key hp (Or.inl ⟨uid, email, hphase⟩) c row hrow hkey
      exact absurd hcode (hgone (hmeets p hp (by rw [hphase]; simp)))
    · exact h.reading j q key hq hholds c row hrow hkey

theorem authorized_set {requests : List Authorize} {j : Nat} {r r' : Authorize} {code key : Text}
    (hr : requests[j]? = some r) (hphase : ∀ k, r.phase ≠ .authorized k)
    (h : ∃ q ∈ requests, q.code = code ∧ q.phase = .authorized key) :
    ∃ q ∈ requests.set j r', q.code = code ∧ q.phase = .authorized key := by
  obtain ⟨q, hq, hcode, hauthorized⟩ := h
  obtain ⟨j', hq⟩ := List.mem_iff_getElem?.1 hq
  have hne : j ≠ j' := by
    rintro rfl
    rw [hr] at hq
    exact hphase key (Option.some.inj hq ▸ hauthorized)
  exact ⟨q, List.mem_of_getElem? (by rwa [List.getElem?_set_ne hne]), hcode, hauthorized⟩

theorem sound_authorize (h : Sound s) {code : Text} {userId : Uuid}
    (hs : step hashToken (.authorize code userId) s = some s') : Sound s' := by
  obtain rfl := Option.some.inj hs
  have hold : ∀ (j : Nat) r key, (s.requests ++ [⟨code, userId, .asked⟩])[j]? = some r → r.phase = .minted key →
      s.requests[j]? = some r := by
    intro j r key hr hphase
    rcases getElem?_concat_cases hr with hr | rfl
    · exact hr
    · cases hphase
  have hauthorized : ∀ c key, Authorized s c key → Authorized { s with requests := s.requests ++ [⟨code, userId, .asked⟩] } c key := by
    rintro c key ⟨r, hr, hr'⟩
    exact ⟨r, List.mem_append_left _ hr, hr'⟩
  refine ⟨fun j r key hr hphase => h.minted j r key (hold j r key hr hphase) hphase,
    fun j j' r r' key hr hr' hphase hphase' =>
      h.apart j j' r r' key (hold j r key hr hphase) (hold j' r' key hr' hphase') hphase hphase',
    fun c row key hrow hkey => ?_, h.single, fun i p key hp hholds => ?_, h.once, h.reading, fun r hr => ?_⟩
  · obtain ⟨hdrawn, hauth⟩ := h.known c row key hrow hkey
    exact ⟨hdrawn, hauthorized _ _ hauth⟩
  · obtain ⟨hdrawn, hauth, hseen⟩ := h.held i p key hp hholds
    exact ⟨hdrawn, hauthorized _ _ hauth, hseen⟩
  · rcases List.mem_append.1 hr with hr | hr
    · exact h.served r hr
    · rw [List.mem_singleton.1 hr]
      simp

theorem sound_mint (h : Sound s) {j : Nat} {id : Text} {token : RandomToken}
    (hs : step hashToken (.mint j id token) s = some s') : Sound s' := by
  simp only [step] at hs
  obtain ⟨r₀, hr₀, hs⟩ := Option.bind_eq_some_iff.1 hs
  split at hs
  · rename_i hasked
    obtain ⟨hasked, hfresh⟩ := hasked
    obtain rfl := Option.some.inj hs
    have hdrawn : ∀ key, key ∈ s.drawn → key ∈ s.drawn ++ [token.text] := fun key hkey => List.mem_append_left _ hkey
    have hne : ∀ k, r₀.phase ≠ .authorized k := fun k hk => by
      rw [hasked] at hk
      cases hk
    refine ⟨fun j' r key hr hphase => ?_, fun j₁ j₂ r₁ r₂ key hr₁ hr₂ hphase₁ hphase₂ => ?_,
      fun c row key hrow hkey => ?_, h.single, fun i p key hp hholds => ?_, h.once, h.reading, fun r hr => ?_⟩
    · rcases getElem?_set_cases hr with ⟨-, rfl⟩ | ⟨-, hr⟩
      · obtain rfl : token.text = key := by simpa using hphase
        exact ⟨List.mem_append_right _ (List.mem_singleton_self _),
          fun c row hrow hkey => hfresh (h.known c row _ hrow hkey).1,
          fun i p hp hholds => hfresh (h.held i p _ hp hholds).1⟩
      · obtain ⟨hkey, hrows, hpolls⟩ := h.minted j' r key hr hphase
        exact ⟨hdrawn key hkey, hrows, hpolls⟩
    · rcases getElem?_set_cases hr₁ with ⟨rfl, rfl⟩ | ⟨-, hr₁⟩
      · rcases getElem?_set_cases hr₂ with ⟨rfl, -⟩ | ⟨-, hr₂⟩
        · rfl
        · obtain rfl : token.text = key := by simpa using hphase₁
          exact absurd (h.minted j₂ r₂ _ hr₂ hphase₂).1 hfresh
      · rcases getElem?_set_cases hr₂ with ⟨rfl, rfl⟩ | ⟨-, hr₂⟩
        · obtain rfl : token.text = key := by simpa using hphase₂
          exact absurd (h.minted j₁ r₁ _ hr₁ hphase₁).1 hfresh
        · exact h.apart j₁ j₂ r₁ r₂ key hr₁ hr₂ hphase₁ hphase₂
    · obtain ⟨hkey', hauth⟩ := h.known c row key hrow hkey
      exact ⟨hdrawn key hkey', authorized_set hr₀ hne hauth⟩
    · obtain ⟨hkey, hauth, hseen⟩ := h.held i p key hp hholds
      exact ⟨hdrawn key hkey, authorized_set hr₀ hne hauth, hseen⟩
    · obtain ⟨j', hr⟩ := List.mem_iff_getElem?.1 hr
      rcases getElem?_set_cases hr with ⟨-, rfl⟩ | ⟨-, hr⟩
      · simp
      · exact h.served r (List.mem_of_getElem? hr)
  · cases hs

theorem sound_record (h : Sound s) {j : Nat} {now : Nat} (hmeets : Meets (.record j now) s)
    (hs : step hashToken (.record j now) s = some s') : Sound s' := by
  simp only [step] at hs
  obtain ⟨r₀, hr₀, hs⟩ := Option.bind_eq_some_iff.1 hs
  cases hphase₀ : r₀.phase with
  | asked => simp [hphase₀] at hs
  | refused => simp [hphase₀] at hs
  | authorized k => simp [hphase₀] at hs
  | minted plaintext =>
    obtain ⟨row₀, hrow₀⟩ := Option.isSome_iff_exists.1 (hmeets r₀ hr₀)
    simp only [hphase₀, hrow₀] at hs
    obtain rfl := Option.some.inj hs
    obtain ⟨hdrawn₀, hrows₀, hpolls₀⟩ := h.minted j r₀ plaintext hr₀ hphase₀
    have hne : ∀ k, r₀.phase ≠ .authorized k := fun k hk => by
      rw [hphase₀] at hk
      cases hk
    -- the row of a key is an old one, or the one that has just got it
    have hcodes : ∀ c row key,
        FMap.get (s.codes.insert r₀.code { row₀ with userId := some r₀.userId, apiKey := some plaintext }) c = some row →
        row.apiKey = some key → (c = r₀.code ∧ key = plaintext) ∨ (s.codes.get c = some row ∧ key ≠ plaintext) := by
      intro c row key hrow hkey
      rw [FMap.get_insert] at hrow
      split at hrow
      · cases hrow
        exact Or.inl ⟨‹_›, (Option.some.inj hkey).symm⟩
      · exact Or.inr ⟨hrow, fun heq => hrows₀ c row hrow (heq ▸ hkey)⟩
    have hnew : ∀ key, key = plaintext → Authorized { s with
        codes := s.codes.insert r₀.code { row₀ with userId := some r₀.userId, apiKey := some plaintext }
        requests := s.requests.set j { r₀ with phase := .authorized plaintext } } r₀.code key := by
      rintro key rfl
      refine ⟨{ r₀ with phase := .authorized key }, List.mem_iff_getElem?.2 ⟨j, ?_⟩, rfl, rfl⟩
      rw [List.getElem?_set, if_pos rfl, if_pos (List.getElem?_eq_some_iff.1 hr₀).1]
    refine ⟨fun j' r key hr hphase => ?_, fun j₁ j₂ r₁ r₂ key hr₁ hr₂ hphase₁ hphase₂ => ?_,
      fun c row key hrow hkey => ?_, fun c c' row row' key hrow hrow' hkey hkey' => ?_, fun i p key hp hholds => ?_, h.once,
      fun i p key hp hholds c row hrow hkey => ?_, fun r hr => ?_⟩
    · rcases getElem?_set_cases hr with ⟨-, rfl⟩ | ⟨hjj', hwas⟩
      · cases hphase
      · obtain ⟨hkey, hrows, hpolls⟩ := h.minted j' r key hwas hphase
        refine ⟨hkey, fun c row hrow hkey' => ?_, hpolls⟩
        rcases hcodes c row key hrow hkey' with ⟨-, rfl⟩ | ⟨hrow, -⟩
        · exact hjj' (h.apart j j' r₀ r key hr₀ hwas hphase₀ hphase)
        · exact hrows c row hrow hkey'
    · rcases getElem?_set_cases hr₁ with ⟨-, rfl⟩ | ⟨-, hr₁⟩
      · cases hphase₁
      · rcases getElem?_set_cases hr₂ with ⟨-, rfl⟩ | ⟨-, hr₂⟩
        · cases hphase₂
        · exact h.apart j₁ j₂ r₁ r₂ key hr₁ hr₂ hphase₁ hphase₂
    · rcases hcodes c row key hrow hkey with ⟨rfl, hkey'⟩ | ⟨hrow, -⟩
      · exact ⟨hkey' ▸ hdrawn₀, hnew key hkey'⟩
      · obtain ⟨hdrawn, hauth⟩ := h.known c row key hrow hkey
        exact ⟨hdrawn, authorized_set hr₀ hne hauth⟩
    · rcases hcodes c row key hrow hkey with ⟨rfl, rfl⟩ | ⟨hrow, hother⟩
      · rcases hcodes c' row' key hrow' hkey' with ⟨rfl, -⟩ | ⟨-, hother⟩
        · rfl
        · exact absurd rfl hother
      · rcases hcodes c' row' key hrow' hkey' with ⟨-, hsame⟩ | ⟨hrow', -⟩
        · exact absurd hsame hother
        · exact h.single c c' row row' key hrow hrow' hkey hkey'
    · obtain ⟨hdrawn, hauth, hseen⟩ := h.held i p key hp hholds
      exact ⟨hdrawn, authorized_set hr₀ hne hauth, hseen⟩
    · rcases hcodes c row key hrow hkey with ⟨-, rfl⟩ | ⟨hrow, -⟩
      · exact absurd hholds (hpolls₀ i p hp)
      · exact h.reading i p key hp hholds c row hrow hkey
    · obtain ⟨j', hr⟩ := List.mem_iff_getElem?.1 hr
      rcases getElem?_set_cases hr with ⟨-, rfl⟩ | ⟨-, hr⟩
      · simp
      · exact h.served r (List.mem_of_getElem? hr)

theorem sound_step (a : Action) (s s' : Site) (h : Sound s) (hmeets : Meets a s) (hs : step hashToken a s = some s') :
    Sound s' := by
  cases a with
  | createDeviceCode code expiresAt => exact sound_createDeviceCode h hs
  | poll code => exact sound_poll h hs
  | select i now => exact sound_select h hmeets hs
  | delete i succeeds => exact sound_delete h hmeets hs
  | authorize code userId => exact sound_authorize h hs
  | mint j id token => exact sound_mint h hs
  | record j now => exact sound_record h hmeets hs

variable (hashToken) in
/-- **The login hands each key out once**, and no request that fails has touched the keys. -/
theorem key_handed_out_once {apiKeys : List ApiKey} {users : FMap Uuid Text} {drawn : List Text}
    {l : List (Turn Action Site)} (h : Ran (step hashToken) (idle apiKeys users drawn) l s)
    (hmeets : ∀ t ∈ l, Meets t.action t.before) : HandedOutOnce hashToken l s := by
  have hsound := h.keeps sound_step (sound_idle apiKeys users drawn) hmeets
  refine ⟨fun i i' p p' key hp hp' hreceived hreceived' => ?_, fun p hp key hreceived => ?_, ?_⟩
  · exact hsound.once i i' p p' key hp hp' (Or.inr hreceived) (Or.inr hreceived')
  · obtain ⟨i, hp⟩ := List.mem_iff_getElem?.1 hp
    obtain ⟨-, hauth, row, now, hseen, hkey, hlive⟩ := hsound.held i p key hp (Or.inr hreceived)
    exact ⟨row, now, hseen, hkey, hlive, hauth⟩
  · -- no request is refused
    intro t ht j id token ha r hr hrefused
    exact absurd hrefused (hsound.served r (List.mem_of_getElem? hr))

instance decidableMeets : (a : Action) → (s : Site) → Decidable (Meets a s)
  | .select i now, s => inferInstanceAs (Decidable (∀ p ∈ s.polls[i]?, ∀ row ∈ s.codes.get p.code,
      now ≤ row.expiresAt → ∀ key ∈ row.apiKey, ∀ p' ∈ s.polls, p'.isReading key = false))
  | .delete i succeeds, s =>
    inferInstanceAs (Decidable (∀ p ∈ s.polls[i]?, p.phase ≠ .outdated → succeeds = true))
  | .record j now, s =>
    inferInstanceAs (Decidable (∀ r ∈ s.requests[j]?, (authorizable s.codes r.code now).isSome = true))
  | .createDeviceCode _ _, _ => isTrue trivial
  | .poll _, _ => isTrue trivial
  | .authorize _ _, _ => isTrue trivial
  | .mint _ _ _, _ => isTrue trivial

/-- User `7` has a key of an earlier login. -/
def oneUser : Site :=
  idle [⟨"k0".toList, keyName, digest plaintext, false, some 7, some "write".toList, none⟩]
    (FMap.ofList [(7, "u@example.com".toList)]) []

def login : List Action :=
  [.createDeviceCode "AAAA-0000".toList 600, .poll "AAAA-0000".toList, .select 0 1, .authorize "AAAA-0000".toList 7,
   .mint 0 "k1".toList zeros, .record 0 2, .poll "AAAA-0000".toList, .poll "AAAA-0000".toList]

theorem key_handed_out_once_inTurn : ∃ (l : List (Turn Action Site)) (s : Site), Ran (step digest) oneUser l s ∧
    s.polls.map Poll.phase = [.answered .pending, .answered (.authorized zeros.text 7 "u@example.com".toList),
      .failed (.notFound "device code not found".toList)] ∧
    HandedOutOnce digest l s := by
  have hrun : ∃ r ∈ trace (step digest) (login ++ [.select 1 3, .delete 1 true, .select 2 3]) oneUser,
      (∀ t ∈ r.1, Meets t.action t.before) ∧
      r.2.polls.map Poll.phase = [.answered .pending, .answered (.authorized zeros.text 7 "u@example.com".toList),
        .failed (.notFound "device code not found".toList)] := by
    decide +kernel
  obtain ⟨r, htrace, hmeets, hpolls⟩ := hrun
  exact ⟨r.1, r.2, ran_of_trace htrace, hpolls, key_handed_out_once digest (ran_of_trace htrace) hmeets⟩

/-- Two polls read the row before either deletes it, and both receive the key; and a request for a code that there is not
fails after it has replaced the key of the user. -/
theorem key_handed_out_twice :
    (∃ (l : List (Turn Action Site)) (s : Site), Ran (step digest) oneUser l s ∧
      (∃ p p', s.polls[1]? = some p ∧ s.polls[2]? = some p' ∧ p.Received zeros.text ∧ p'.Received zeros.text) ∧
      ¬ HandedOutOnce digest l s) ∧
    ∃ (l : List (Turn Action Site)) (s : Site), Ran (step digest) oneUser l s ∧
      s.requests = [⟨"ZZZZ-9999".toList, 7, .refused⟩] ∧ keysOf 7 s.apiKeys ≠ keysOf 7 oneUser.apiKeys := by
  constructor
  · have hrun : ∃ r ∈ trace (step digest) (login ++ [.select 1 3, .select 2 3, .delete 1 true, .delete 2 true]) oneUser,
        ∃ p ∈ r.2.polls[1]?, ∃ p' ∈ r.2.polls[2]?,
          p.phase = .answered (.authorized zeros.text 7 "u@example.com".toList) ∧
          p'.phase = .answered (.authorized zeros.text 7 "u@example.com".toList) := by
      decide +kernel
    obtain ⟨r, htrace, p, hp, p', hp', hreceived, hreceived'⟩ := hrun
    refine ⟨r.1, r.2, ran_of_trace htrace, ⟨p, p', hp, hp', ⟨_, _, hreceived⟩, ⟨_, _, hreceived'⟩⟩, fun h => ?_⟩
    exact absurd (h.once 1 2 p p' zeros.text hp hp' ⟨_, _, hreceived⟩ ⟨_, _, hreceived'⟩) (by decide)
  · have hrun : ∃ r ∈ trace (step digest)
        [.authorize "ZZZZ-9999".toList 7, .mint 0 "k1".toList zeros, .record 0 2] oneUser,
        r.2.requests = [⟨"ZZZZ-9999".toList, 7, .refused⟩] ∧ keysOf 7 r.2.apiKeys ≠ keysOf 7 oneUser.apiKeys := by
      decide +kernel
    obtain ⟨r, htrace, hrefused, hkeys⟩ := hrun
    exact ⟨r.1, r.2, ran_of_trace htrace, hrefused, hkeys⟩

end DeviceCodes
end Vai
