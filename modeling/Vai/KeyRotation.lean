import Vai.Data
import Vai.Rows
/-!
# KeyRotation — API keys of a user under one name

`create_key` and `validate_key` of `storage/postgres/auth.rs`.  A user has one active key of a name: to create it again
gives the row a new token and leaves its repository, its agent type and its expiry, and its role unless that is null.
Without a user a key is always a new row.

`granted_iff` says which calls give what they were asked for.  The hash of the tokens is a parameter; the debounced
`last_used_at` of `validate_key` is left out.
-/
namespace Vai
namespace KeyRotation

open Rows

structure ApiKey where
  id : Text
  repoId : Option Uuid
  name : Text
  keyHash : Text
  keyPrefix : Text
  userId : Option Uuid
  roleOverride : Option Text
  agentType : Option Text
  expiresAt : Option Nat
  lastUsedAt : Option Nat
  createdAt : Nat
  revoked : Bool
deriving DecidableEq, Repr

/-- The columns of the unique index `api_keys_user_name_active`, of the rows that it has. -/
def ApiKey.activeName (k : ApiKey) : Option (Uuid × Text) := if k.revoked then none else k.userId.map fun u => (u, k.name)

/-- The table, with its unique indexes. -/
structure ApiKeys where
  rows : List ApiKey
  ids : (rows.map ApiKey.id).Nodup
  hashes : (rows.map ApiKey.keyHash).Nodup
  active : (rows.filterMap ApiKey.activeName).Nodup

/-- The arguments of `create_key`. -/
structure KeyRequest where
  repoId : Option Uuid
  name : Text
  userId : Option Uuid
  roleOverride : Option Text
  agentType : Option Text
  expiresAt : Option Nat
deriving DecidableEq, Repr

/-- What the database refuses. -/
inductive Violation where
  | unique | foreignKey
deriving DecidableEq, Repr

section

variable (hashToken : Text → Text)

/-- The row that is to be inserted. -/
def KeyRequest.row (req : KeyRequest) (id token : Text) (now : Nat) : ApiKey :=
  ⟨id, req.repoId, req.name, hashToken token, token.take 8, req.userId, req.roleOverride, req.agentType, req.expiresAt, none,
    now, false⟩

/-- `ON CONFLICT … DO UPDATE SET`. -/
def rotated (new old : ApiKey) : ApiKey :=
  { old with
    keyHash := new.keyHash, keyPrefix := new.keyPrefix, createdAt := new.createdAt, lastUsedAt := none
    roleOverride := old.roleOverride.or new.roleOverride }

/-- The row that the new one is in conflict with. -/
def KeyRequest.takes (req : KeyRequest) (k : ApiKey) : Bool :=
  req.userId.isSome && decide (k.activeName = req.userId.map fun u => (u, req.name))

/-- `known` says that the user and the repository that a new row refers to are there. -/
def createKey (known : KeyRequest → Bool) (req : KeyRequest) (id token : Text) (now : Nat) (rows : List ApiKey) :
    Except Violation (ApiKey × List ApiKey) :=
  let new := req.row hashToken id token now
  match rows.find? req.takes with
  | some old =>
    if rows.any fun k => k.keyHash = new.keyHash && k.id ≠ old.id then .error .unique
    else .ok (rotated new old, updateWhere req.takes (rotated new) rows)
  | none =>
    if rows.any fun k => k.id = new.id || k.keyHash = new.keyHash then .error .unique
    else if known req then .ok (new, rows ++ [new])
    else .error .foreignKey

def validateKey (now : Nat) (token : Text) (rows : List ApiKey) : Option ApiKey :=
  rows.find? fun k => k.keyHash = hashToken token && !k.revoked && k.expiresAt.all fun e => now < e

/-- The key has the rights that were asked for, `later`; no other key changes. -/
structure Granted (req : KeyRequest) (token : Text) (later : Nat) (rows rows' : List ApiKey) : Prop where
  validates : ∃ k, validateKey hashToken later token rows' = some k ∧ k.roleOverride = req.roleOverride ∧
    k.expiresAt = req.expiresAt ∧ k.repoId = req.repoId ∧ k.agentType = req.agentType
  previous : ∀ k ∈ rows, req.takes k = true → ∀ token', hashToken token' = k.keyHash →
    validateKey hashToken later token' rows' = none
  others : (rows'.filter fun k => k.keyHash ≠ hashToken token) = rows.filter fun k => !req.takes k

/-- The key that is rotated has what is asked for, but for a role that is null, and another token. -/
def Fits (req : KeyRequest) (token : Text) (k : ApiKey) : Prop :=
  (k.roleOverride = none ∨ k.roleOverride = req.roleOverride) ∧ k.expiresAt = req.expiresAt ∧ k.repoId = req.repoId ∧
    k.agentType = req.agentType ∧ k.keyHash ≠ hashToken token

end

/-! ## The table stays sound -/

section Spec

variable {hashToken : Text → Text} {known : KeyRequest → Bool} {req : KeyRequest} {id token : Text} {now later : Nat}
  {t : ApiKeys} {key : ApiKey} {rows' : List ApiKey}

theorem takes_iff {k : ApiKey} : req.takes k = true ↔ ∃ u, req.userId = some u ∧ k.activeName = some (u, req.name) := by
  unfold KeyRequest.takes
  cases req.userId with
  | none => simp
  | some u => simp

theorem activeName_rotated (new old : ApiKey) : (rotated new old).activeName = old.activeName := rfl

theorem eq_of_takes {k k' : ApiKey} (hk : k ∈ t.rows) (hk' : k' ∈ t.rows) (h : req.takes k = true) (h' : req.takes k' = true) :
    k = k' := by
  obtain ⟨u, hu, hname⟩ := takes_iff.1 h
  obtain ⟨u', hu', hname'⟩ := takes_iff.1 h'
  rw [hu] at hu'
  cases hu'
  by_contra hne
  have hactive : t.rows.Pairwise fun a b => ∀ x, a.activeName = some x → ∀ y, b.activeName = some y → x ≠ y :=
    List.pairwise_filterMap.1 t.active
  have : Std.Symm fun a b : ApiKey => ∀ x, a.activeName = some x → ∀ y, b.activeName = some y → x ≠ y :=
    ⟨fun a b hab x hx y hy hxy => hab y hy x hx hxy.symm⟩
  exact hactive.forall hk hk' hne _ hname _ hname' rfl

/-- A key that is made is the one of the name with a new token, or a new row. -/
theorem createKey_ok (h : createKey hashToken known req id token now t.rows = .ok (key, rows')) :
    (∃ old ∈ t.rows, req.takes old = true ∧ (∀ k ∈ t.rows, k.keyHash = hashToken token → k.id = old.id) ∧
      key = rotated (req.row hashToken id token now) old ∧
      rows' = updateWhere req.takes (rotated (req.row hashToken id token now)) t.rows) ∨
    ((∀ k ∈ t.rows, req.takes k = false) ∧ (∀ k ∈ t.rows, k.id ≠ id ∧ k.keyHash ≠ hashToken token) ∧
      key = req.row hashToken id token now ∧ rows' = t.rows ++ [req.row hashToken id token now]) := by
  unfold createKey at h
  dsimp only at h
  cases hfind : t.rows.find? req.takes with
  | some old =>
    rw [hfind] at h
    dsimp only at h
    split at h
    · cases h
    · rename_i hfree
      cases h
      refine .inl ⟨old, List.mem_of_find?_eq_some hfind, List.find?_some hfind, fun k hk hhash => ?_, rfl, rfl⟩
      by_contra hid
      exact hfree (List.any_eq_true.2 ⟨k, hk, by simp [hid, hhash, KeyRequest.row]⟩)
  | none =>
    rw [hfind] at h
    dsimp only at h
    split at h
    · cases h
    · rename_i hfree
      split at h
      · cases h
        refine .inr ⟨fun k hk => by simpa using List.find?_eq_none.1 hfind k hk, fun k hk => ?_, rfl, rfl⟩
        constructor
        · intro hid
          exact hfree (List.any_eq_true.2 ⟨k, hk, by simp [hid, KeyRequest.row]⟩)
        · intro hhash
          exact hfree (List.any_eq_true.2 ⟨k, hk, by simp [hhash, KeyRequest.row]⟩)
      · cases h

theorem hashes_rotated {old : ApiKey} (hold : old ∈ t.rows) (htakes : req.takes old = true)
    (hfree : ∀ k ∈ t.rows, k.keyHash = hashToken token → k.id = old.id) :
    ((updateWhere req.takes (rotated (req.row hashToken id token now)) t.rows).map ApiKey.keyHash).Nodup := by
  have hnodup : t.rows.Nodup := t.ids.of_map
  unfold updateWhere
  rw [List.map_map, List.nodup_map_iff_inj_on hnodup]
  -- the row with the new token is the one of the name
  have hmine : ∀ a ∈ t.rows, ∀ b ∈ t.rows, req.takes a = true → b.keyHash = hashToken token → a = b := by
    intro a ha b hb hta hhash
    have hao := eq_of_takes ha hold hta htakes
    rw [hao]
    exact (eq_of_key t.ids hb hold (hfree b hb hhash)).symm
  intro a ha b hb hab
  dsimp only [Function.comp] at hab
  by_cases hta : req.takes a = true
  · by_cases htb : req.takes b = true
    · exact eq_of_takes ha hb hta htb
    · rw [if_pos hta, if_neg htb] at hab
      exact hmine a ha b hb hta hab.symm
  · by_cases htb : req.takes b = true
    · rw [if_neg hta, if_pos htb] at hab
      exact (hmine b hb a ha htb hab).symm
    · rw [if_neg hta, if_neg htb] at hab
      exact eq_of_key t.hashes ha hb hab

/-- **A call keeps the unique indexes.** -/
theorem sound_createKey (h : createKey hashToken known req id token now t.rows = .ok (key, rows')) :
    ∃ t' : ApiKeys, t'.rows = rows' := by
  rcases createKey_ok h with ⟨old, hold, htakes, hfree, -, rfl⟩ | ⟨hnone, hfree, -, rfl⟩
  · refine ⟨⟨_, ?_, hashes_rotated hold htakes hfree, ?_⟩, rfl⟩
    · have hids : (updateWhere req.takes (rotated (req.row hashToken id token now)) t.rows).map ApiKey.id =
          t.rows.map ApiKey.id := map_updateWhere (f := rotated (req.row hashToken id token now)) (fun _ _ => rfl) _
      rw [hids]
      exact t.ids
    · have hsame : (updateWhere req.takes (rotated (req.row hashToken id token now)) t.rows).filterMap ApiKey.activeName =
          t.rows.filterMap ApiKey.activeName := by
        unfold updateWhere
        rw [List.filterMap_map]
        refine List.filterMap_congr fun k _ => ?_
        dsimp only [Function.comp]
        split
        · exact activeName_rotated _ _
        · rfl
      rw [hsame]
      exact t.active
  · refine ⟨⟨_, ?_, ?_, ?_⟩, rfl⟩
    · rw [List.map_append, List.nodup_append]
      refine ⟨t.ids, List.nodup_singleton _, fun x hx y hy hxy => ?_⟩
      obtain ⟨k, hk, rfl⟩ := List.mem_map.1 hx
      exact (hfree k hk).1 (hxy.trans (List.mem_singleton.1 hy))
    · rw [List.map_append, List.nodup_append]
      refine ⟨t.hashes, List.nodup_singleton _, fun x hx y hy hxy => ?_⟩
      obtain ⟨k, hk, rfl⟩ := List.mem_map.1 hx
      exact (hfree k hk).2 (hxy.trans (List.mem_singleton.1 hy))
    · cases hname : (req.row hashToken id token now).activeName with
      | none =>
        rw [List.filterMap_append, List.filterMap_cons_none hname, List.filterMap_nil, List.append_nil]
        exact t.active
      | some x =>
        rw [List.filterMap_append, List.filterMap_cons_some hname, List.filterMap_nil, List.nodup_append]
        refine ⟨t.active, List.nodup_singleton _, fun y hy z hz hyz => ?_⟩
        obtain ⟨k, hk, hkname⟩ := List.mem_filterMap.1 hy
        have huser : req.userId.map (fun u => (u, req.name)) = some x := hname
        obtain ⟨u, hu, hux⟩ := Option.map_eq_some_iff.1 huser
        rw [hyz, List.mem_singleton.1 hz, ← hux] at hkname
        have htakes := takes_iff.2 ⟨u, hu, hkname⟩
        rw [hnone k hk] at htakes
        cases htakes

/-! ## What is granted -/

/-- The one row with the hash of a token, if it is active and has not expired. -/
theorem validateKey_of_mem (later : Nat) {token' : Text} {k : ApiKey} (hk : k ∈ t.rows)
    (hhash : k.keyHash = hashToken token') :
    validateKey hashToken later token' t.rows =
      if k.revoked = false ∧ k.expiresAt.all (fun e => later < e) = true then some k else none := by
  unfold validateKey
  split
  · rename_i hlive
    cases hfind : t.rows.find? fun k => k.keyHash = hashToken token' && !k.revoked && k.expiresAt.all fun e => later < e with
    | none =>
      have hno := List.find?_eq_none.1 hfind k hk
      rw [hhash, hlive.1, hlive.2] at hno
      simp at hno
    | some k' =>
      have hk' := List.find?_some hfind
      simp only [Bool.and_eq_true, decide_eq_true_iff] at hk'
      rw [eq_of_key t.hashes (List.mem_of_find?_eq_some hfind) hk (hk'.1.1.trans hhash.symm)]
  · rename_i hlive
    refine List.find?_eq_none.2 fun k' hk' hgood => ?_
    simp only [Bool.and_eq_true, decide_eq_true_iff, Bool.not_eq_true'] at hgood
    have heq := eq_of_key t.hashes hk' hk (hgood.1.1.trans hhash.symm)
    subst heq
    exact hlive ⟨hgood.1.2, hgood.2⟩

theorem validateKey_eq_none {token' : Text} (h : ∀ k ∈ t.rows, k.keyHash ≠ hashToken token') :
    validateKey hashToken later token' t.rows = none := by
  unfold validateKey
  refine List.find?_eq_none.2 fun k hk hgood => ?_
  simp only [Bool.and_eq_true, decide_eq_true_iff] at hgood
  exact h k hk hgood.1.1

theorem or_eq_iff {old new : Option Text} : old.or new = new ↔ old = none ∨ old = new := by
  cases old with
  | none => simp
  | some r => simp

theorem not_revoked {k : ApiKey} (h : req.takes k = true) : k.revoked = false := by
  obtain ⟨u, -, hname⟩ := takes_iff.1 h
  unfold ApiKey.activeName at hname
  split at hname
  · cases hname
  · rename_i hrevoked
    exact Bool.eq_false_of_not_eq_true hrevoked

section Rotated

variable {new old : ApiKey} (hold : old ∈ t.rows) (htakes : req.takes old = true)

include hold htakes

theorem others_rotated (hnew : new.keyHash = hashToken token) (hfree : ∀ k ∈ t.rows, k.keyHash = hashToken token → k.id = old.id) :
    ((updateWhere req.takes (rotated new) t.rows).filter fun k => k.keyHash ≠ hashToken token) =
      t.rows.filter fun k => !req.takes k := by
  have hkeep : ∀ k ∈ t.rows, (decide ((if req.takes k then rotated new k else k).keyHash ≠ hashToken token)) = !req.takes k := by
    intro k hk
    by_cases hk' : req.takes k = true
    · have hhash : (rotated new k).keyHash = hashToken token := hnew
      rw [if_pos hk', hk', hhash]
      simp
    · have hne : k.keyHash ≠ hashToken token := fun hhash =>
        hk' ((eq_of_key t.ids hk hold (hfree k hk hhash)).symm ▸ htakes)
      rw [if_neg hk', Bool.eq_false_of_not_eq_true hk']
      simpa using hne
  unfold updateWhere
  rw [List.filter_map]
  have hsame : (t.rows.filter ((fun k => decide (k.keyHash ≠ hashToken token)) ∘ fun k => if req.takes k then rotated new k else k)) =
      t.rows.filter fun k => !req.takes k := List.filter_congr hkeep
  rw [hsame]
  have hmap : (t.rows.filter fun k => !req.takes k).map (fun k => if req.takes k then rotated new k else k) =
      (t.rows.filter fun k => !req.takes k).map id := by
    refine List.map_congr_left fun k hk => ?_
    have hno := (List.mem_filter.1 hk).2
    rw [if_neg (by simpa using hno)]
    rfl
  rw [hmap, List.map_id]

theorem hash_gone (hne : old.keyHash ≠ new.keyHash) :
    ∀ k ∈ updateWhere req.takes (rotated new) t.rows, k.keyHash ≠ old.keyHash := by
  intro k hk hhash
  obtain ⟨k', hk', rfl⟩ := mem_updateWhere.1 hk
  by_cases ht : req.takes k' = true
  · rw [if_pos ht] at hhash
    exact hne hhash.symm
  · rw [if_neg ht] at hhash
    exact ht (eq_of_key t.hashes hk' hold hhash ▸ htakes)

end Rotated

/-- A rotated key: whether the row that takes the token fits the request. -/
theorem granted_rotated_iff {old : ApiKey} (hold : old ∈ t.rows) (htakes : req.takes old = true)
    (hfree : ∀ k ∈ t.rows, k.keyHash = hashToken token → k.id = old.id) {t' : ApiKeys}
    (ht' : t'.rows = updateWhere req.takes (rotated (req.row hashToken id token now)) t.rows) :
    Granted hashToken req token later t.rows t'.rows ↔
      req.expiresAt.all (fun e => later < e) = true ∧ ∀ k ∈ t.rows, req.takes k = true → Fits hashToken req token k := by
  have hmem : rotated (req.row hashToken id token now) old ∈ t'.rows := by
    rw [ht']
    exact mem_updateWhere.2 ⟨old, hold, if_pos htakes⟩
  have hvalid := validateKey_of_mem later hmem (rfl : _ = hashToken token)
  have hrevoked : (rotated (req.row hashToken id token now) old).revoked = false := not_revoked htakes
  rw [hrevoked] at hvalid
  constructor
  · intro hgranted
    obtain ⟨k, hk, hrole, hexpires, hrepo, hagent⟩ := hgranted.validates
    rw [hvalid] at hk
    split at hk
    · rename_i hlive
      cases hk
      refine ⟨?_, fun k hk htk => ?_⟩
      · rw [← hexpires]
        exact hlive.2
      · rw [eq_of_takes hk hold htk htakes]
        refine ⟨or_eq_iff.1 hrole, hexpires, hrepo, hagent, fun hhash => ?_⟩
        have hgone := hgranted.previous old hold htakes token hhash.symm
        rw [hvalid, if_pos hlive] at hgone
        cases hgone
    · cases hk
  · rintro ⟨hlive, hfits⟩
    obtain ⟨hrole, hexpires, hrepo, hagent, hhash⟩ := hfits old hold htakes
    refine ⟨⟨rotated (req.row hashToken id token now) old, ?_, or_eq_iff.2 hrole, hexpires, hrepo, hagent⟩, ?_, ?_⟩
    · rw [hvalid]
      refine if_pos ⟨rfl, ?_⟩
      have hsame : (rotated (req.row hashToken id token now) old).expiresAt = req.expiresAt := hexpires
      rwa [hsame]
    · intro k hk htk token' htoken'
      rw [eq_of_takes hk hold htk htakes] at htoken'
      apply validateKey_eq_none
      rw [ht', htoken']
      exact hash_gone hold htakes hhash
    · rw [ht']
      exact others_rotated hold htakes rfl hfree

theorem granted_inserted_iff (hnone : ∀ k ∈ t.rows, req.takes k = false) (hfree : ∀ k ∈ t.rows, k.keyHash ≠ hashToken token)
    {t' : ApiKeys} (ht' : t'.rows = t.rows ++ [req.row hashToken id token now]) :
    Granted hashToken req token later t.rows t'.rows ↔
      req.expiresAt.all (fun e => later < e) = true ∧ ∀ k ∈ t.rows, req.takes k = true → Fits hashToken req token k := by
  have hmem : req.row hashToken id token now ∈ t'.rows := by
    rw [ht']
    exact List.mem_append_right _ (List.mem_singleton.2 rfl)
  have hvalid := validateKey_of_mem later hmem (rfl : _ = hashToken token)
  have hrevoked : (req.row hashToken id token now).revoked = false := rfl
  rw [hrevoked] at hvalid
  have hno : ∀ k ∈ t.rows, ¬ req.takes k = true := fun k hk htk => by
    rw [hnone k hk] at htk
    cases htk
  constructor
  · intro hgranted
    obtain ⟨k, hk, -⟩ := hgranted.validates
    rw [hvalid] at hk
    split at hk
    · rename_i hlive
      exact ⟨hlive.2, fun k hk htk => absurd htk (hno k hk)⟩
    · cases hk
  · rintro ⟨hlive, -⟩
    refine ⟨⟨_, hvalid.trans (if_pos ⟨rfl, hlive⟩), rfl, rfl, rfl, rfl⟩, fun k hk htk => absurd htk (hno k hk), ?_⟩
    have hlast : (req.row hashToken id token now).keyHash = hashToken token := rfl
    rw [ht', List.filter_append, List.filter_cons_of_neg (by simp [hlast]), List.filter_nil, List.append_nil]
    refine List.filter_congr fun k hk => ?_
    rw [hnone k hk]
    simpa using hfree k hk

/-- **When a key has the rights that were asked for**: the expiry asked for is to come, and where there is an active key of
the user and the name, it has those rights already, but for a role that is null. -/
theorem granted_iff (h : createKey hashToken known req id token now t.rows = .ok (key, rows')) :
    Granted hashToken req token later t.rows rows' ↔
      req.expiresAt.all (fun e => later < e) = true ∧ ∀ k ∈ t.rows, req.takes k = true → Fits hashToken req token k := by
  obtain ⟨t', rfl⟩ := sound_createKey h
  rcases createKey_ok h with ⟨old, hold, htakes, hfree, -, ht'⟩ | ⟨hnone, hfree, -, ht'⟩
  · exact granted_rotated_iff hold htakes hfree ht'
  · exact granted_inserted_iff hnone (fun k hk => (hfree k hk).2) ht'

end Spec

/-! ## One key -/

theorem ids_single (k : ApiKey) : ([k].map ApiKey.id).Nodup := List.nodup_singleton _

theorem hashes_single (k : ApiKey) : ([k].map ApiKey.keyHash).Nodup := List.nodup_singleton _

theorem active_single (k : ApiKey) : ([k].filterMap ApiKey.activeName).Nodup := by
  cases h : k.activeName with
  | none => simp [List.filterMap_cons_none h]
  | some x => simp [List.filterMap_cons_some h]

def ApiKeys.single (k : ApiKey) : ApiKeys := ⟨[k], ids_single k, hashes_single k, active_single k⟩

/-- A key of user 7 that does not expire. -/
def oldKey (role : Option Text) : ApiKey :=
  ⟨"k1".toList, none, "laptop".toList, "old".toList, "old".toList, some 7, role, none, none, some 20, 10, false⟩

/-- A request for that name. -/
def readOnly (expiresAt : Option Nat) : KeyRequest := ⟨none, "laptop".toList, some 7, some "read".toList, none, expiresAt⟩

/-- It is created again, with the hash of a token for the token itself. -/
def again (role : Option Text) (expiresAt : Option Nat) : Except Violation (ApiKey × List ApiKey) :=
  createKey (fun token => token) (fun _ => true) (readOnly expiresAt) "k2".toList "new".toList 50 [oldKey role]

/-- A key without a role takes the one that is asked for. -/
theorem granted_iff_null_role : ∃ key rows', again none none = .ok (key, rows') ∧
    Granted (fun token => token) (readOnly none) "new".toList 60 [oldKey none] rows' := by
  have hmade : (again none none).isOk = true := by decide +kernel
  cases hr : again none none with
  | error e =>
    rw [hr] at hmade
    cases hmade
  | ok r =>
    refine ⟨r.1, r.2, rfl, (granted_iff (t := ApiKeys.single (oldKey none)) hr).2 ⟨rfl, fun k hk _ => ?_⟩⟩
    rw [List.mem_singleton.1 hk]
    exact ⟨.inl rfl, rfl, rfl, rfl, by decide⟩

def roleLater (later : Nat) (rows : List ApiKey) : Option (Option Text) :=
  (validateKey (fun token => token) later "new".toList rows).map ApiKey.roleOverride

/-- A key that is to be read-only and short-lived is the old one, which is neither. -/
theorem rotated_key_keeps_rights : ∃ key rows', again (some "admin".toList) (some 70) = .ok (key, rows') ∧
    roleLater 1000 rows' = some (some "admin".toList) ∧
    ¬ Granted (fun token => token) (readOnly (some 70)) "new".toList 60 [oldKey (some "admin".toList)] rows' := by
  have hmade : (again (some "admin".toList) (some 70)).map (fun r => (roleLater 1000 r.2, roleLater 60 r.2)) =
      .ok (some (some "admin".toList), some (some "admin".toList)) := by decide +kernel
  cases hr : again (some "admin".toList) (some 70) with
  | error e =>
    rw [hr] at hmade
    cases hmade
  | ok r =>
    rw [hr] at hmade
    obtain ⟨hlater, hnow⟩ := Prod.mk.inj (Except.ok.inj hmade)
    refine ⟨r.1, r.2, rfl, hlater, fun hgranted => ?_⟩
    obtain ⟨k, hk, hrole, -⟩ := hgranted.validates
    unfold roleLater at hnow
    rw [hk, Option.map_some, hrole] at hnow
    revert hnow
    decide

end KeyRotation
end Vai
