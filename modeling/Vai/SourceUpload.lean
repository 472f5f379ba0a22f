import Vai.UploadSpec
import Vai.Requests
/-!
# SourceUpload — the files of a migrated repository

`upload_source_files_handler` of `server/mod.rs`, after the permission check: the files of a local repository are put
under `current/`, and on a Postgres backend each path gets a row in `migration_state`, so that a retried request skips
what is already there.

The row is written and the path reported whether or not the `put` has succeeded.  `sources_stored` says which failures
this survives.
-/
namespace Vai
namespace Handlers

open Proc Backend

/-- The repository, and the rows of `migration_state` that are its own. -/
structure SourceStore where
  backend : Backend
  migration : FMap Path Text

inductive TableCall where
  | select | insert
deriving DecidableEq, Repr

/-- The calls that fail, those on `migration_state` by the position of the file in its request. -/
structure SourceFails where
  calls : Fails
  table : Nat → TableCall → Bool

/-- A server has the tables of Postgres, a local backend has not. -/
inductive StorageMode where
  | server | local
deriving DecidableEq, Repr

variable (env : Env) (fails : SourceFails) (codecs : Codecs) (mode : StorageMode)

def checkSourceRequest (body : UploadFilesRequest) : Except ApiError Unit :=
  if maxFilesPerRequest < body.files.length then
    .error (.badRequest ("too many files: ".toList ++ Text.ofNat body.files.length ++ ", maximum is ".toList ++
      Text.ofNat maxFilesPerRequest))
  else body.files.forM (fun entry => validateStrLen entry.path maxPathLen "file path".toList)

/-- `let _ = file_store.put(..)`. -/
def putIgnored (i : Nat) (key : Text) (content : Bytes) (s : SourceStore) : SourceStore :=
  { s with backend := (put fails.calls i key content s.backend).2 }

/-- `SELECT EXISTS(..)` on `migration_state`; a query that fails finds nothing. -/
def alreadyDone (i : Nat) (path : Path) (hash : Text) (s : SourceStore) : Bool :=
  decide (mode = .server) && !fails.table i .select && decide (s.migration.get path = some hash)

/-- `INSERT .. ON CONFLICT DO UPDATE`, its result ignored. -/
def recordProgress (i : Nat) (path : Path) (hash : Text) (s : SourceStore) : SourceStore :=
  if mode = .server ∧ fails.table i .insert = false then { s with migration := s.migration.insert path hash } else s

/-- The uploaded paths and the number of skipped ones. -/
structure Progress where
  uploaded : List Path
  skipped : Nat
deriving DecidableEq, Repr

def uploadSource (progress : Progress) (entry : FileEntry × Nat) : Proc SourceStore ApiError Progress := do
  let (path, content) ← Proc.ofExcept (fun e => e) (checkEntry codecs entry.1)
  let hash := env.sha256Hex content
  if ← Proc.read (alreadyDone fails mode entry.2 path hash) then
    pure { progress with skipped := progress.skipped + 1 }
  else
    modify (putIgnored fails entry.2 (blobKey hash) content)
    modify (putIgnored fails entry.2 (currentKey path) content)
    modify (recordProgress fails mode entry.2 path hash)
    pure { progress with uploaded := progress.uploaded ++ [path] }

/-- `upload_source_files_handler`. -/
def uploadSourceFilesHandler (body : UploadFilesRequest) : Proc SourceStore ApiError UploadFilesResponse := do
  Proc.ofExcept (fun e => e) (checkSourceRequest body)
  let progress ← body.files.zipIdx.foldlM (uploadSource env fails codecs mode) ⟨[], 0⟩
  pure ⟨progress.uploaded.length, progress.skipped, progress.uploaded⟩

/-! ## What one file leaves -/

variable {env fails codecs mode} {content : Path → Bytes} {s s' : SourceStore} {i : Nat} {p q : Path}

theorem put_current (i : Nat) (key : Text) (c : Bytes) (b : Backend) (q : Path) :
    (put fails.calls i key c b).2.current q =
      if currentKey q = key ∧ fails.calls.store i (.put key) = false then some c else b.current q := by
  unfold put Backend.files Backend.current
  by_cases hf : fails.calls.store i (.put key) = true
  · rw [if_pos hf, if_neg (fun h => absurd (hf.symm.trans h.2) (by decide))]
    rfl
  · rw [if_neg hf]
    show FMap.get (b.store.insert key c) (currentKey q) = _
    rw [FMap.get_insert]
    simp [hf]

/-- Every row names the content that belongs to its path, and this content is stored. -/
def Stocked (env : Env) (content : Path → Bytes) (s : SourceStore) : Prop :=
  ∀ p hash, s.migration.get p = some hash → hash = env.sha256Hex (content p) ∧ s.backend.current p = some (content p)

/-- The state after a file that is not skipped. -/
def putSource (env : Env) (fails : SourceFails) (mode : StorageMode) (i : Nat) (p : Path) (c : Bytes) (s : SourceStore) :
    SourceStore :=
  recordProgress fails mode i p (env.sha256Hex c) (putIgnored fails i (currentKey p) c
    (putIgnored fails i (blobKey (env.sha256Hex c)) c s))

theorem current_putSource (i : Nat) (p : Path) (c : Bytes) (s : SourceStore) (q : Path) :
    (putSource env fails mode i p c s).backend.current q =
      if q = p ∧ fails.calls.store i (.put (currentKey p)) = false then some c else s.backend.current q := by
  have hrec : (putSource env fails mode i p c s).backend = (putIgnored fails i (currentKey p) c
      (putIgnored fails i (blobKey (env.sha256Hex c)) c s)).backend := by
    unfold putSource recordProgress
    split <;> rfl
  have hkey : currentKey q = currentKey p ↔ q = p := ⟨currentKey_injective, congrArg _⟩
  rw [hrec]
  unfold putIgnored
  dsimp only
  rw [put_current, put_current]
  simp only [hkey, currentKey_ne_blobKey, false_and, if_false]

theorem migration_putSource {hash : Text} (h : (putSource env fails mode i p (content p) s).migration.get q = some hash) :
    q = p ∧ hash = env.sha256Hex (content p) ∨ s.migration.get q = some hash := by
  unfold putSource recordProgress at h
  split at h
  · have h : FMap.get (s.migration.insert p (env.sha256Hex (content p))) q = some hash := h
    rw [FMap.get_insert] at h
    split at h
    · rename_i hq
      exact .inl ⟨hq, (Option.some.inj h).symm⟩
    · exact .inr h
  · exact .inr h

/-- A path whose content is there already, or that is stored now, stays in order. -/
theorem Stocked.put (h : Stocked env content s)
    (hput : fails.calls.store i (.put (currentKey p)) = true → s.backend.current p = some (content p)) :
    Stocked env content (putSource env fails mode i p (content p) s) ∧
      (putSource env fails mode i p (content p) s).backend.current p = some (content p) := by
  have hnow : (putSource env fails mode i p (content p) s).backend.current p = some (content p) := by
    rw [current_putSource]
    by_cases hf : fails.calls.store i (.put (currentKey p)) = true
    · rw [if_neg fun h => absurd (hf.symm.trans h.2) (by decide)]
      exact hput hf
    · rw [if_pos ⟨rfl, by simpa using hf⟩]
  refine ⟨fun q hash hq => ?_, hnow⟩
  rcases migration_putSource hq with ⟨rfl, hhash⟩ | hold
  · exact ⟨hhash, hnow⟩
  · obtain ⟨hhash, hcur⟩ := h q hash hold
    refine ⟨hhash, ?_⟩
    rw [current_putSource]
    split
    · rename_i hqp
      rw [hqp.1]
    · exact hcur

theorem current_putSource_of_stored (h : s.backend.current q = some (content q)) :
    (putSource env fails mode i p (content p) s).backend.current q = some (content q) := by
  rw [current_putSource]
  split
  · rename_i hqp
    rw [hqp.1]
  · exact h

/-! ## Requests -/

/-- The files of a request have the contents that belong to their paths. -/
def SameContent (codecs : Codecs) (content : Path → Bytes) (body : UploadFilesRequest) : Prop :=
  ∀ entry ∈ body.files, ∀ p c, checkEntry codecs entry = .ok (p, c) → c = content p

/-- Where the `put` of a file under `current/` fails, its content is there already. -/
def PutsHold (codecs : Codecs) (fails : SourceFails) (body : UploadFilesRequest) (s : SourceStore) : Prop :=
  ∀ q ∈ body.files.zipIdx, ∀ p c, checkEntry codecs q.1 = .ok (p, c) →
    fails.calls.store q.2 (.put (currentKey p)) = true → s.backend.current p = some c

/-- The files of a list are checked and stored. -/
def Held (codecs : Codecs) (files : List FileEntry) (s : SourceStore) : Prop :=
  ∀ entry ∈ files, ∃ p c, checkEntry codecs entry = .ok (p, c) ∧ s.backend.current p = some c

/-- What a request has done when it has come to a file: the rows are in order, what was stored still is, and the files so
far are stored. -/
structure Through (env : Env) (codecs : Codecs) (content : Path → Bytes) (s₀ : SourceStore) (files : List FileEntry)
    (s : SourceStore) : Prop where
  stocked : Stocked env content s
  kept : ∀ p, s₀.backend.current p = some (content p) → s.backend.current p = some (content p)
  held : Held codecs files s

theorem Through.mono {s₀ : SourceStore} {files : List FileEntry} (h : Through env codecs content s₀ files s) :
    Through env codecs content s₀ [] s := ⟨h.stocked, h.kept, fun _ hmem => by cases hmem⟩

theorem uploadSource_through {s₀ : SourceStore} {body : UploadFilesRequest} (hsame : SameContent codecs content body)
    (hputs : PutsHold codecs fails body s₀) {files : List FileEntry} (hfiles : ∀ e ∈ files, e ∈ body.files)
    {entry : FileEntry × Nat} (hmem : entry ∈ body.files.zipIdx) (h : Through env codecs content s₀ files s)
    (progress : Progress) : Ends (uploadSource env fails codecs mode progress entry) s
      (fun _ s' => Through env codecs content s₀ (files ++ [entry.1]) s') (fun _ s' => Through env codecs content s₀ [] s') := by
  unfold uploadSource
  refine ends_bind (ends_ofExcept (fun r hr => ?_) fun _ _ => h.mono)
  obtain ⟨p, c⟩ := r
  obtain rfl : c = content p := hsame entry.1 (List.fst_mem_of_mem_zipIdx hmem) p c hr
  -- every file so far has its content, so it keeps what it has
  have hadd : ∀ {s'}, Held codecs files s' → s'.backend.current p = some (content p) → Held codecs (files ++ [entry.1]) s' := by
    intro s' hheld hcur e he
    rcases List.mem_append.1 he with he | he
    · exact hheld e he
    · rw [List.mem_singleton.1 he]
      exact ⟨p, _, hr, hcur⟩
  refine ends_bind (ends_read ?_)
  split
  · rename_i hdone
    simp only [alreadyDone, Bool.and_eq_true, decide_eq_true_eq] at hdone
    exact ends_pure ⟨h.stocked, h.kept, hadd h.held (h.stocked p _ hdone.2).2⟩
  · show Through env codecs content s₀ (files ++ [entry.1]) (putSource env fails mode entry.2 p (content p) s)
    have hput := @Stocked.put env fails mode content s entry.2 p h.stocked fun hf => h.kept p (hputs entry hmem p _ hr hf)
    obtain ⟨hstocked, hcur⟩ := hput
    refine ⟨hstocked, fun q hq => current_putSource_of_stored (h.kept q hq), hadd (fun e he => ?_) hcur⟩
    obtain ⟨q, c, hq, hcq⟩ := h.held e he
    obtain rfl := hsame e (hfiles e he) q c hq
    exact ⟨q, _, hq, current_putSource_of_stored hcq⟩

/-- **One request**: under failures that hurt no file it leaves the rows in order, and what it reports is stored. -/
theorem uploadSourceFiles_through {body : UploadFilesRequest} (hsame : SameContent codecs content body)
    (hputs : PutsHold codecs fails body s) (h : Stocked env content s) :
    Ends (uploadSourceFilesHandler env fails codecs mode body) s
      (fun _ s' => Through env codecs content s body.files s') (fun _ s' => Through env codecs content s [] s') := by
  have hstart : Through env codecs content s [] s := ⟨h, fun _ hq => hq, fun _ hmem => by cases hmem⟩
  unfold uploadSourceFilesHandler
  refine ends_bind (ends_ofExcept (fun _ _ => ?_) fun _ _ => hstart)
  refine (ends_foldlM (fun pre _ s' => Through env codecs content s (pre.map Prod.fst) s') body.files.zipIdx []
    (⟨[], 0⟩ : Progress) s hstart ?_).bind (fun _ _ h => h) fun progress s' hs' => ?_
  · intro pre entry post progress s' hsplit hs'
    rw [List.nil_append] at hsplit
    have hpre : ∀ e ∈ pre.map Prod.fst, e ∈ body.files := by
      intro e he
      obtain ⟨q, hq, rfl⟩ := List.mem_map.1 he
      exact List.fst_mem_of_mem_zipIdx (by rw [hsplit]; exact List.mem_append_left _ hq)
    rw [List.map_append]
    exact uploadSource_through hsame hputs hpre (by rw [hsplit]; simp) hs' progress
  · rw [List.nil_append, List.zipIdx_map_fst] at hs'
    exact ends_pure hs'

/-! ## Runs -/

structure SourceCall where
  body : UploadFilesRequest
  fails : SourceFails

/-- One entry of a run: the request, and its answer. -/
structure SourceServed where
  body : UploadFilesRequest
  answer : Except ApiError UploadFilesResponse

/-- The runs of requests that all meet `P` in the state they are made in. -/
inductive SourceRan (env : Env) (codecs : Codecs) (mode : StorageMode) (P : SourceCall → SourceStore → Prop)
    (s₀ : SourceStore) : List SourceServed → SourceStore → Prop where
  | start : SourceRan env codecs mode P s₀ [] s₀
  | step {l : List SourceServed} {s : SourceStore} (h : SourceRan env codecs mode P s₀ l s) (c : SourceCall) (hc : P c s) :
      SourceRan env codecs mode P s₀ (l ++ [⟨c.body, (uploadSourceFilesHandler env c.fails codecs mode c.body s).1⟩])
        (uploadSourceFilesHandler env c.fails codecs mode c.body s).2

/-- **A source upload can be resumed, and claims no file it does not hold**, where a `put` fails only on what is stored
already: after every run of requests with one content for each path, retries included, every file of a request that was
answered is stored with its content, and every row has the hash of a content that is stored. -/
theorem sources_stored {b : Backend} {l : List SourceServed} (h : SourceRan env codecs mode
      (fun c s => SameContent codecs content c.body ∧ PutsHold codecs c.fails c.body s) (⟨b, ∅⟩ : SourceStore) l s) :
    (∀ served ∈ l, served.answer.isOk = true → Held codecs served.body.files s) ∧
      ∀ p hash, s.migration.get p = some hash → ∃ c, s.backend.current p = some c ∧ env.sha256Hex c = hash := by
  suffices hinv : Stocked env content s ∧ ∀ served ∈ l, SameContent codecs content served.body ∧
      (served.answer.isOk = true → Held codecs served.body.files s) by
    refine ⟨fun served hmem hok => (hinv.2 served hmem).2 hok, fun p hash hrow => ?_⟩
    obtain ⟨hhash, hcur⟩ := hinv.1 p hash hrow
    exact ⟨_, hcur, hhash.symm⟩
  induction h with
  | start => exact ⟨fun p hash hrow => by simp at hrow, fun _ hmem => by cases hmem⟩
  | @step l s _ c hc ih =>
    have hends := @uploadSourceFiles_through env c.fails codecs mode content s c.body hc.1 hc.2 ih.1
    have hthrough : ∃ files, Through env codecs content s files (uploadSourceFilesHandler env c.fails codecs mode c.body s).2 ∧
        ((uploadSourceFilesHandler env c.fails codecs mode c.body s).1.isOk = true → files = c.body.files) := by
      rcases hrun : uploadSourceFilesHandler env c.fails codecs mode c.body s with ⟨e | r, s'⟩
      · exact ⟨[], hends.error hrun, fun hok => by cases hok⟩
      · exact ⟨c.body.files, hends.ok hrun, fun _ => rfl⟩
    obtain ⟨files, ht, hanswered⟩ := hthrough
    refine ⟨ht.stocked, fun served hmem => ?_⟩
    rcases List.mem_append.1 hmem with hmem | hmem
    · obtain ⟨hsame, hheld⟩ := ih.2 served hmem
      refine ⟨hsame, fun hok e he => ?_⟩
      obtain ⟨p, c', hp, hcur⟩ := hheld hok e he
      obtain rfl := hsame e he p c' hp
      exact ⟨p, _, hp, ht.kept p hcur⟩
    · rw [List.mem_singleton.1 hmem]
      refine ⟨hc.1, fun hok => ?_⟩
      rw [← hanswered hok]
      exact ht.held

/-! ## One file -/

/-- A request for the file `a`. -/
def sourceA : UploadFilesRequest := ⟨[⟨"a".toList, "YQ==".toList⟩], []⟩

theorem checkEntry_sourceA : ∀ entry ∈ sourceA.files, checkEntry oneLetter entry = .ok ("a".toList, [97]) := by
  decide +kernel

theorem sameContent_sourceA : SameContent oneLetter (fun _ => [97]) sourceA := by
  intro entry hmem p c h
  rw [checkEntry_sourceA entry hmem] at h
  cases h
  rfl

/-- The `put` of `current/a` fails. -/
def failsSourceA : SourceFails := ⟨⟨fun _ => false, fun _ op => op = .put (currentKey "a".toList)⟩, fun _ _ => false⟩

/-- The row is not written. -/
def failsRow : SourceFails := ⟨Fails.none, fun _ call => call = .insert⟩

/-- The first request stores the file but cannot record it; in the second one the `put` fails, and the file is there. -/
theorem sources_stored_retry : ∃ l s,
    SourceRan hashed oneLetter .server
      (fun c s => SameContent oneLetter (fun _ => [97]) c.body ∧ PutsHold oneLetter c.fails c.body s)
      ⟨fresh, ∅⟩ l s ∧ l.length = 2 ∧
    ∀ served ∈ l, served.answer.isOk = true → Held oneLetter served.body.files s := by
  have hstored : (uploadSourceFilesHandler hashed failsRow oneLetter .server sourceA ⟨fresh, ∅⟩).2.backend.current "a".toList =
      some [97] := by decide +kernel
  have h₁ := @SourceRan.step hashed oneLetter .server (fun c s => SameContent oneLetter (fun _ => [97]) c.body ∧
    PutsHold oneLetter c.fails c.body s) ⟨fresh, ∅⟩ _ _ .start ⟨sourceA, failsRow⟩
    ⟨sameContent_sourceA, fun _ _ _ _ _ h => by cases h⟩
  have h₂ := h₁.step ⟨sourceA, failsSourceA⟩ ⟨sameContent_sourceA, fun q hq p c h _ => by
    rw [checkEntry_sourceA q.1 (List.fst_mem_of_mem_zipIdx hq)] at h
    cases h
    exact hstored⟩
  exact ⟨_, _, h₂, rfl, (sources_stored h₂).1⟩

/-- The `put` fails, the path is reported, and the retry skips it: the file is nowhere. -/
theorem failed_put_is_reported :
    let first := uploadSourceFilesHandler hashed failsSourceA oneLetter .server sourceA ⟨fresh, ∅⟩
    let second := uploadSourceFilesHandler hashed ⟨Fails.none, fun _ _ => false⟩ oneLetter .server sourceA first.2
    first.1.toOption = some ⟨1, 0, ["a".toList]⟩ ∧ first.2.migration.get "a".toList = some (hashed.sha256Hex [97]) ∧
      second.1.toOption = some ⟨0, 1, []⟩ ∧ second.2.backend.current "a".toList = none := by
  decide +kernel

end Handlers
end Vai
