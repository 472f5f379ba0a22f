import Vai.TryMerge
import Vai.World
/-!
# Diff — the diff of a workspace

`diff/mod.rs`: `compute_with_fs` walks the overlay and the deletion list through the file system; `record_events`
writes the file and entity events of a diff to the log, once, while the workspace is `Created`.

What the diff of a workspace is (`computeWithFs_spec`): one entry for each overlay file, then one for each listed
deletion of a file that exists.  What recording does (`recordEvents_spec`): nothing unless the active workspace is
`Created`; then its events and the move to `Active`.
-/
namespace Vai
namespace Diff

open Proc

/-! ## Entity changes of one file -/

def countLines (content : Bytes) : Nat := if content.isEmpty then 0 else (content.filter (· = 10)).length + 1

def change (relPath : Path) (e : Entity) (changeType : EntityChangeType) (lineRange : Option (Nat × Nat)) : EntityChange :=
  { entityId := e.id, qualifiedName := e.qualifiedName, kind := e.kind, filePath := relPath, changeType, lineRange }

/-- An entity of the overlay against the one of the same id in the base version. -/
def overlayChange (relPath : Path) (overlay base : Bytes) (e : Entity) : Option Entity → Option EntityChange
  | some b =>
    if (Merge.span base b).getD [] ≠ (Merge.span overlay e).getD [] then some (change relPath e .modified (some e.lineRange))
    else none
  | none => some (change relPath e .added (some e.lineRange))

def computeEntityDiff (env : Env) (relPath : Path) (overlay : Bytes) (base : Option Bytes) :
    Except GraphError (List EntityChange) := do
  let (overlayEnts, _) ← env.parseRustSource relPath overlay
  let overlayIds := env.hashOrder (Merge.ids overlayEnts)
  match base with
  | some base => do
    let (baseEnts, _) ← env.parseRustSource relPath base
    let changed := overlayIds.filterMap (fun id => (Merge.byId overlayEnts id).bind (fun e =>
      overlayChange relPath overlay base e (Merge.byId baseEnts id)))
    let removed := (env.hashOrder (Merge.ids baseEnts)).filterMap (fun id =>
      if id ∈ Merge.ids overlayEnts then none
      else (Merge.byId baseEnts id).map (fun e => change relPath e .removed none))
    pure (changed ++ removed)
  | none =>
    pure (overlayIds.filterMap (fun id => (Merge.byId overlayEnts id).map (fun e =>
      change relPath e .added (some e.lineRange))))

/-! ## The diff -/

section Compute

variable {φ : Type} (env : Env) (fs : MergeFs φ)

abbrev Changes := List FileDiff × List EntityChange

def overlayEntry (relPath : Path) (content : Bytes) (there : Bool) : FileDiff :=
  { path := relPath, changeType := if there then .modified else .added, lines := countLines content,
    contentHash := env.sha256Hex content }

def deletedEntry (path : Path) : FileDiff := { path, changeType := .deleted, lines := 0, contentHash := [] }

/-- The base content of a file, `None` where it does not exist. -/
def readIfExists (key : Text) : Proc φ MergeError (Option Bytes) := do
  if ← io (fs.fileExists key) then
    let content ← io (fs.readFile key)
    pure (some content)
  else pure none

/-- One overlay key of the walk. -/
def overlayStep (acc : Changes) (key : Text) : Proc φ MergeError Changes :=
  match Text.stripPrefix overlayPrefix key with
  | none => fail .panicked
  | some relPath => do
    let content ← io (fs.readFile key)
    let there ← io (fs.fileExists (baseKey relPath))
    let fileDiffs := acc.1 ++ [overlayEntry env relPath content there]
    if Merge.isRustPath relPath then
      let base ← readIfExists fs (baseKey relPath)
      let changes ← ofExcept MergeError.graph (computeEntityDiff env relPath content base)
      pure (fileDiffs, acc.2 ++ changes)
    else pure (fileDiffs, acc.2)

/-- One listed deletion; a base file that cannot be read or parsed contributes no entity changes. -/
def deletedStep (acc : Changes) (path : Path) : Proc φ MergeError Changes := do
  if ← io (fs.fileExists (baseKey path)) then
    let fileDiffs := acc.1 ++ [deletedEntry path]
    if Merge.isRustPath path then
      match ← attempt (io (fs.readFile (baseKey path))) with
      | .ok base =>
        match env.parseRustSource path base with
        | .ok (entities, _) => pure (fileDiffs, acc.2 ++ entities.map (fun e => change path e .removed none))
        | .error _ => pure (fileDiffs, acc.2)
      | .error _ => pure (fileDiffs, acc.2)
    else pure (fileDiffs, acc.2)
  else pure acc

def computeWithFs (workspaceId : Uuid) (baseVersion : Text) (deletedPaths : List Path) :
    Proc φ MergeError WorkspaceDiff := do
  let overlayKeys ← io (fs.listFiles overlayPrefix)
  let acc ← overlayKeys.foldlM (overlayStep env fs) ([], [])
  let acc ← deletedPaths.foldlM (deletedStep env fs) acc
  pure { workspaceId, baseVersion, fileDiffs := acc.1, entityChanges := acc.2 }

end Compute

/-! ## Recording a diff -/

/-- `split("::").last()`, on the segment read so far and the text left. -/
def lastSegment : Text → Text → Text
  | seg, [] => seg.reverse
  | _, ':' :: ':' :: s => lastSegment [] s
  | seg, c :: s => lastSegment (c :: seg) s

def fileEvent (w : Uuid) (fd : FileDiff) : EventKind :=
  match fd.changeType with
  | .added => .fileAdded w fd.path fd.contentHash
  | .modified => .fileModified w fd.path [] fd.contentHash
  | .deleted => .fileRemoved w fd.path

def entityEvent (w : Uuid) (ec : EntityChange) : EventKind :=
  match ec.changeType with
  | .added => .entityAdded w ⟨ec.entityId, ec.kind.asStr, lastSegment [] ec.qualifiedName, ec.qualifiedName, ec.filePath⟩
  | .modified => .entityModified w ec.entityId (ec.kind.asStr ++ " `".toList ++ ec.qualifiedName ++
      "` modified in ".toList ++ ec.filePath)
  | .removed => .entityRemoved w ec.entityId

section Record

variable {φ : Type} (env : Env)

def appendEvent (k : EventKind) : Proc (World φ) MergeError PUnit := do
  let _ ← onVai env (VaiDir.append k)

def events (d : WorkspaceDiff) : List EventKind :=
  d.fileDiffs.map (fileEvent d.workspaceId) ++ d.entityChanges.map (entityEvent d.workspaceId)

def recordEvents (d : WorkspaceDiff) : Proc (World φ) MergeError Unit := do
  let m ← active env
  if m.status ≠ .created then pure ()
  else
    onVai env (pure ())
    (d.fileDiffs.map (fileEvent d.workspaceId)).forM (appendEvent env)
    (d.entityChanges.map (entityEvent d.workspaceId)).forM (appendEvent env)
    onVai env (VaiDir.updateMeta { m with status := .active })

end Record

/-! ## What the diff is -/

section Spec

variable {φ : Type} {env : Env} {fs : MergeFs φ} {U : Path → Prop} {rep : φ → Files → Prop} {may : Prop} {s : φ} {V : Files}

/-- The entry of an overlay file. -/
def overlayDiff (env : Env) (V : Files) (p : Path) : FileDiff :=
  overlayEntry env p ((V (.overlay p)).getD []) (V (.base p)).isSome

/-- The entity diff of an overlay file goes through: its two versions parse. -/
def ParsesAt (env : Env) (V : Files) (p : Path) : Prop :=
  Merge.isRustPath p = true → ∃ r, computeEntityDiff env p ((V (.overlay p)).getD []) (V (.base p)) = .ok r

def Parses (env : Env) (V : Files) : Prop := ∀ p, (V (.overlay p)).isSome → ParsesAt env V p

/-- The file entries of a diff over the listing `l` of the overlay. -/
def fileDiffs (env : Env) (V : Files) (l D : List Path) : List FileDiff :=
  l.map (overlayDiff env V) ++ (D.filter (fun p => (V (.base p)).isSome)).map deletedEntry

theorem readIfExists_spec (C : fs.ContractOn U rep may) (h : rep s V) (k : Slot) (hu : U k.path) :
    Ends (readIfExists fs k.key) s (fun o s' => rep s' V ∧ o = V k) (fun _ _ => may) := by
  unfold readIfExists
  refine Ends.bind (C.there h k hu) (fun _ _ h => h) fun there s' ⟨h', ht⟩ => ?_
  cases hk : V k with
  | none =>
    rw [ht, hk]
    exact ends_pure ⟨h', rfl⟩
  | some c =>
    rw [ht, hk]
    refine Ends.bind (C.read_of_some h' k hu hk) (fun _ _ h => h) fun c s'' ⟨h'', hc⟩ => ?_
    exact ends_pure ⟨h'', by rw [hc]⟩

theorem overlayStep_spec (C : fs.ContractOn U rep may) (h : rep s V) {p : Path} (hu : U p)
    (hp : (V (.overlay p)).isSome) (acc : Changes) : Ends (overlayStep env fs acc (overlayKey p)) s
      (fun acc' s' => rep s' V ∧ acc'.1 = acc.1 ++ [overlayDiff env V p] ∧ ParsesAt env V p)
      (fun e s' => may ∨ rep s' V ∧ ¬ ParsesAt env V p ∧ ∃ g, e = .graph g) := by
  obtain ⟨c, hc⟩ := Option.isSome_iff_exists.1 hp
  unfold overlayStep
  rw [overlayKey, Text.stripPrefix_append]
  refine Ends.bind (C.read_of_some h (.overlay p) hu hc) (fun _ _ h => .inl h) ?_
  rintro c' s₁ ⟨h₁, hc'⟩
  subst hc'
  refine Ends.bind (C.there h₁ (.base p) hu) (fun _ _ h => .inl h) ?_
  rintro there s₂ ⟨h₂, ht⟩
  have hentry : overlayEntry env p c' there = overlayDiff env V p := by simp [overlayDiff, hc, ht]
  split
  · rename_i hrs
    refine Ends.bind (readIfExists_spec C h₂ (.base p) hu) (fun _ _ h => .inl h) ?_
    rintro base s₃ ⟨h₃, hb⟩
    have hpar : ParsesAt env V p ↔ ∃ r, computeEntityDiff env p c' base = .ok r := by
      simp [ParsesAt, hrs, hc, hb]
    cases hr : computeEntityDiff env p c' base with
    | ok r => exact ends_bind (ends_pure (ends_pure ⟨h₃, by rw [← hentry], hpar.2 ⟨r, hr⟩⟩))
    | error e =>
      refine ends_bind (ends_fail (.inr ⟨h₃, fun hP => ?_, e, rfl⟩))
      obtain ⟨r, hr'⟩ := hpar.1 hP
      rw [hr] at hr'
      cases hr'
  · rename_i hrs
    exact ends_pure ⟨h₂, by rw [← hentry], fun h => absurd h hrs⟩

theorem deletedStep_spec (C : fs.ContractOn U rep may) (h : rep s V) (acc : Changes) {p : Path} (hu : U p) :
    Ends (deletedStep env fs acc p) s
      (fun acc' s' => rep s' V ∧ acc'.1 = acc.1 ++ ([p].filter (fun p => (V (.base p)).isSome)).map deletedEntry ∧
        (acc'.1 = acc.1 → acc'.2 = acc.2))
      (fun _ _ => may) := by
  unfold deletedStep
  refine Ends.bind (C.there h (.base p) hu) (fun _ _ h => h) fun there s₁ ⟨h₁, ht⟩ => ?_
  by_cases hb : (V (.base p)).isSome
  · rw [ht, hb, if_pos rfl]
    have hf : acc.1 ++ [deletedEntry p] = acc.1 ++ ([p].filter (fun p => (V (.base p)).isSome)).map deletedEntry := by
      simp [hb]
    have hne : acc.1 ++ [deletedEntry p] ≠ acc.1 := by simp
    split
    · -- the read and the parse are best effort: whatever they answer, the entry is the same
      refine Ends.bind (R := fun _ s' => rep s' V) (F := fun _ _ => False)
        (ends_attempt ((C.read h₁ (.base p) hu).mono (fun _ _ h => h.1) (fun _ _ h => h.1)))
        (fun _ _ h => h.elim) fun r s₂ h₂ => ?_
      cases r with
      | error e => exact ends_pure ⟨h₂, hf, fun h => absurd h hne⟩
      | ok base =>
        simp only
        split
        · exact ends_pure ⟨h₂, hf, fun h => absurd h hne⟩
        · exact ends_pure ⟨h₂, hf, fun h => absurd h hne⟩
    · exact ends_pure ⟨h₁, hf, fun h => absurd h hne⟩
  · rw [ht, if_neg hb]
    exact ends_pure ⟨h₁, by simp [hb], fun _ => rfl⟩

/-- **The diff of a workspace**: one entry for each overlay file, then one for each listed deletion of a file that
exists; it fails only where the file system does or a version does not parse. -/
theorem computeWithFs_spec (C : fs.ContractOn U rep may) (h : rep s V) (w : Uuid) (b : Text) {D : List Path}
    (hu : V.Within D U) :
    Ends (computeWithFs env fs w b D) s
      (fun d s' => rep s' V ∧ Parses env V ∧ d.workspaceId = w ∧ (d.fileDiffs = [] → d.entityChanges = []) ∧
        ∃ l, Lists l (fun p => V (.overlay p)) ∧ d.fileDiffs = fileDiffs env V l D)
      (fun e s' => may ∨ rep s' V ∧ ¬ Parses env V ∧ ∃ g, e = .graph g) := by
  unfold computeWithFs
  refine Ends.bind (C.overlays h) (fun _ _ h => .inl h) ?_
  rintro _ s₁ ⟨h₁, l, rfl, hl⟩
  rw [List.foldlM_map]
  -- the overlay walk
  refine Ends.bind (ends_foldlM (fun pre (acc : Changes) s => rep s V ∧ acc.1 = pre.map (overlayDiff env V) ∧
    (acc.1 = [] → acc.2 = []) ∧ ∀ p ∈ pre, ParsesAt env V p) l [] ([], []) s₁ ⟨h₁, rfl, fun _ => rfl, by simp⟩
    (fun pre p post acc s hlist ⟨hs, hd, _, hp⟩ => ?_)) (fun _ _ h => h) fun acc s₂ ⟨h₂, hd, hne, hpar⟩ => ?_
  · have hsome := (hl.2 p).1 (mem_of_split hlist)
    refine (overlayStep_spec C hs (hu.overlay p hsome) hsome acc).mono (fun acc' s' ⟨hs', hd', hp'⟩ => ?_) (fun _ _ he => ?_)
    · refine ⟨hs', by rw [hd', hd]; simp, fun h => by simp [hd'] at h, fun q hq => ?_⟩
      rcases List.mem_append.1 hq with hq | hq
      · exact hp q hq
      · rw [List.mem_singleton.1 hq]; exact hp'
    · exact he.imp_right (fun hn => ⟨hn.1, fun hP => hn.2.1 (hP p hsome), hn.2.2⟩)
  · -- the deletions
    simp only [List.nil_append] at hd hpar
    refine Ends.bind (ends_foldlM (fun pre (acc' : Changes) s => rep s V ∧
      acc'.1 = acc.1 ++ (pre.filter (fun p => (V (.base p)).isSome)).map deletedEntry ∧ (acc'.1 = [] → acc'.2 = []))
      D [] acc s₂ ⟨h₂, by simp, hne⟩ (fun pre p post acc' s hlist ⟨hs, hd', hne'⟩ => ?_)) (fun _ _ h => .inl h)
      fun acc' s₃ ⟨h₃, hd', hne'⟩ => ?_
    · refine (deletedStep_spec C hs acc' (hu.deleted p (mem_of_split hlist))).mono (fun acc'' s' ⟨hs', hd'', hsame⟩ => ?_) (fun _ _ h => h)
      refine ⟨hs', by rw [hd'', hd']; simp [List.filter_append], fun hnil => ?_⟩
      have h0 : acc'.1 = [] := by
        rw [hd''] at hnil
        exact (List.append_eq_nil_iff.1 hnil).1
      rw [hsame (by rw [hnil, h0]), hne' h0]
    · refine ends_pure ⟨h₃, fun p hp => hpar p ((hl.2 p).2 hp), rfl, hne', l, hl, ?_⟩
      simp only [List.nil_append] at hd'
      rw [fileDiffs, hd', hd]

end Spec

/-! ## What recording does -/

section RecordSpec

variable {φ : Type} {env : Env} {w : World φ} {m : WorkspaceMeta}

theorem appendEvent_spec (w : World φ) (k : EventKind) : Ends (appendEvent env k) w
    (fun _ w' => w'.fs = w.fs ∧ w'.vai = w.vai.logged [k]) (fun _ _ => env.Faulty) := by
  refine Ends.bind (ends_onVai_of_ok rfl) (fun _ _ h => h) fun e w' h => ?_
  exact ends_pure ⟨h.1, h.2.2⟩

theorem appendEvents_spec (w : World φ) (ks : List EventKind) : Ends (ks.forM (appendEvent env)) w
    (fun _ w' => w'.fs = w.fs ∧ w'.vai = w.vai.logged ks) (fun _ _ => env.Faulty) := by
  refine ends_forM (fun pre w' => w'.fs = w.fs ∧ w'.vai = w.vai.logged pre) ks [] w ⟨rfl, rfl⟩ ?_
  intro pre k post w₁ _ ⟨hf, hv⟩
  refine (appendEvent_spec w₁ k).mono (fun _ w₂ ⟨hf₂, hv₂⟩ => ⟨hf₂.trans hf, ?_⟩) (fun _ _ h => h)
  rw [hv₂, hv]
  simp [VaiDir.logged]

/-- The directory after recording `d` for the active workspace `m`. -/
def recorded (d : WorkspaceDiff) (m : WorkspaceMeta) (v : VaiDir) : VaiDir :=
  if m.status = .created then
    { v.logged (events d) with workspaces := v.workspaces.insert m.id { m with status := .active } }
  else v

/-- **Recording is one-shot**: it writes the events of the diff and moves the workspace to `Active`, and only while the
workspace is `Created`. -/
theorem recordEvents_spec (d : WorkspaceDiff) (h : w.vai.IsActive m) : Ends (recordEvents env d) w
    (fun _ w' => w'.fs = w.fs ∧ w'.vai = recorded d m w.vai) (fun _ _ => env.Faulty) := by
  unfold recordEvents
  refine Ends.bind (active_spec h) (fun _ _ h => h) ?_
  rintro m' w₁ ⟨hf₁, hm', hv₁⟩
  subst m'
  by_cases hc : m.status = .created
  · rw [if_neg (not_not.2 hc)]
    refine Ends.bind (ends_onVai_of_ok rfl) (fun _ _ h => h) fun _ w₂ ⟨hf₂, _, hv₂⟩ => ?_
    refine Ends.bind (appendEvents_spec w₂ _) (fun _ _ h => h) fun _ w₃ ⟨hf₃, hv₃⟩ => ?_
    refine Ends.bind (appendEvents_spec w₃ _) (fun _ _ h => h) fun _ w₄ ⟨hf₄, hv₄⟩ => ?_
    have hv : w₄.vai = w.vai.logged (events d) := by
      rw [hv₄, hv₃, hv₂, hv₁]
      simp [VaiDir.logged, events]
    refine (ends_onVai_of_ok (a := ()) (v := recorded d m w.vai) ?_).mono (fun _ w₅ h₅ => ?_) (fun _ _ h => h)
    · have hm : w₄.vai.workspaces.get m.id = some m := by rw [hv]; exact h.record
      simp only [VaiDir.updateMeta, hm, recorded, hc, if_true]
      rw [hv]
      rfl
    · exact ⟨by rw [h₅.1, hf₄, hf₃, hf₂, hf₁], h₅.2.2⟩
  · rw [if_pos hc]
    exact ends_pure ⟨hf₁, by rw [hv₁, recorded, if_neg hc]⟩

end RecordSpec

end Diff
end Vai
