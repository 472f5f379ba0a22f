import Vai.Proc
import Vai.Data
/-!
# MergeFs — the file abstraction of the merge engine

The `MergeFs` trait of `merge_fs.rs`: five calls on logical keys (`overlay/{path}`, `base/{path}`,
`snapshot/{version}/{path}`).  The engine is written against it and never sees what is underneath.

Above the trait stands what it is for: a file system holds `Files`, a plain map from slots to bytes with immediate
effect.  `ContractOn fs U rep may` says that every call of `fs` at a path of `U` answers as that map does and changes it
as the call says, `rep` relating its states to the maps they hold; where `may` is true a call may also end with an error.
The engine is specified once against a contract.  `S3MergeFs` meets one at all paths, `DiskMergeFs` at paths in normal
form of which none lies above another: a file system knows other spellings of a path, and keeps directories.
-/
namespace Vai

/-! ## Logical keys -/

def overlayPrefix : Text := "overlay/".toList
def basePrefix : Text := "base/".toList
def snapshotsPrefix : Text := "snapshot/".toList
def snapshotPrefix (ver : Text) : Text := snapshotsPrefix ++ (ver ++ ['/'])

def overlayKey (p : Path) : Text := overlayPrefix ++ p
def baseKey (p : Path) : Text := basePrefix ++ p
def snapshotKey (ver : Text) (p : Path) : Text := snapshotPrefix ver ++ p

/-- `format!("v{n}")`. -/
def versionName (n : Nat) : Text := 'v' :: Text.ofNat n

theorem versionName_injective {m n : Nat} (h : versionName m = versionName n) : m = n := by
  simp only [versionName, List.cons.injEq, true_and] at h
  exact Text.ofNat_injective h

theorem slash_not_mem_versionName (n : Nat) : '/' ∉ versionName n := by
  simp only [versionName, List.mem_cons, not_or]
  exact ⟨by decide, Text.not_mem_ofNat (by decide) n⟩

/-! ## What a key names

`DiskMergeFs::resolve` and `S3MergeFs::s3_path` read a key the same way, and so do `prefix_root` and `s3_prefix` a list
prefix; they differ in what they make of the place found. -/

inductive Place where
  | overlay (p : Path)
  | base (p : Path)
  | snapshot (ver : Text) (p : Path)
  deriving DecidableEq, Repr

def invalidInput (msg : Text) : IoError := ⟨.invalidInput, msg⟩

def resolveKey (key : Text) : Except IoError Place :=
  match Text.stripPrefix overlayPrefix key with
  | some rel => .ok (.overlay rel)
  | none =>
    match Text.stripPrefix basePrefix key with
    | some rel => .ok (.base rel)
    | none =>
      match Text.stripPrefix snapshotsPrefix key with
      | some rest =>
        match Text.splitOnce '/' rest with
        | some (ver, rel) => .ok (.snapshot ver rel)
        | none => .error (invalidInput ("bad snapshot key: ".toList ++ key))
      | none => .error (invalidInput ("unknown MergeFs namespace in key: ".toList ++ key))

/-- A directory that can be listed. -/
inductive Root where
  | overlay
  | base
  | snapshot (ver : Text)
  deriving DecidableEq, Repr

/-- The prefix of the keys under a root. -/
def Root.keyPrefix : Root → Text
  | .overlay => overlayPrefix
  | .base => basePrefix
  | .snapshot ver => snapshotPrefix ver

/-- `noVersion` is the message for a snapshot prefix without a version. -/
def resolvePrefix (noVersion : Text) (pre : Text) : Except IoError Root :=
  if pre = overlayPrefix ∨ pre = "overlay".toList then .ok .overlay
  else if pre = basePrefix ∨ pre = "base".toList then .ok .base
  else
    match Text.stripPrefix snapshotsPrefix pre with
    | some rest =>
      let ver := Text.trimEndMatches '/' rest
      if ver = [] then .error (invalidInput noVersion) else .ok (.snapshot ver)
    | none => .error (invalidInput ("unknown MergeFs namespace in prefix: ".toList ++ pre))

theorem resolveKey_overlay (p : Path) : resolveKey (overlayKey p) = .ok (.overlay p) := by
  rw [resolveKey, overlayKey, Text.stripPrefix_append]

theorem resolveKey_base (p : Path) : resolveKey (baseKey p) = .ok (.base p) := by
  have h : Text.stripPrefix overlayPrefix (baseKey p) = none := rfl
  rw [resolveKey, h]
  simp only
  rw [baseKey, Text.stripPrefix_append]

theorem resolveKey_snapshot {ver : Text} (hv : '/' ∉ ver) (p : Path) :
    resolveKey (snapshotKey ver p) = .ok (.snapshot ver p) := by
  have ho : Text.stripPrefix overlayPrefix (snapshotKey ver p) = none := rfl
  have hb : Text.stripPrefix basePrefix (snapshotKey ver p) = none := rfl
  have hs : Text.stripPrefix snapshotsPrefix (snapshotKey ver p) = some (ver ++ '/' :: p) :=
    Text.stripPrefix_eq_some.2 (by simp [snapshotKey, snapshotPrefix])
  rw [resolveKey, ho]
  simp only [hb, hs, Text.splitOnce_append p hv]

theorem resolvePrefix_snapshot {ver : Text} (hv : '/' ∉ ver) (hne : ver ≠ []) (msg : Text) :
    resolvePrefix msg (snapshotPrefix ver) = .ok (.snapshot ver) := by
  have h1 : ¬ (snapshotPrefix ver = overlayPrefix ∨ snapshotPrefix ver = "overlay".toList) := by
    rintro (h | h) <;> cases h
  have h2 : ¬ (snapshotPrefix ver = basePrefix ∨ snapshotPrefix ver = "base".toList) := by
    rintro (h | h) <;> cases h
  have h3 : Text.stripPrefix snapshotsPrefix (snapshotPrefix ver) = some (ver ++ ['/']) := Text.stripPrefix_append ..
  rw [resolvePrefix, if_neg h1, if_neg h2]
  simp only [h3, Text.trimEndMatches_append ver hv, if_neg hne]

/-! ## The trait -/

/-- The trait, over the state `φ` of an implementation. -/
structure MergeFs (φ : Type) where
  readFile : Text → Proc φ IoError Bytes
  writeFile : Text → Bytes → Proc φ IoError Unit
  listFiles : Text → Proc φ IoError (List Text)
  fileExists : Text → Proc φ IoError Bool
  deleteFile : Text → Proc φ IoError Unit

/-- `?` on a call of the trait, inside the engine. -/
def io {φ α : Type} (m : Proc φ IoError α) : Proc φ MergeError α := Proc.mapErr MergeError.io m

theorem ends_io {φ α : Type} {m : Proc φ IoError α} {s : φ} {Q : α → φ → Prop} {E : MergeError → φ → Prop}
    (h : Proc.Ends m s Q (fun e s' => E (.io e) s')) : Proc.Ends (io m) s Q E := Proc.ends_mapErr h

/-! ## The map a file system holds -/

/-- The places the engine addresses: snapshots are always of a version `v{n}`. -/
inductive Slot where
  | overlay (p : Path)
  | base (p : Path)
  | snapshot (n : Nat) (p : Path)
  deriving DecidableEq, Repr

def Slot.key : Slot → Text
  | .overlay p => overlayKey p
  | .base p => baseKey p
  | .snapshot n p => snapshotKey (versionName n) p

/-- Where the key of a slot leads. -/
def Slot.place : Slot → Place
  | .overlay p => .overlay p
  | .base p => .base p
  | .snapshot n p => .snapshot (versionName n) p

def Slot.path : Slot → Path
  | .overlay p | .base p | .snapshot _ p => p

theorem Slot.resolveKey_key : ∀ k : Slot, resolveKey k.key = .ok k.place
  | .overlay p => resolveKey_overlay p
  | .base p => resolveKey_base p
  | .snapshot n p => resolveKey_snapshot (slash_not_mem_versionName n) p

theorem Slot.resolve_bind {φ α : Type} {k : Slot} (f : Place → Proc φ IoError α) :
    (Proc.ofExcept id (resolveKey k.key) >>= f) = f k.place := by
  rw [Slot.resolveKey_key]
  rfl

theorem Slot.place_injective : ∀ {k j : Slot}, k.place = j.place → k = j
  | .overlay _, .overlay _, h => by cases h; rfl
  | .base _, .base _, h => by cases h; rfl
  | .snapshot m p, .snapshot n q, h => by
    simp only [Slot.place, Place.snapshot.injEq] at h
    rw [versionName_injective h.1, h.2]
  | .overlay _, .base _, h | .overlay _, .snapshot _ _, h | .base _, .overlay _, h | .base _, .snapshot _ _, h
  | .snapshot _ _, .overlay _, h | .snapshot _ _, .base _, h => by cases h

abbrev Files := Slot → Option Bytes

namespace Files

def set (V : Files) (k : Slot) (c : Option Bytes) : Files := Function.update V k c

theorem set_apply (V : Files) (k j : Slot) (c : Option Bytes) : V.set k c j = if j = k then c else V j := by
  unfold set
  by_cases h : j = k
  · subst h; simp
  · simp [h]

end Files

/-- `l` lists the places where `f` answers, once each. -/
def Lists (l : List Path) (f : Path → Option Bytes) : Prop := l.Nodup ∧ ∀ p, p ∈ l ↔ (f p).isSome

theorem Lists.perm {l l' : List Path} {f : Path → Option Bytes} (h : Lists l f) (h' : Lists l' f) : l.Perm l' :=
  (List.perm_ext_iff_of_nodup h.1 h'.1).2 (fun p => by rw [h.2, h'.2])

open Proc (Ends)

/-- Every call of `fs` at a path of `U` answers and acts as the plain map `rep` relates its state to; a call may end with
an error where `may` holds, and reading an absent key does. -/
structure MergeFs.ContractOn {φ : Type} (fs : MergeFs φ) (U : Path → Prop) (rep : φ → Files → Prop) (may : Prop) :
    Prop where
  readFile : ∀ {s V}, rep s V → ∀ k : Slot, U k.path → Ends (fs.readFile k.key) s
    (fun c s' => rep s' V ∧ V k = some c) (fun _ s' => rep s' V ∧ (may ∨ V k = none))
  writeFile : ∀ {s V}, rep s V → ∀ (k : Slot) (c : Bytes), U k.path → Ends (fs.writeFile k.key c) s
    (fun _ s' => rep s' (V.set k (some c))) (fun _ _ => may)
  deleteFile : ∀ {s V}, rep s V → ∀ k : Slot, U k.path → Ends (fs.deleteFile k.key) s
    (fun _ s' => rep s' (V.set k none)) (fun _ _ => may)
  fileExists : ∀ {s V}, rep s V → ∀ k : Slot, U k.path → Ends (fs.fileExists k.key) s
    (fun b s' => rep s' V ∧ b = (V k).isSome) (fun _ _ => may)
  listOverlay : ∀ {s V}, rep s V → Ends (fs.listFiles overlayPrefix) s
    (fun keys s' => rep s' V ∧ ∃ l, keys = l.map overlayKey ∧ Lists l (fun p => V (.overlay p))) (fun _ _ => may)
  listSnapshot : ∀ {s V}, rep s V → ∀ n, Ends (fs.listFiles (snapshotPrefix (versionName n))) s
    (fun keys s' => rep s' V ∧ ∃ l, keys = l.map (snapshotKey (versionName n)) ∧
      Lists l (fun p => V (.snapshot n p))) (fun _ _ => may)

/-- The contract at all paths. -/
abbrev MergeFs.Contract {φ : Type} (fs : MergeFs φ) (rep : φ → Files → Prop) (may : Prop) : Prop :=
  fs.ContractOn (fun _ => True) rep may

/-- The paths of the overlay and of the deletion list are among `U`, and so are those of the snapshots. -/
structure Files.Within (V : Files) (D : List Path) (U : Path → Prop) : Prop where
  overlay : ∀ p, (V (.overlay p)).isSome → U p
  deleted : ∀ p ∈ D, U p
  snapshot : ∀ n p, (V (.snapshot n p)).isSome → U p

theorem Files.within_all (V : Files) (D : List Path) : V.Within D (fun _ => True) :=
  ⟨fun _ _ => trivial, fun _ _ => trivial, fun _ _ _ => trivial⟩

/-! ## The contract, as the engine's `?` sees it -/

namespace MergeFs.ContractOn

variable {φ : Type} {fs : MergeFs φ} {U : Path → Prop} {rep : φ → Files → Prop} {may may' : Prop} {s : φ} {V : Files}

theorem mono (C : fs.ContractOn U rep may) (h : may → may') : fs.ContractOn U rep may' where
  readFile hs k hk := (C.readFile hs k hk).mono (fun _ _ h => h) (fun _ _ he => ⟨he.1, he.2.imp_left h⟩)
  writeFile hs k c hk := (C.writeFile hs k c hk).mono (fun _ _ h => h) (fun _ _ => h)
  deleteFile hs k hk := (C.deleteFile hs k hk).mono (fun _ _ h => h) (fun _ _ => h)
  fileExists hs k hk := (C.fileExists hs k hk).mono (fun _ _ h => h) (fun _ _ => h)
  listOverlay hs := (C.listOverlay hs).mono (fun _ _ h => h) (fun _ _ => h)
  listSnapshot hs n := (C.listSnapshot hs n).mono (fun _ _ h => h) (fun _ _ => h)

theorem read (C : fs.ContractOn U rep may) (h : rep s V) (k : Slot) (hu : U k.path) : Ends (io (fs.readFile k.key)) s
    (fun c s' => rep s' V ∧ V k = some c) (fun _ s' => rep s' V ∧ (may ∨ V k = none)) := ends_io (C.readFile h k hu)

/-- Reading a key that is there fails only where the file system does. -/
theorem read_of_some (C : fs.ContractOn U rep may) (h : rep s V) (k : Slot) (hu : U k.path) {c : Bytes}
    (hk : V k = some c) : Ends (io (fs.readFile k.key)) s (fun c' s' => rep s' V ∧ c' = c) (fun _ _ => may) := by
  refine (C.read h k hu).mono (fun c' s' ⟨hs, hc⟩ => ⟨hs, ?_⟩) (fun _ _ ⟨_, he⟩ => ?_)
  · rw [hk] at hc
    exact (Option.some.inj hc).symm
  · rcases he with hm | hn
    · exact hm
    · rw [hk] at hn; cases hn

theorem write (C : fs.ContractOn U rep may) (h : rep s V) (k : Slot) (hu : U k.path) (c : Bytes) :
    Ends (io (fs.writeFile k.key c)) s (fun _ s' => rep s' (V.set k (some c))) (fun _ _ => may) :=
  ends_io (C.writeFile h k c hu)

theorem delete (C : fs.ContractOn U rep may) (h : rep s V) (k : Slot) (hu : U k.path) : Ends (io (fs.deleteFile k.key)) s
    (fun _ s' => rep s' (V.set k none)) (fun _ _ => may) := ends_io (C.deleteFile h k hu)

theorem there (C : fs.ContractOn U rep may) (h : rep s V) (k : Slot) (hu : U k.path) : Ends (io (fs.fileExists k.key)) s
    (fun b s' => rep s' V ∧ b = (V k).isSome) (fun _ _ => may) := ends_io (C.fileExists h k hu)

theorem overlays (C : fs.ContractOn U rep may) (h : rep s V) : Ends (io (fs.listFiles overlayPrefix)) s
    (fun keys s' => rep s' V ∧ ∃ l, keys = l.map overlayKey ∧ Lists l (fun p => V (.overlay p))) (fun _ _ => may) :=
  ends_io (C.listOverlay h)

theorem snapshots (C : fs.ContractOn U rep may) (h : rep s V) (n : Nat) :
    Ends (io (fs.listFiles (snapshotPrefix (versionName n)))) s
      (fun keys s' => rep s' V ∧ ∃ l, keys = l.map (snapshotKey (versionName n)) ∧
        Lists l (fun p => V (.snapshot n p))) (fun _ _ => may) :=
  ends_io (C.listSnapshot h n)

end MergeFs.ContractOn

end Vai
