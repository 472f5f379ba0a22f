import Vai.UploadRejected
/-!
# Requests — a server and its history

The requests a repository is served, one after another (the handlers hold the repository's lock), each with the calls
that fail in it.  A history is the list of what was served: the request, the answer, and the state it left.
-/
namespace Vai
namespace Handlers

open Proc Backend

inductive Request where
  | create (newId : Uuid) (intent : Text)
  | upload (id : PathId) (req : UploadRequest)
  | submit (newId : Uuid) (id : PathId)
  | discard (id : Uuid)
  /-- The handlers of issues: a workspace is linked to an issue, the status of the issue changes. -/
  | issue (id issue : Uuid) (status : IssueStatus)
  /-- An event in another repository. -/
  | elsewhere

/-- A request, and the calls that fail while it is served. -/
structure Call where
  request : Request
  fails : Fails

def linkIssue (id issue : Uuid) (status : IssueStatus) (b : Backend) : Backend :=
  { b with links := b.links.insert id issue, issues := b.issues.insert issue status }

def eventElsewhere (b : Backend) : Backend :=
  { b with foreign := b.foreign ++ [b.nextEvent], nextEvent := b.nextEvent + 1 }

variable (env : Env) (codecs : Codecs)

/-- One request, its answer cut down to success or the error. -/
def handle (c : Call) : Proc Backend ApiError PUnit :=
  match c.request with
  | .create newId intent => do let _ ← createWorkspaceHandler c.fails newId intent
  | .upload id req => upload env c.fails codecs id req
  | .submit newId id => do let _ ← submitWorkspaceHandler env c.fails newId id
  | .discard id => discardWorkspaceHandler c.fails id
  | .issue id issue status => modify (linkIssue id issue status)
  | .elsewhere => modify eventElsewhere

/-- One entry of a history. -/
structure Served where
  request : Request
  answer : Except ApiError PUnit
  after : Backend

def serve (c : Call) (b : Backend) : Served := ⟨c.request, (handle env codecs c b).1, (handle env codecs c b).2⟩

/-- The histories from `b₀` whose calls all meet `P` after what has been served and in the state they are made in, with the
state they end in. -/
inductive Ran (P : List Served → Call → Backend → Prop) (b₀ : Backend) : List Served → Backend → Prop where
  | start : Ran P b₀ [] b₀
  | step {l : List Served} {b : Backend} (h : Ran P b₀ l b) (c : Call) (hc : P l c b) :
      Ran P b₀ (l ++ [serve env codecs c b]) (serve env codecs c b).after

/-- The history of a list of calls, after the history `l` that led to `b`. -/
def serveAll : List Call → List Served → Backend → List Served × Backend
  | [], l, b => (l, b)
  | c :: cs, l, b => serveAll cs (l ++ [serve env codecs c b]) (serve env codecs c b).after

/-- Each of the calls meets `P` where it is made, after the history `l`. -/
def Meets (P : List Served → Call → Backend → Prop) : List Call → List Served → Backend → Prop
  | [], _, _ => True
  | c :: cs, l, b => P l c b ∧ Meets P cs (l ++ [serve env codecs c b]) (serve env codecs c b).after

variable {env codecs}

theorem ran_serveAll {P : List Served → Call → Backend → Prop} {b₀ : Backend} : ∀ (cs : List Call) {l : List Served}
    {b : Backend}, Ran env codecs P b₀ l b → Meets env codecs P cs l b →
      Ran env codecs P b₀ (serveAll env codecs cs l b).1 (serveAll env codecs cs l b).2
  | [], _, _, h, _ => h
  | c :: cs, _, _, h, ⟨hc, hcs⟩ => ran_serveAll cs (h.step c hc) hcs

/-- A call in which nothing fails. -/
def quietly (request : Request) : Call := ⟨request, Fails.none⟩

/-- An environment in which no two contents have one hash. -/
def hashed : Env := { Env.plain with sha256Hex := fun c => c.map (fun x => Char.ofNat x.toNat) }

/-- Every archive holds the file `a`. -/
def snapshotOf (c : Bytes) : Codecs := { oneLetter with untar := fun _ => .ok [.ok ⟨.file, .ok "a".toList, .ok c⟩] }

end Handlers
end Vai
