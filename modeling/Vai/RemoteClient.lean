import Vai.Text
/-!
# RemoteClient — the retry loop

`RetryPolicy`, `FailureClass` and `send_with_policy` of `remote_client.rs`.  The network is what each attempt meets
(`Exchange`): besides what the client sees of it, an exchange records whether the server has processed the request.  A
connection that was never made carries no request, and an answer comes from a server that has processed one; a timeout
or a connection that breaks later leaves both open.

The delays between the attempts and the lines on stderr are left out.
-/
namespace Vai
namespace RemoteClient

/-- Maximum number of retry attempts after the first failure. -/
def maxRetries : Nat := 3

inductive RemoteClientError where
  | httpError (status : Nat) (body : Text)
  | network (e : Text)
  | json (e : Text)
  deriving DecidableEq, Repr

inductive RetryPolicy where
  | idempotent | connectOnly
  deriving DecidableEq, Repr

inductive FailureClass where
  | connectError (e : Text)
  | timeout (e : Text)
  | otherNetwork (e : Text)
  | serverError (status : Nat) (body : Text)
  | clientError (status : Nat) (body : Text)
  deriving DecidableEq, Repr

def FailureClass.shouldRetry (policy : RetryPolicy) : FailureClass → Bool
  | connectError _ | otherNetwork _ => true
  | timeout _ | serverError _ _ => policy == .idempotent
  | clientError _ _ => false

def FailureClass.intoError : FailureClass → RemoteClientError
  | connectError e | timeout e | otherNetwork e => .network e
  | serverError status b | clientError status b => .httpError status b

/-- One attempt: `broken` is every transport error that is neither a failed connect nor a timeout. -/
inductive Exchange (α : Type) where
  | connectFailed (e : Text)
  | timedOut (processed : Bool) (e : Text)
  | broken (processed : Bool) (e : Text)
  | answered (status : Nat) (body : Text) (json : Except Text α)

namespace Exchange

variable {α : Type}

def processed : Exchange α → Bool
  | connectFailed _ => false
  | timedOut p _ => p
  | broken p _ => p
  | answered .. => true

/-- What the client makes of it: the result to return, or the class of the failure. -/
def classify : Exchange α → Except FailureClass (Except RemoteClientError α)
  | connectFailed e => .error (.connectError e)
  | timedOut _ e => .error (.timeout e)
  | broken _ e => .error (.otherNetwork e)
  | answered status body json =>
    if 200 ≤ status ∧ status < 300 then .ok (json.mapError .network)
    else if 500 ≤ status ∧ status < 600 then .error (.serverError status body)
    else .error (.clientError status body)

/-- The result of a call whose last attempt this is. -/
def outcome (x : Exchange α) : Except RemoteClientError α :=
  match x.classify with
  | .ok r => r
  | .error failure => .error failure.intoError

def retried (policy : RetryPolicy) (x : Exchange α) : Bool :=
  match x.classify with
  | .ok _ => false
  | .error failure => failure.shouldRetry policy

/-- No connection, or one that broke: what `ConnectOnly` sends again. -/
def transportError : Exchange α → Bool
  | connectFailed _ | broken .. => true
  | timedOut .. | answered .. => false

/-- The connection broke when the server had processed the request. -/
def brokeAfterProcessing : Exchange α → Bool
  | broken p _ => p
  | _ => false

theorem retried_connectOnly (x : Exchange α) : x.retried .connectOnly = x.transportError := by
  cases x with
  | answered status body json =>
    unfold retried classify
    dsimp only
    by_cases h2 : 200 ≤ status ∧ status < 300
    · rw [if_pos h2]
      rfl
    · rw [if_neg h2]
      by_cases h5 : 500 ≤ status ∧ status < 600
      · rw [if_pos h5]
        rfl
      · rw [if_neg h5]
        rfl
  | _ => rfl

/-- A request that is sent again was processed only if its connection broke after that. -/
theorem processed_of_transportError {x : Exchange α} (h : x.transportError = true) :
    x.processed = x.brokeAfterProcessing := by
  cases x with
  | connectFailed e => rfl
  | timedOut p e => cases h
  | broken p e => rfl
  | answered s b j => cases h

end Exchange

variable {α : Type} (net : Nat → Exchange α)

/-- The loop of `send_with_policy` with the retries left, from an attempt on: the result and the attempts made. -/
def sendFrom (policy : RetryPolicy) : Nat → Nat → Except RemoteClientError α × Nat
  | 0, attempt => ((net attempt).outcome, attempt + 1)
  | retriesLeft + 1, attempt =>
    if (net attempt).retried policy then sendFrom policy retriesLeft (attempt + 1)
    else ((net attempt).outcome, attempt + 1)

def sendWithPolicy (policy : RetryPolicy) : Except RemoteClientError α × Nat := sendFrom net policy maxRetries 0

def get : Except RemoteClientError α × Nat := sendWithPolicy net .idempotent
def post : Except RemoteClientError α × Nat := sendWithPolicy net .connectOnly
def postIdempotent : Except RemoteClientError α × Nat := sendWithPolicy net .idempotent

/-- How many of the first `n` attempts the server processes. -/
def timesProcessed (n : Nat) : Nat := ((List.range n).filter (fun i => (net i).processed)).length

/-- An attempt whose connection broke after the request was processed, and a later one, reached through transport
errors alone, that is processed too. -/
def ProcessedAgain : Prop :=
  ∃ i j, i < j ∧ j ≤ maxRetries ∧ (∀ k, k < j → (net k).transportError = true) ∧
    (net i).brokeAfterProcessing = true ∧ (net j).processed = true

/-! ## The loop -/

/-- The attempts of a loop: all but the last are retried, and the last is not, unless no retry is left. -/
theorem sendFrom_spec (policy : RetryPolicy) : ∀ (retriesLeft attempt : Nat),
    ∃ last, attempt ≤ last ∧ last ≤ attempt + retriesLeft ∧
      sendFrom net policy retriesLeft attempt = ((net last).outcome, last + 1) ∧
      (∀ k, attempt ≤ k → k < last → (net k).retried policy = true) ∧
      ((net last).retried policy = true → last = attempt + retriesLeft)
  | 0, attempt => ⟨attempt, le_rfl, le_rfl, rfl, fun k h1 h2 => by omega, fun _ => rfl⟩
  | retriesLeft + 1, attempt => by
    unfold sendFrom
    by_cases hr : (net attempt).retried policy = true
    · rw [if_pos hr]
      obtain ⟨last, hle, hub, heq, hall, hlast⟩ := sendFrom_spec policy retriesLeft (attempt + 1)
      refine ⟨last, by omega, by omega, heq, fun k h1 h2 => ?_, fun h => by have := hlast h; omega⟩
      by_cases hk : k = attempt
      · rw [hk, hr]
      · exact hall k (by omega) h2
    · rw [if_neg hr]
      exact ⟨attempt, le_rfl, by omega, rfl, fun k h1 h2 => by omega, fun h => absurd h hr⟩

/-- **Under either policy the loop ends within the configured attempts, with the outcome of its last one.** -/
theorem sendWithPolicy_last (policy : RetryPolicy) : ∃ last, last ≤ maxRetries ∧
    sendWithPolicy net policy = ((net last).outcome, last + 1) ∧
    (∀ k, k < last → (net k).retried policy = true) ∧ ((net last).retried policy = true → last = maxRetries) := by
  obtain ⟨last, -, hub, heq, hall, hlast⟩ := sendFrom_spec net policy maxRetries 0
  exact ⟨last, by omega, heq, fun k hk => hall k (Nat.zero_le k) hk, fun h => by have := hlast h; omega⟩

/-- Two of a loop's attempts are processed exactly when some pair of them is. -/
theorem one_lt_timesProcessed {n : Nat} :
    1 < timesProcessed net n ↔ ∃ i j, i < j ∧ j < n ∧ (net i).processed = true ∧ (net j).processed = true := by
  unfold timesProcessed
  induction n with
  | zero => simp
  | succ n ih =>
    rw [List.range_succ, List.filter_append, List.length_append]
    by_cases hn : (net n).processed = true
    · have h1 : ([n].filter (fun i => (net i).processed)).length = 1 := by simp [hn]
      rw [h1]
      constructor
      · intro h
        obtain ⟨i, hi⟩ := List.exists_mem_of_length_pos (Nat.lt_of_succ_lt_succ h)
        rw [List.mem_filter, List.mem_range] at hi
        exact ⟨i, n, hi.1, Nat.lt_succ_self n, hi.2, hn⟩
      · rintro ⟨i, j, hij, hj, hi, -⟩
        have hm : i ∈ (List.range n).filter (fun i => (net i).processed) :=
          List.mem_filter.2 ⟨List.mem_range.2 (by omega), hi⟩
        have := List.length_pos_of_mem hm
        omega
    · have h0 : ([n].filter (fun i => (net i).processed)).length = 0 := by simp [hn]
      rw [h0, Nat.add_zero, ih]
      constructor
      · rintro ⟨i, j, hij, hj, hi, hpj⟩
        exact ⟨i, j, hij, by omega, hi, hpj⟩
      · rintro ⟨i, j, hij, hj, hi, hpj⟩
        have hne : j ≠ n := fun h => hn (h ▸ hpj)
        exact ⟨i, j, hij, by omega, hi, hpj⟩

/-- A connect-only call is processed at most once exactly when no attempt is processed after one that broke off. -/
theorem post_once_iff : timesProcessed net (post net).2 ≤ 1 ↔ ¬ ProcessedAgain net := by
  obtain ⟨last, hub, heq, hall, hlast⟩ := sendWithPolicy_last net .connectOnly
  rw [← not_lt, one_lt_timesProcessed, not_iff_not, post, heq]
  have htr : ∀ k, k < last → (net k).transportError = true := fun k hk =>
    (net k).retried_connectOnly ▸ hall k hk
  constructor
  · rintro ⟨i, j, hij, hj, hi, hpj⟩
    refine ⟨i, j, hij, by omega, fun k hk => htr k (by omega), ?_, hpj⟩
    rw [← Exchange.processed_of_transportError (htr i (by omega)), hi]
  · rintro ⟨i, j, hij, hj, hk, hi, hpj⟩
    -- the loop gets as far as `j`, since it stops before that only at an attempt it does not send again
    have hjl : j ≤ last := by
      by_contra hlt
      have := hlast ((net last).retried_connectOnly.trans (hk last (by omega)))
      omega
    exact ⟨i, j, hij, by omega, (Exchange.processed_of_transportError (hk i hij)).trans hi, hpj⟩

/-- **When a retry is safe**: every call ends within its attempts with the outcome of the last one, and the server
processes a connect-only request at most once, exactly in the networks where no request is processed again after its
connection broke. -/
theorem retries_once_iff :
    (timesProcessed net (post net).2 ≤ 1 ∧ ∀ policy, ∃ last, last ≤ maxRetries ∧
      sendWithPolicy net policy = ((net last).outcome, last + 1)) ↔ ¬ ProcessedAgain net := by
  rw [post_once_iff]
  refine ⟨And.left, fun h => ⟨h, fun policy => ?_⟩⟩
  obtain ⟨last, hub, heq, -, -⟩ := sendWithPolicy_last net policy
  exact ⟨last, hub, heq⟩

/-- The connection is reset after the first request was sent; the second one is answered. -/
def resetOnce : Nat → Exchange Unit
  | 0 => .broken true "connection reset by peer".toList
  | _ + 1 => .answered 201 [] (.ok ())

theorem reset_request_processed_twice : timesProcessed resetOnce (post resetOnce).2 = 2 := by decide +kernel

end RemoteClient
end Vai
