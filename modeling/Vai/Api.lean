import Vai.Text
/-!
# Api — errors of the server

`StorageError` of `storage/mod.rs` and `ApiError` of `server/mod.rs`: a status and the message that is sent.  The text
a driver gives to a database error is never sent, and is left out.
-/
namespace Vai

inductive StorageError where
  | notFound (what : Text)
  | conflict (what : Text)
  | invalidTransition (what : Text)
  | database (what : Text)
  | io (what : Text)
  | serialization (what : Text)
  | rateLimitExceeded (what : Text)
deriving DecidableEq, Repr

def StorageError.toText : StorageError → Text
  | .notFound s => "not found: ".toList ++ s
  | .conflict s => "conflict: ".toList ++ s
  | .invalidTransition s => "invalid state transition: ".toList ++ s
  | .database s => "database error: ".toList ++ s
  | .io s => "I/O error: ".toList ++ s
  | .serialization s => "serialization error: ".toList ++ s
  | .rateLimitExceeded s => "rate limit exceeded: ".toList ++ s

structure ApiError where
  status : Nat
  message : Text
deriving DecidableEq, Repr

namespace ApiError

def badRequest (msg : Text) : ApiError := ⟨400, msg⟩
def unauthorized (msg : Text) : ApiError := ⟨401, msg⟩
def forbidden (msg : Text) : ApiError := ⟨403, msg⟩
def notFound (msg : Text) : ApiError := ⟨404, msg⟩
def conflict (msg : Text) : ApiError := ⟨409, msg⟩
def payloadTooLarge (msg : Text) : ApiError := ⟨413, msg⟩

/-- What went wrong is logged and not sent. -/
def internal : ApiError := ⟨500, "Internal server error".toList⟩

/-- `From<StorageError>`. -/
def ofStorage (e : StorageError) : ApiError :=
  match e with
  | .notFound _ => notFound e.toText
  | .conflict _ => conflict e.toText
  | .invalidTransition _ => badRequest e.toText
  | _ => internal

end ApiError
end Vai
