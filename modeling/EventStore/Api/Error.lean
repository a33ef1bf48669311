import EventStore.Engine.Error
import EventStore.Json.Value

/-!
# Failures in answers

What a caller is told of a failure: a status, a code and a message.
-/

namespace EventStore.Api

inductive Failure
  | validation (text : String)
  | query (e : Query.QueryError)
  | engine (e : EngineError)
  | internal (text : String)
  | io (text : String)
  deriving DecidableEq, Repr

namespace Failure

def status : Failure → Nat
  | validation _ | query _ | engine (.query _) | engine (.invalidTimestamp _) => 400
  | engine (.store (.unavailable _)) => 503
  | engine _ | internal _ | io _ => 500

def code : Failure → String
  | validation _ => "VALIDATION_ERROR"
  | query _ | engine (.query _) => "QUERY_ERROR"
  | engine (.invalidTimestamp _) => "INVALID_TIMESTAMP"
  | engine (.store (.unavailable _)) => "STORE_UNAVAILABLE"
  | engine _ => "STORAGE_ERROR"
  | internal _ => "INTERNAL_ERROR"
  | io _ => "IO_ERROR"

def message : Failure → String
  | validation s => s!"Validation error: {s}"
  | query e => s!"Query error: {e.message}"
  | engine e => s!"Optics error: {e.message}"
  | internal s => s!"Internal error: {s}"
  | io s => s!"IO error: {s}"

def json (f : Failure) : Json.Value :=
  .object [("error", .object [("code", .text f.code), ("message", .text f.message)])]

end Failure

end EventStore.Api
