import EventStore.Query.Error
import EventStore.Store.Error

/-!
# Why an operation on events fails
-/

namespace EventStore

inductive EngineError
  | store (e : StoreError)
  | query (e : Query.QueryError)
  /-- No bucket takes events of that time. -/
  | invalidTimestamp (ms : Int)
  /-- The bucket takes no writes. -/
  | bucketDropped (text : String)
  /-- The bucket has no ids left. -/
  | bucketFull (key : String)
  | lock (text : String)
  /-- A date or a span of time that cannot be represented. -/
  | outOfRange
  deriving DecidableEq, Repr

namespace EngineError

def message : EngineError → String
  | store e => s!"Store error: {e.message}"
  | query e => s!"Query error: {e.message}"
  | invalidTimestamp ms => s!"Invalid timestamp: {ms}"
  | bucketDropped s => s!"Bucket dropped: {s}"
  | bucketFull key => s!"Bucket full: {key}"
  | lock s => s!"Lock error: {s}"
  | outOfRange => "Time out of range"

/-- Whether the same operation may succeed later. -/
def isRetryable : EngineError → Bool
  | store _ | bucketDropped _ | lock _ => true
  | query _ | invalidTimestamp _ | bucketFull _ | outOfRange => false

end EngineError

end EventStore
