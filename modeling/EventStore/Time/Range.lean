import EventStore.Time.Instant

/-!
# Time ranges
-/

namespace EventStore

/-- From `start` to `stop`, both included. -/
structure TimeRange where
  start : Instant
  stop : Instant
  deriving DecidableEq, Repr

namespace TimeRange

/-- The range that a request means. Without an end it reaches up to `now`, and without a start it takes
an hour. The start of that hour has to be representable in any case. -/
def resolve? (start stop : Option Instant) (now : Instant) : Option TimeRange :=
  let stop := stop.getD now
  (stop.shift? (-3600)).map fun hourBefore => ⟨start.getD hourBefore, stop⟩

/-- Why a range is refused. -/
def reversedText (r : TimeRange) : String :=
  s!"start {r.start.text Instant.offsetForm} is after end {r.stop.text Instant.offsetForm}"

/-- Ends are rounded down to milliseconds. -/
def holds (r : TimeRange) (ms : Int) : Bool := r.start.millis ≤ ms && ms ≤ r.stop.millis

end TimeRange

end EventStore
