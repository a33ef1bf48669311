import EventStore.Text.Blank
import EventStore.Text.Lowercase
import EventStore.Text.Number
import EventStore.Time.Range

/-!
# Spans of time in arguments

A count of minutes, hours or days, as in `30m`, `6h` and `1d`.
-/

namespace EventStore.Command

inductive SpanProblem
  | unknownUnit (text : String)
  | number (p : Text.NumberProblem)
  deriving DecidableEq, Repr

def SpanProblem.message : SpanProblem → String
  | unknownUnit s => s!"Invalid duration format: {s}. Use: 30m, 6h, 1d"
  | number p => p.message

/-- Seconds of a unit by its letter. -/
def unitSeconds? : Char → Option Int
  | 'm' => some 60
  | 'h' => some 3600
  | 'd' => some 86400
  | _ => none

/-- The seconds of a span. Capitals and white space at the ends do not matter. -/
def readSpan (text : String) : Except SpanProblem Int :=
  let s := Text.lowercase (Text.trim text.toList)
  match s.getLast?.bind unitSeconds? with
  | none => .error (.unknownUnit (String.ofList s))
  | some seconds =>
    match Text.readInt Text.minInt64 Text.maxInt64 s.dropLast with
    | .ok n => .ok (n * seconds)
    | .error p => .error (.number p)

/-- The span that ends now; there is none if it would start out of the calendar. -/
def lastSpan? (seconds : Int) (now : Instant) : Option TimeRange :=
  (now.shift? (-seconds)).map (⟨·, now⟩)

end EventStore.Command
