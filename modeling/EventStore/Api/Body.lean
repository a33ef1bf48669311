import EventStore.Event.Json
import EventStore.Time.Range
import EventStore.Time.Timestamp

/-!
# Request bodies

What callers send, and how it is read from JSON. Apart from the list of a batch everything may be left
out.
-/

namespace EventStore.Api

open Json

def instant : Reader Instant := do
  match Timestamp.read? (← text) with
  | some t => return t
  | none => unsuitable

-- ---- events --------------------------------------------------------------

/-- An event as it is submitted. -/
structure Submission where
  timestamp : Option Int64
  properties : Properties

/-- An event that names no time happens now. -/
def Submission.event (s : Submission) (now : Instant) : Event :=
  (Event.new (s.timestamp.getD (Int64.ofInt now.millis))).withProperties s.properties

def submission : Reader Submission := record [
    ⟨"timestamp", false, fun s => do return { s with timestamp := ← optional Event.timestampReader }⟩,
    ⟨"properties", false, fun s => do return { s with properties := ← Properties.reader }⟩]
  ⟨none, ∅⟩

def batch : Reader (List Submission) := record [⟨"events", true, fun _ => list submission⟩] []

-- ---- queries -------------------------------------------------------------

structure Search where
  query : String
  start : Option Instant
  stop : Option Instant
  /-- Where the page before this one ended. -/
  token : Nat

def Search.range? (s : Search) (now : Instant) : Option TimeRange := TimeRange.resolve? s.start s.stop now

def countParts : List (Member Search) := [
  ⟨"query", false, fun s => do return { s with query := ← text }⟩,
  ⟨"start", false, fun s => do return { s with start := ← optional instant }⟩,
  ⟨"end", false, fun s => do return { s with stop := ← optional instant }⟩]

def pageParts : List (Member Search) := countParts ++ [
  ⟨"continuation_token", false, fun s => do
    return { s with token := (← integer 0 Text.maxUInt64).toNat }⟩]

def Search.blank : Search := ⟨"", none, none, 0⟩

def pageSearch : Reader Search := record pageParts .blank

/-- Whoever counts has no use for a token. -/
def countSearch : Reader Search := record countParts .blank

end EventStore.Api
