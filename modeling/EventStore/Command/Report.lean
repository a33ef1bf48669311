import EventStore.Engine.Service
import EventStore.Text.Number

/-!
# What commands report

Events, counts and buckets as lines for readers, or as JSON.
-/

namespace EventStore.Command

structure Report where
  output : List String
  /-- Said beside the output. -/
  notice : Option String := none

namespace Report

def ofLine (line : String) : Report := { output := [line] }

def timeForm : Instant.Format := ⟨.digits 3, "Z"⟩

def eventLine (e : Event) : String :=
  let time := (e.instant?.map (Instant.text timeForm)).getD "unknown"
  let properties := e.properties.toList.map fun (name, value) => name ++ "=" ++ value
  time ++ " #" ++ Text.padRight ' ' 6 (toString e.id.toNat) ++ " " ++ " ".intercalate properties

def events (json : Bool) (found : List Event) : Report where
  output :=
    if json then found.map fun e => e.json.compact
    else found.map eventLine ++ [s!"{found.length} events"]

def count (json : Bool) (n : Nat) : Report :=
  ofLine (if json then (Json.Value.object [("count", .count n)]).compact else toString n)

/-- Four columns, the last two for numbers. -/
def bucketRow (key state events lastId : String) : String :=
  Text.padRight ' ' 12 key ++ " " ++ Text.padRight ' ' 10 state ++ " " ++
    Text.padLeft ' ' 10 events ++ " " ++ Text.padLeft ' ' 10 lastId

def summaryRow (s : EventSet.Summary) : String :=
  bucketRow s.key s.state.word (toString s.events) (toString s.lastId.toNat)

def buckets (json : Bool) (summaries : List EventSet.Summary) : Report where
  output :=
    if json then [(Json.Value.list (summaries.map EventSet.Summary.json)).indented 0]
    else bucketRow "BUCKET" "STATE" "EVENTS" "LAST ID" ::
      (summaries.map summaryRow ++ [s!"{summaries.length} buckets"])

def more (shown : Nat) : String := s!"Showing first {shown} events, use --all for the rest"

end Report

end EventStore.Command
