import EventStore.Event.Basic
import EventStore.Json.Reader
import EventStore.Json.Value

/-!
# Events in JSON

An event as a JSON object, and how one is read: only the timestamp is required, and members that an event
does not have are passed over.
-/

namespace EventStore

open Json

namespace Properties

def json (m : Properties) : Value := .object (m.toList.map fun (name, value) => (name, .text value))

def reader : Reader Properties := do
  return ofList (← dictionary text)

end Properties

namespace Event

def json (e : Event) : Value :=
  .object [("id", .count e.id.toNat), ("timestamp", .number e.millis),
    ("properties", Properties.json e.properties), ("bucket_id", .count e.bucket.toNat)]

def word : Reader UInt32 := do
  return UInt32.ofNat (← integer 0 4294967295).toNat

def timestampReader : Reader Int64 := do
  return Int64.ofInt (← integer Text.minInt64 Text.maxInt64)

def parts : List (Member Event) := [
  ⟨"id", false, fun e => do return { e with id := ← word }⟩,
  ⟨"timestamp", true, fun e => do return { e with timestamp := ← timestampReader }⟩,
  ⟨"properties", false, fun e => do return { e with properties := ← Properties.reader }⟩,
  ⟨"bucket_id", false, fun e => do return { e with bucket := ← word }⟩]

def reader : Reader Event := record parts (.new 0)

def ofJson (s : String) : Except Fault Event := readAll reader s

end Event

end EventStore
