import EventStore.Index.Basic
import EventStore.Time.Hour

/-!
# Events

A telemetry event with its properties, and the tokens that point at an event by its bucket and its id.
-/

namespace EventStore

/-- Of a name that is given twice the later value counts. -/
def Properties.ofList (members : List (String × String)) : Properties :=
  members.foldl (fun m (name, value) => m.insert name value) ∅

structure Event where
  /-- Zero until the event is stored; its bucket counts from one. -/
  id : UInt32
  /-- Milliseconds from the start of 1970. -/
  timestamp : Int64
  properties : Properties
  /-- The first second of the event's hour, filled in when the event is stored or read. -/
  bucket : UInt32
  deriving DecidableEq

namespace Event

def new (timestamp : Int64) : Event := ⟨0, timestamp, ∅, 0⟩

def millis (e : Event) : Int := e.timestamp.toInt

def withProperty (e : Event) (name value : String) : Event :=
  { e with properties := e.properties.insert name value }

/-- Values given later replace earlier ones. -/
def withProperties (e : Event) (more : Properties) : Event :=
  { e with properties := more.foldl (fun m k v => m.insert k v) e.properties }

def property? (e : Event) (name : String) : Option String := e.properties[name]?

def levelProperty : String := "LOG_LEVEL"

def level? (e : Event) : Option String := e.property? levelProperty

def instant? (e : Event) : Option Instant := Instant.ofMillis? e.millis

/-- The hour that the event belongs to. Hours that a token cannot name hold no events. -/
def hour? (e : Event) : Option Hour :=
  (Hour.ofMillis? e.millis).filter (·.tokenSeconds?.isSome)

/-- Pages list events by time, and by id where times agree. -/
def before (a b : Event) : Bool :=
  a.millis < b.millis || (a.millis == b.millis && a.id ≤ b.id)

theorem contains_of_hour? {e : Event} {h : Hour} (hh : e.hour? = some h) :
    h.contains e.millis = true := by
  simp only [hour?, Option.filter_eq_some_iff] at hh
  exact Hour.contains_of_ofMillis? hh.1

end Event

/-- A place between events: after event `id` of the bucket whose hour starts at second `bucket`. -/
structure Token where
  id : UInt32
  bucket : UInt32
  deriving DecidableEq, Repr

namespace Token

/-- Before all events. -/
def start : Token := ⟨0, 0⟩

def isStart (t : Token) : Bool := t == start

/-- One number, the id above the bucket. -/
def value (t : Token) : Nat := t.id.toNat * 4294967296 + t.bucket.toNat

def ofValue (n : Nat) : Token := ⟨(n / 4294967296).toUInt32, (n % 4294967296).toUInt32⟩

theorem ofValue_value (t : Token) : ofValue t.value = t := by
  have hb := UInt32.toNat_lt t.bucket
  have h₁ : t.value / 4294967296 = t.id.toNat := by
    simp only [value]
    omega
  have h₂ : t.value % 4294967296 = t.bucket.toNat := by
    simp only [value]
    omega
  simp [ofValue, h₁, h₂]

end Token

def Event.token (e : Event) : Token := ⟨e.id, e.bucket⟩

end EventStore
