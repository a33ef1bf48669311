import EventStore.Time.Instant

/-!
# Hours

The hour slots into which events are sorted, with their keys, such as `2024030514`, and the names of the
maps that hold an hour's data.
-/

namespace EventStore

open Text

/-- An hour of universal time, counted from the start of 1970. -/
structure Hour where
  number : Int
  deriving DecidableEq, Repr

namespace Hour

instance : Ord Hour := ⟨compareOn Hour.number⟩

instance : Std.TransOrd Hour := inferInstanceAs (Std.TransCmp (compareOn Hour.number))

instance : Std.LawfulEqOrd Hour where
  eq_of_compare {a b} h := by
    have h : compare a.number b.number = .eq := h
    cases a
    cases b
    exact congrArg Hour.mk (Std.LawfulEqOrd.eq_of_compare h)

def ofInstant (t : Instant) : Hour := ⟨t.seconds / 3600⟩

/-- The hour of a timestamp, if the timestamp is representable. -/
def ofMillis? (ms : Int) : Option Hour := (Instant.ofMillis? ms).map ofInstant

def startSeconds (h : Hour) : Int := h.number * 3600

def start (h : Hour) : Instant := ⟨h.startSeconds, 0⟩

def startMillis (h : Hour) : Int := h.startSeconds * 1000

/-- The first instant after the hour; the last hour of all has none. -/
def after? (h : Hour) : Option Instant := h.start.shift? 3600

def endMillis (h : Hour) : Int := h.startMillis + 3600000

/-- The last millisecond of the hour. -/
def last (h : Hour) : Instant := ⟨h.startSeconds + 3599, 999000000⟩

def contains (h : Hour) (ms : Int) : Bool := h.startMillis ≤ ms && ms < h.endMillis

/-- Whether the hour holds a timestamp. The last hour of all cannot tell of those after its start. -/
def contains? (h : Hour) (ms : Int) : Option Bool :=
  if ms < h.startMillis then some false else h.after?.map fun t => ms < t.millis

/-- The start in seconds, for the hours whose starts fit 32 bits: those from 1970 into 2106. -/
def tokenSeconds? (h : Hour) : Option UInt32 :=
  if 0 ≤ h.startSeconds ∧ h.startSeconds < 4294967296 then some h.startSeconds.toNat.toUInt32
  else none

-- ---- keys ----------------------------------------------------------------

/-- Year, month, day and hour without marks between them. -/
def key (h : Hour) : String :=
  let date := Date.ofNumber (h.startSeconds / 86400)
  Instant.yearText date.year ++ Instant.two date.month ++ Instant.two date.day ++
    Instant.two (h.startSeconds % 86400 / 3600)

/-- Reads a key of ten digits, as the hours of the years 0 to 9999 have. -/
def ofKey? (key : String) : Option Hour :=
  match key.toList with
  | [y₁, y₂, y₃, y₄, m₁, m₂, d₁, d₂, h₁, h₂] =>
    if key.toList.all Char.isDigit then
      let date : Date := ⟨decimal [y₁, y₂, y₃, y₄], decimal [m₁, m₂], decimal [d₁, d₂]⟩
      let hour := decimal [h₁, h₂]
      if date.isValid ∧ hour < 24 then some ⟨date.number * 24 + hour⟩ else none
    else none
  | _ => none

def mapLead : String := "optics_"

def optionsTail : String := ".options"

/-- The map that holds the hour's events. -/
def eventsMap (h : Hour) : String := mapLead ++ h.key

def optionsMap (h : Hour) : String := mapLead ++ h.key ++ optionsTail

/-- The hour whose events the map of that name holds. -/
def ofEventsMap? (name : String) : Option Hour :=
  if mapLead.toList.isPrefixOf name.toList then
    ofKey? (String.ofList (name.toList.drop mapLead.length))
  else none

theorem contains_iff {h : Hour} {ms : Int} :
    h.contains ms = true ↔ h.startMillis ≤ ms ∧ ms < h.endMillis := by
  simp [contains]

/-- An hour holds the timestamps that lead to it. -/
theorem contains_of_ofMillis? {h : Hour} {ms : Int} (hh : ofMillis? ms = some h) :
    h.contains ms = true := by
  simp only [ofMillis?, Instant.ofMillis?, Instant.ofSeconds?, Option.map_eq_some_iff] at hh
  obtain ⟨t, ht, rfl⟩ := hh
  split at ht
  · cases ht
    simp only [contains_iff, ofInstant, startMillis, endMillis, startSeconds]
    omega
  · cases ht

end Hour

end EventStore
