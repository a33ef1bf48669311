import EventStore.Bytes.LittleEndian
import EventStore.Event.Basic

/-!
# Binary forms

How texts, counts and events are laid out in bytes. Numbers are little-endian, and counts take eight
bytes. Reading inverts writing and leaves what follows alone.
-/

namespace EventStore

/-- Takes a value from the front of some bytes, or refuses them. -/
abbrev Decoder := StateT Bytes Option

namespace Binary

-- ---- writing -------------------------------------------------------------

def count (n : Nat) : Bytes := Bytes.littleEndian 8 n

def block (s : Bytes) : Bytes := count s.length ++ s

def text (s : String) : Bytes := block s.toUTF8.data.toList

def properties (m : Properties) : Bytes :=
  count m.size ++ m.toList.flatMap fun (name, value) => text name ++ text value

def event (e : Event) : Bytes :=
  Bytes.littleEndian 4 e.id.toNat ++ Bytes.littleEndian 8 e.timestamp.toUInt64.toNat ++
    properties e.properties ++ Bytes.littleEndian 4 e.bucket.toNat

-- ---- reading -------------------------------------------------------------

def takeNumber (width : Nat) : Decoder Nat := Bytes.takeNumber? width

def takeCount : Decoder Nat := takeNumber 8

def takeBlock : Decoder Bytes := do
  let n ← takeCount
  Bytes.split? n

def takeText : Decoder String := do
  match String.fromUTF8? ⟨(← takeBlock).toArray⟩ with
  | some s => return s
  | none => failure

/-- Takes `n` items and adds them to those already taken, the latest first. -/
def takeMore (item : Decoder α) : Nat → List α → Decoder (List α)
  | 0, taken => return taken.reverse
  | n + 1, taken => do
    let a ← item
    takeMore item n (a :: taken)

def takeMany (item : Decoder α) : Decoder (List α) := do
  let n ← takeCount
  takeMore item n []

def takePair : Decoder (String × String) := do
  let name ← takeText
  let value ← takeText
  return (name, value)

def takeProperties : Decoder Properties := do
  return Properties.ofList (← takeMany takePair)

def takeEvent : Decoder Event := do
  let id ← takeNumber 4
  let timestamp ← takeNumber 8
  let properties ← takeProperties
  let bucket ← takeNumber 4
  return ⟨id.toUInt32, timestamp.toUInt64.toInt64, properties, bucket.toUInt32⟩

/-- The event in front; what follows is ignored. -/
def readEvent? (s : Bytes) : Option Event := (takeEvent.run s).map Prod.fst

end Binary

-- ---- keys ----------------------------------------------------------------

/-- The key of an event's id: highest byte first, so that keys sort as ids do. -/
def idKey (id : UInt32) : Bytes := (Bytes.littleEndian 4 id.toNat).reverse

/-- The id of a key of four bytes. -/
def idOfKey? (key : Bytes) : Option UInt32 :=
  if key.length = 4 then some (Bytes.number key.reverse).toUInt32 else none

theorem idOfKey?_idKey (id : UInt32) : idOfKey? (idKey id) = some id := by
  have h := UInt32.toNat_lt id
  have hn : (Bytes.littleEndian 4 id.toNat).number = id.toNat := by
    rw [Bytes.number_littleEndian]
    exact Nat.mod_eq_of_lt h
  simp [idOfKey?, idKey, Bytes.length_littleEndian, hn]

theorem idKey_inj {a b : UInt32} (h : idKey a = idKey b) : a = b := by
  have := congrArg idOfKey? h
  simpa [idOfKey?_idKey] using this

end EventStore
