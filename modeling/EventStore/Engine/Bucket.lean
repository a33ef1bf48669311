import EventStore.Engine.Basic
import EventStore.Engine.Seek
import EventStore.Event.Binary
import EventStore.Time.Range

/-!
# Buckets

A bucket holds the events of one hour in a map of the store, under ids that count from one, and beside
it in memory an index of their properties. A second map tells whether the bucket is locked. Whatever
changes a bucket does so alone; searches go on meanwhile, on the events that they have found in the index.
-/

namespace EventStore

open Query Operation

namespace Bucket

def eventsMap (b : Bucket) : String := b.hour.eventsMap

def optionsMap (b : Bucket) : String := b.hour.optionsMap

-- ---- steps ---------------------------------------------------------------

def observe (b : Bucket) (f : BucketData → α) : Activity Engine α := Activity.observe fun e => f (e.data b)

def change (b : Bucket) (f : BucketData → BucketData) : Activity Engine Unit :=
  Activity.change fun e => e.setData b (f (e.data b))

def state (b : Bucket) : Activity Engine BucketState := b.observe (·.state)

def setState (b : Bucket) (s : BucketState) : Activity Engine Unit := b.change ({ · with state := s })

def setLastId (b : Bucket) (id : UInt32) : Activity Engine Unit := b.change ({ · with lastId := id })

def setIndex (b : Bucket) (index : Index) (lastId : UInt32) : Activity Engine Unit :=
  b.change ({ · with index := index, lastId := lastId })

def acquire (b : Bucket) : Activity Engine Unit :=
  Activity.whenever (fun e => !(e.data b).writing) fun e =>
    ((), e.setData b { e.data b with writing := true })

def release (b : Bucket) : Activity Engine Unit := b.change ({ · with writing := false })

/-- `op`, while nobody else changes the bucket. -/
def alone (b : Bucket) (op : Operation α) : Operation α := ExceptT.mk do
  b.acquire
  let r ← op.run
  b.release
  return r

-- ---- opening -------------------------------------------------------------

/-- The event that the store holds for a key. -/
def decode (key value : Bytes) : Except EngineError (UInt32 × Event) :=
  match idOfKey? key with
  | none => .error (.store (.corruption s!"invalid id key of {key.length} bytes"))
  | some id =>
    match Binary.readEvent? value with
    | some e => .ok (id, e)
    | none => .error (.store (.serialization "malformed event"))

/-- The index of stored events, and the highest id among them. -/
def indexOf (entries : List (Bytes × Bytes)) : Except EngineError (Index × UInt32) :=
  entries.foldlM (fun (index, lastId) (key, value) =>
    (decode key value).map fun (id, e) => (index.addEvent id e.properties, max lastId id)) (.empty, 0)

/-- Under this key the options tell whether the bucket is locked. -/
def lockKey : Bytes := "skip_delete".toUTF8.data.toList

def isLockMark (value : Option Bytes) : Bool :=
  match value with
  | some [mark] => mark != 0
  | _ => false

/-- Reads the bucket from the store, and tells whether it is locked there. -/
def replay (b : Bucket) : Operation Bool := do
  call (.openMap b.eventsMap)
  call (.openMap b.optionsMap)
  let entries ← call (.scan b.eventsMap)
  let (index, lastId) ← indexOf entries
  let locked := isLockMark (← call (.get b.optionsMap lockKey))
  b.setIndex index lastId
  return locked

/-- Makes the index anew from what the store holds. -/
def rebuild (b : Bucket) : Operation Unit := b.alone do
  b.setState .rebuilding
  match ← outcome b.replay with
  | .ok locked => b.setState (if locked then .locked else .ready)
  | .error e =>
    b.setState .uninitialized
    throw e

/-- A new bucket that has not been read yet. -/
def allocate (hour : Hour) (id : UInt32) (h : hour.tokenSeconds? = some id) : Activity Engine Bucket :=
  Activity.atomically fun e =>
    (⟨e.opened.size, hour, id, h⟩, { e with opened := e.opened.push .fresh })

/-- Opens the bucket of an hour. There is none if the store cannot be read. -/
def openAt (hour : Hour) : Operation Bucket :=
  match h : hour.tokenSeconds? with
  | none => throw (.invalidTimestamp hour.startMillis)
  | some id => do
    let b ← allocate hour id h
    b.rebuild
    return b

-- ---- writing -------------------------------------------------------------

def checkWritable (b : Bucket) (d : BucketData) : Except EngineError Unit :=
  if d.state.isWritable then .ok ()
  else .error (.bucketDropped s!"{b.hour.key} is {d.state.name}")

/-- Counts ids for the events in. The answer is the last id before them. -/
def reserve (b : Bucket) (events : List Event) (d : BucketData) :
    Except EngineError (UInt32 × BucketData) := do
  b.checkWritable d
  match events.find? fun e => !b.hour.contains e.millis with
  | some e => throw (.invalidTimestamp e.millis)
  | none =>
    let last := d.lastId.toNat + events.length
    if last < 4294967296 then return (d.lastId, { d with lastId := last.toUInt32 })
    else throw (.bucketFull b.hour.key)

/-- The events as they are stored, with the ids after `last`. -/
def numbered (b : Bucket) : (last : UInt32) → List Event → List Event
  | _, [] => []
  | last, e :: rest => { e with id := last + 1, bucket := b.id } :: b.numbered (last + 1) rest

/-- The writes that store events. -/
def writing (b : Bucket) (events : List Event) : Transaction :=
  events.foldl (fun tx e => tx.set b.eventsMap (idKey e.id) (Binary.event e)) .empty

def indexAll (events : List Event) (index : Index) : Index :=
  events.foldl (fun i e => i.addEvent e.id e.properties) index

/-- Stores events, all or none, with ids in their order. -/
def addAll (b : Bucket) (events : List Event) : Operation (List Event) :=
  if events.isEmpty then return []
  else b.alone do
    let last ← attempt fun e =>
      match b.reserve events (e.data b) with
      | .ok (last, d) => (.ok last, e.setData b d)
      | .error p => (.error p, e)
    let stored := b.numbered last events
    match ← outcome (call (.commit (b.writing stored))) with
    | .ok () =>
      b.change fun d => { d with index := indexAll stored d.index }
      return stored
    | .error p =>
      b.setLastId last
      throw p

def add (b : Bucket) (e : Event) : Operation Event := do
  match (← b.addAll [e]).getLast? with
  | some stored => return stored
  | none => throw (.bucketDropped b.hour.key)

-- ---- locking and dropping ------------------------------------------------

def setLock (b : Bucket) (locked : Bool) : Operation Unit := b.alone do
  attempt fun e => (b.checkWritable (e.data b), e)
  call (.commit (Transaction.empty.set b.optionsMap lockKey [if locked then 1 else 0]))
  b.setState (if locked then .locked else .ready)

/-- Protects the bucket from eviction. -/
def lock (b : Bucket) : Operation Unit := b.setLock true

def unlock (b : Bucket) : Operation Unit := b.setLock false

/-- Removes the bucket's maps, unless it is locked; the answer is whether they are gone. To go on with the
bucket the maps can be made anew, empty. -/
def discard (b : Bucket) (goOn : Bool) : Operation Bool := b.alone do
  let state ← b.state
  if state = .locked then return false
  if state ≠ .dropped then
    let _ ← call (.removeMap b.eventsMap)
    let _ ← call (.removeMap b.optionsMap)
  b.setIndex .empty 0
  if goOn then
    call (.openMap b.eventsMap)
    call (.openMap b.optionsMap)
    b.setState .ready
  else
    b.setState .dropped
  return true

-- ---- reading -------------------------------------------------------------

/-- The criteria of a query, from the cache if they are there. -/
def criteria (query : String) : Operation Criteria := attempt fun e =>
  let (c, cache) := e.cache.getOrCompile e.clock query
  (c.mapError .query, { e with cache := cache })

def evaluate (b : Bucket) (c : Criteria) : Activity Engine Positions := b.observe (·.index.evaluate c)

/-- Ids of the events that satisfy a query. -/
def matching (b : Bucket) (query : String) : Operation Positions := do
  b.evaluate (← criteria query)

def countMatching (b : Bucket) (query : String) : Operation Nat := do
  return (← b.matching query).size

/-- A stored event. -/
def load (b : Bucket) (id : UInt32) : Operation (Option Event) := do
  match ← call (.get b.eventsMap (idKey id)) with
  | none => return none
  | some value =>
    match Binary.readEvent? value with
    | some e => return some { e with id := id, bucket := b.id }
    | none => throw (.store (.serialization "malformed event"))

/-- The time of a stored event, and the earliest time of all for one that is gone. -/
def timeOf (b : Bucket) (id : UInt32) : Operation Int := do
  return ((← b.load id).map Event.millis).getD Text.minInt64

/-- Loads events until `most` of them lie in the range; zero is no limit. -/
def collect (b : Bucket) (range : TimeRange) (most : Nat) :
    List UInt32 → (found : List Event) → Operation (List Event)
  | [], found => return found.reverse
  | id :: rest, found =>
    if 0 < most ∧ most ≤ found.length then return found.reverse
    else do
      match ← b.load id with
      | some e => b.collect range most rest (if range.holds e.millis then e :: found else found)
      | none => b.collect range most rest found

/-- The events that satisfy a query, lie in the range and have ids above `after`, in the order of ids;
`most` of them at most, unless it is zero. -/
def search (b : Bucket) (query : String) (most : Nat) (after : UInt32) (range : TimeRange) :
    Operation (List Event) := do
  let positions ← b.matching query
  if (← b.state) = .dropped then return []
  if range.stop.millis < b.hour.startMillis ∨ b.hour.endMillis ≤ range.start.millis then return []
  let ids := (positions.above after).toArray
  if ids.isEmpty then return []
  let first ←
    if range.start.millis ≤ b.hour.startMillis then pure 0
    else Seek.seek (fun i => b.timeOf (ids.getD i 0)) range.start.millis ids.size
  b.collect range most (ids.toList.drop first) []

/-- Events in the store. -/
def storedCount (b : Bucket) : Operation Nat := call (.count b.eventsMap)

end Bucket

end EventStore
