import EventStore.Engine.Bucket

/-!
# The set of all events

Buckets in use are registered by their hour. Events go to the bucket of their hour, which is made when it
is first needed, and queries visit the buckets that their range touches in the order of time. Eviction
drops whole buckets and spares the locked ones.
-/

namespace EventStore

open Std Query Operation

namespace EventSet

-- ---- the registry --------------------------------------------------------

/-- The registry, as soon as nobody is registering a bucket. -/
def registry : Activity Engine (ExtTreeMap Hour Bucket compare) :=
  Activity.whenever (!·.registering) fun e => (e.registry, e)

def bucket? (hour : Hour) : Activity Engine (Option Bucket) := return (← registry)[hour]?

/-- The registered buckets in the order of time. -/
def buckets : Activity Engine (List Bucket) := return (← registry).values

def bucketCount : Activity Engine Nat := return (← registry).size

def acquire : Activity Engine Unit :=
  Activity.whenever (!·.registering) fun e => ((), { e with registering := true })

def release : Activity Engine Unit := Activity.change ({ · with registering := false })

/-- `op`, while nobody else reads or changes the registry. -/
def alone (op : Operation α) : Operation α := ExceptT.mk do
  acquire
  let r ← op.run
  release
  return r

def isLocked : Activity Engine Bool := Activity.observe (·.locked)

def setLocked (locked : Bool) : Activity Engine Unit := Activity.change ({ · with locked := locked })

def insert (b : Bucket) : Activity Engine Unit :=
  Activity.change fun e => { e with registry := e.registry.insert b.hour b }

def registered? (hour : Hour) : Activity Engine (Option Bucket) :=
  Activity.observe (·.registry[hour]?)

/-- Registers a bucket, unless there is one for the hour by now; that one is the answer then. While new
buckets are to be locked, none is registered that is not. -/
def register (b : Bucket) : Operation Bucket := alone do
  match ← registered? b.hour with
  | some other => return other
  | none =>
    if ← isLocked then
      if (← b.state) ≠ .locked then b.lock
    insert b
    return b

/-- The registered bucket of an hour. -/
def getOrCreate (hour : Hour) : Operation Bucket := do
  match ← bucket? hour with
  | some b => return b
  | none => register (← Bucket.openAt hour)

/-- Puts other buckets in the place of all that are registered. -/
def replaceAll (found : List Bucket) : Activity Engine Unit :=
  Activity.whenever (!·.registering) fun e =>
    ((), { e with registry := found.foldl (fun r b => r.insert b.hour b) ∅ })

/-- Opens and registers a bucket for every map of events in the store. -/
def openAll : Operation Unit := do
  let names ← call .mapNames
  let found ← (names.filterMap Hour.ofEventsMap?).mapM Bucket.openAt
  replaceAll found

-- ---- adding --------------------------------------------------------------

def route (e : Event) : Except EngineError Hour :=
  match e.hour? with
  | some hour => .ok hour
  | none => .error (.invalidTimestamp e.millis)

def add (e : Event) : Operation Event := do
  let hour ← route e
  (← getOrCreate hour).add e

/-- What became of events that were to be added together. -/
structure Report where
  committed : List Event
  /-- Events that can be tried again. -/
  retry : List Event
  /-- How many events cannot be stored at all. -/
  discarded : Nat
  lastError : Option EngineError

def Report.isComplete (r : Report) : Bool := r.retry.isEmpty && r.discarded == 0

def hoursOf (events : List Event) : ExtTreeSet Hour compare :=
  ExtTreeSet.ofList (events.filterMap Event.hour?)

/-- The events of each hour, in their order. -/
def groups (events : List Event) : List (Hour × List Event) :=
  (hoursOf events).toList.map fun hour => (hour, events.filter (·.hour? == some hour))

/-- The report on the events that no bucket takes. -/
def unrouted (events : List Event) : Report :=
  let lost := events.filter (·.hour?.isNone)
  ⟨[], [], lost.length, lost.getLast?.map fun e => .invalidTimestamp e.millis⟩

/-- Adds events of one hour, all or none. -/
def addGroup (r : Report) (hour : Hour) (events : List Event) : Activity Engine Report := do
  let op : Operation (List Event) := do (← getOrCreate hour).addAll events
  match ← op.run with
  | .ok stored => return { r with committed := r.committed ++ stored }
  | .error p =>
    if p.isRetryable then return { r with retry := r.retry ++ events, lastError := some p }
    else return { r with discarded := r.discarded + events.length, lastError := some p }

/-- Adds events hour by hour. What happens in one hour does not stop the others. -/
def addAll (events : List Event) : Activity Engine Report :=
  (groups events).foldlM (fun r (hour, group) => addGroup r hour group) (unrouted events)

-- ---- queries -------------------------------------------------------------

/-- Whether a query that goes on after `token` visits the bucket. -/
def visits (range : TimeRange) (token : Token) (b : Bucket) : Bool :=
  (Hour.ofInstant range.start).number ≤ b.hour.number &&
    b.hour.number ≤ (Hour.ofInstant range.stop).number &&
      (token.isStart || (token.bucket.toNat : Int) ≤ b.hour.startSeconds)

def select (range : TimeRange) (token : Token) : Activity Engine (List Bucket) :=
  return (← buckets).filter (visits range token)

def checkRange (range : TimeRange) : Except EngineError Unit :=
  if range.start ≤ range.stop then .ok () else .error (.query (.badTimeRange range.reversedText))

/-- In the token's own bucket only ids after the token's count. -/
def after (token : Token) (b : Bucket) : UInt32 :=
  if !token.isStart && b.id == token.bucket then token.id else 0

/-- Searches buckets one after the other until `most` events are found, or all if `most` is zero. -/
def searchAll (query : String) (range : TimeRange) (most : Nat) (token : Token) :
    List Bucket → (found : List Event) → Operation (List Event)
  | [], found => return found
  | b :: rest, found => do
    let more ← b.search query (if most = 0 then 0 else most - found.length) (after token b) range
    let found := found ++ more
    if 0 < most ∧ most ≤ found.length then return found
    else searchAll query range most token rest found

/-- The events after `token` that satisfy a query and lie in the range, by bucket and id. -/
def query (text : String) (range : TimeRange) (most : Nat) (token : Token) : Operation (List Event) := do
  checkRange range
  let _ ← Bucket.criteria text
  searchAll text range most token (← select range token) []

/-- Whether the whole hour of a bucket lies in the range. -/
def covers (range : TimeRange) (b : Bucket) : Bool :=
  range.start ≤ b.hour.start && b.hour.last ≤ range.stop

def countAll (query : String) (range : TimeRange) : List Bucket → Nat → Operation Nat
  | [], n => return n
  | b :: rest, n => do
    if covers range b then countAll query range rest (n + (← b.countMatching query))
    else countAll query range rest (n + (← b.search query 0 0 range).length)

/-- How many events satisfy a query and lie in the range. -/
def count (text : String) (range : TimeRange) : Operation Nat := do
  checkRange range
  let _ ← Bucket.criteria text
  countAll text range (← select range .start) 0

-- ---- eviction ------------------------------------------------------------

/-- Takes a bucket out of the registry, if it is still the one registered. -/
def forget (b : Bucket) : Activity Engine Unit :=
  Activity.whenever (!·.registering) fun e =>
    ((), if e.registry[b.hour]? = some b then { e with registry := e.registry.erase b.hour } else e)

/-- Drops the buckets of the hours and says how many those were. -/
def evict : List Hour → (dropped : Nat) → Operation Nat
  | [], dropped => return dropped
  | hour :: rest, dropped => do
    match ← bucket? hour with
    | none => evict rest dropped
    | some b =>
      if ← b.discard false then
        forget b
        evict rest (dropped + 1)
      else evict rest dropped

/-- Drops every bucket that is not locked. -/
def purge : Operation Nat := do evict (← registry).keys 0

def retention : Activity Engine Int := Activity.observe (·.retention)

/-- Drops the buckets whose hours began longer ago than events are kept, unless they are locked. -/
def dropData (now : Instant) : Operation Nat := do
  match now.shift? (-(← retention)) with
  | some cutoff => evict ((← registry).keys.filter (·.start < cutoff)) 0
  | none => throw .outOfRange

-- ---- locking -------------------------------------------------------------

/-- `op`, except that it does not matter if the bucket has been dropped. -/
def unlessDropped (op : Operation Unit) : Operation Unit := do
  match ← outcome op with
  | .ok () | .error (.bucketDropped _) => return ()
  | .error p => throw p

/-- Locks every bucket, also those to come. -/
def lock : Operation Unit := do
  setLocked true
  (← buckets).forM fun b => unlessDropped b.lock

def unlock : Operation Unit := do
  setLocked false
  (← buckets).forM fun b => unlessDropped b.unlock

-- ---- reports -------------------------------------------------------------

structure Summary where
  key : String
  start : Instant
  state : BucketState
  events : Nat
  lastId : UInt32

def summary (b : Bucket) : Activity Engine Summary :=
  b.observe fun d => ⟨b.hour.key, b.hour.start, d.state, d.index.size, d.lastId⟩

/-- The registered buckets, the oldest first. -/
def summaries : Activity Engine (List Summary) := do (← buckets).mapM summary

def totalEvents : Activity Engine Nat := do
  return (← summaries).foldr (fun s n => s.events + n) 0

end EventSet

end EventStore
