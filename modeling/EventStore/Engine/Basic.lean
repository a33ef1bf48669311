import EventStore.Config.Basic
import EventStore.Engine.Activity
import EventStore.Engine.Error
import EventStore.Event.Basic
import EventStore.Query.Cache
import EventStore.Store.Basic

/-!
# The state of an engine

An engine keeps events in buckets, one an hour, over a store. Its state holds the buckets that have been
opened, the registry of those in use and the queue of events that wait to be stored. Operations are
activities on this state.
-/

namespace EventStore

open Std

inductive BucketState
  | uninitialized
  | rebuilding
  | ready
  /-- Ready, and protected from eviction. -/
  | locked
  | dropped
  deriving DecidableEq, Repr

namespace BucketState

def name : BucketState → String
  | uninitialized => "Uninitialized"
  | rebuilding => "Rebuilding"
  | ready => "Ready"
  | locked => "Locked"
  | dropped => "Dropped"

def word : BucketState → String
  | uninitialized => "uninitialized"
  | rebuilding => "rebuilding"
  | ready => "ready"
  | locked => "locked"
  | dropped => "dropped"

def isWritable : BucketState → Bool
  | ready | locked => true
  | uninitialized | rebuilding | dropped => false

end BucketState

/-- What about an opened bucket never changes. Buckets of one hour that were opened apart differ in their
numbers. -/
structure Bucket where
  number : Nat
  hour : Hour
  id : UInt32
  named : hour.tokenSeconds? = some id
  deriving DecidableEq

structure BucketData where
  index : Index
  /-- The highest id given out. -/
  lastId : UInt32
  state : BucketState
  /-- Whether an operation that changes the bucket is under way. -/
  writing : Bool

def BucketData.fresh : BucketData := ⟨.empty, 0, .uninitialized, false⟩

structure Queued where
  event : Event
  /-- Drains that failed to store the event. -/
  attempts : Nat

structure Engine where
  store : Store
  cache : Query.Cache
  /-- Milliseconds, for the cache. -/
  clock : Nat
  /-- By the number of the bucket. -/
  opened : Array BucketData
  registry : ExtTreeMap Hour Bucket compare
  /-- Whether a bucket is being registered. -/
  registering : Bool
  /-- Whether new buckets are locked. -/
  locked : Bool
  /-- Seconds for which events are kept. -/
  retention : Int
  settings : Config.EngineSection
  queue : List Queued
  /-- Events of the queue that have been stored. -/
  ingested : Nat
  /-- Events that the queue did not take. -/
  filtered : Nat
  /-- Events of the queue that have been given up. -/
  dropped : Nat
  stopping : Bool

namespace Engine

def standardRetention : Int := 25 * 3600

/-- An engine without buckets, whatever the store holds. -/
def fresh (store : Store) (cache : Query.Cache) (settings : Config.EngineSection) : Engine where
  store := store
  cache := cache
  clock := 0
  opened := #[]
  registry := ∅
  registering := false
  locked := false
  retention := standardRetention
  settings := settings
  queue := []
  ingested := 0
  filtered := 0
  dropped := 0
  stopping := false

def data (e : Engine) (b : Bucket) : BucketData := e.opened.getD b.number .fresh

def setData (e : Engine) (b : Bucket) (d : BucketData) : Engine :=
  { e with opened := e.opened.setIfInBounds b.number d }

def buckets (e : Engine) : List Bucket := e.registry.values

def queueDepth (e : Engine) : Nat := e.queue.length

theorem data_setData {e : Engine} {b c : Bucket} {d : BucketData} (h : b.number < e.opened.size) :
    (e.setData b d).data c = if b.number = c.number then d else e.data c := by
  by_cases hn : b.number = c.number
  · simp [data, setData, Array.getD_eq_getD_getElem?, hn, hn ▸ h]
  · simp [data, setData, Array.getD_eq_getD_getElem?, hn]

end Engine

-- ---- operations ----------------------------------------------------------

/-- An operation of an engine. It may fail, and what it did before that stays done. -/
abbrev Operation := ExceptT EngineError (Activity Engine)

namespace Operation

/-- A call to the store. -/
def call (r : Request α) : Operation α := ExceptT.mk (Activity.atomically fun e =>
  let (a, s) := e.store.answer r
  (a.mapError .store, { e with store := s }))

/-- A step that may fail. -/
def attempt (act : Engine → Except EngineError α × Engine) : Operation α :=
  ExceptT.mk (Activity.atomically act)

/-- What came of an operation, as a value. -/
def outcome (op : Operation α) : Operation (Except EngineError α) := ExceptT.lift op.run

end Operation

end EventStore
