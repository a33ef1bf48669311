import EventStore.Engine.EventSet

/-!
# The ingest queue

Events are queued when they arrive and stored later, batch by batch. An event that cannot be stored goes
back to the front of the queue, until it has been tried as often as the settings allow.
-/

namespace EventStore

open Std

namespace Ingest

def debugLevel : String := "DEBUG"

/-- Debug events may be unwanted. -/
def accepts (settings : Config.EngineSection) (e : Event) : Bool :=
  settings.enableDebugEvents || e.level? != some debugLevel

def settings : Activity Engine Config.EngineSection := Activity.observe (·.settings)

def countFiltered (n : Nat) : Activity Engine Unit :=
  Activity.change fun e => { e with filtered := e.filtered + n }

def countDropped (n : Nat) : Activity Engine Unit :=
  Activity.change fun e => { e with dropped := e.dropped + n }

def countIngested (n : Nat) : Activity Engine Unit :=
  Activity.change fun e => { e with ingested := e.ingested + n }

def append (events : List Event) : Activity Engine Unit :=
  Activity.change fun e => { e with queue := e.queue ++ events.map (⟨·, 0⟩) }

/-- Queues events and says how many were accepted. -/
def addAll (events : List Event) : Activity Engine Nat := do
  let accepted := events.filter (accepts (← settings))
  append accepted
  countFiltered (events.length - accepted.length)
  return accepted.length

/-- Queues an event, if it is accepted. -/
def add (e : Event) : Activity Engine Bool := return (← addAll [e]) == 1

def queueDepth : Activity Engine Nat := Activity.observe (·.queueDepth)

-- ---- draining ------------------------------------------------------------

/-- The next batch, which leaves the queue. -/
def takeBatch : Activity Engine (List Queued) := Activity.atomically fun e =>
  let n := max 1 e.settings.batchSize
  (e.queue.take n, { e with queue := e.queue.drop n })

def putBack (batch : List Queued) : Activity Engine Unit :=
  Activity.change fun e => { e with queue := batch ++ e.queue }

/-- The events of a batch by how often they have been tried, the most often first. -/
def byAttempts (batch : List Queued) : List (Nat × List Event) :=
  (ExtTreeSet.ofList (batch.map Queued.attempts) compare).toList.reverse.map fun n =>
    (n, (batch.filter (·.attempts == n)).map Queued.event)

structure Drained where
  committed : Nat
  /-- Events that are to be tried again. -/
  requeue : List Queued

/-- Stores events that have been tried equally often. -/
def drainGroup (d : Drained) (attempts : Nat) (events : List Event) : Activity Engine Drained := do
  let report ← EventSet.addAll events
  let d := { d with committed := d.committed + report.committed.length }
  if 0 < report.discarded then countDropped report.discarded
  if report.retry.isEmpty then return d
  else if (← settings).maxIngestAttempts ≤ attempts + 1 then
    countDropped report.retry.length
    return d
  else return { d with requeue := d.requeue ++ report.retry.map (⟨·, attempts + 1⟩) }

/-- Stores one batch and says how many of its events are stored now. -/
def drainOnce : Activity Engine Nat := do
  let batch ← takeBatch
  if batch.isEmpty then return 0
  let d ← (byAttempts batch).foldlM (fun d (n, events) => drainGroup d n events) ⟨0, []⟩
  if !d.requeue.isEmpty then putBack d.requeue
  countIngested d.committed
  return d.committed

/-- Stores batch after batch until the queue is empty. -/
def drainPending : Activity Engine Nat :=
  Activity.goRound (fun committed => do
    if (← queueDepth) = 0 then return .inr committed
    else return .inl (committed + (← drainOnce))) 0

def isStopping : Activity Engine Bool := Activity.observe (·.stopping)

/-- Tells the loops in the background to end, and stores what is still queued. -/
def shutdown : Activity Engine Nat := do
  Activity.change ({ · with stopping := true })
  drainPending

end Ingest

end EventStore
