import EventStore.Engine.Ingest

/-!
# The parts of a drain

A drain takes a batch from the queue and adds it to the set of buckets, those events together that
have been tried equally often. It reckons with each report, and in the end it puts back what is to
be tried again (`drainOnce_eq`).
-/

namespace EventStore

namespace Ingest

/-- Sends events back together, unless they have been tried often enough. -/
def tryAgain (d : Drained) (attempts : Nat) (events : List Event) : Activity Engine Drained := do
  if events.isEmpty then return d
  else if (← settings).maxIngestAttempts ≤ attempts + 1 then
    countDropped events.length
    return d
  else return { d with requeue := d.requeue ++ events.map (⟨·, attempts + 1⟩) }

/-- What a drain does with a report. -/
def reckon (d : Drained) (attempts : Nat) (report : EventSet.Report) : Activity Engine Drained := do
  let d := { d with committed := d.committed + report.committed.length }
  if 0 < report.discarded then countDropped report.discarded
  tryAgain d attempts report.retry

/-- What a drain does in the end. -/
def finish (d : Drained) : Activity Engine Nat := do
  if !d.requeue.isEmpty then putBack d.requeue
  countIngested d.committed
  return d.committed

/-- What a drain does with the batch that it has taken. -/
def drainBatch (batch : List Queued) : Activity Engine Nat := do
  if batch.isEmpty then return 0
  finish (← (byAttempts batch).foldlM (fun d (n, events) => drainGroup d n events) ⟨0, []⟩)

theorem drainGroup_eq (d : Drained) (attempts : Nat) (events : List Event) :
    drainGroup d attempts events = EventSet.addAll events >>= reckon d attempts := rfl

theorem drainOnce_eq : drainOnce = takeBatch >>= drainBatch := rfl

end Ingest

end EventStore
