import EventStore.Engine.Ingest
import EventStore.Engine.Paging
import EventStore.Event.Json

/-!
# Serving

What an engine does before it serves, the loops that run in the background meanwhile, and its figures.
-/

namespace EventStore

open Json

namespace Service

/-- An engine that has not looked at its store yet. -/
def engine (store : Store) (settings : Config.EngineSection) : Engine :=
  .fresh store (.new (settings.cacheTtlSecs * 1000) settings.cacheMaxEntries) settings

def setRetention (seconds : Int) : Activity Engine Unit := Activity.change ({ · with retention := seconds })

/-- Opens the buckets that the store holds, and sets how long events are kept. -/
def start : Operation Unit := do
  EventSet.openAll
  match (← Ingest.settings).retention? with
  | some seconds => setRetention seconds
  | none => throw .outOfRange

-- ---- in the background ---------------------------------------------------

/-- One round of the drain loop; the answer is whether it goes on. When the engine stops, the last round
empties the queue. -/
def drainRound : Activity Engine Bool := do
  if ← Ingest.isStopping then
    let _ ← Ingest.drainPending
    return false
  if 0 < (← Ingest.queueDepth) then
    let _ ← Ingest.drainOnce
  return true

def purgeExpired : Activity Engine Unit :=
  Activity.change fun e => { e with cache := (e.cache.purgeExpired e.clock).2 }

/-- One round of the retention sweep, as of `now`. -/
def sweepRound (now : Instant) : Activity Engine Bool := do
  if ← Ingest.isStopping then return false
  match ← (EventSet.dropData now).run with
  | .error .outOfRange => return false
  | _ =>
    purgeExpired
    return true

inductive Loop
  | drain
  /-- As of `now` in every round. -/
  | sweep (now : Instant)

namespace Loop

def round : Loop → Activity Engine Bool
  | drain => drainRound
  | sweep now => sweepRound now

/-- Round after round, at any times. -/
def activity (l : Loop) : Activity Engine Unit :=
  Activity.goRound (fun () => do
    if ← l.round then return .inl () else return .inr ()) ()

end Loop

/-- A loop by the clock: its rounds are `period` milliseconds apart. -/
structure Ticker where
  due : Nat
  period : Nat
  loop : Loop

/-- Starts with a round at once. -/
def drainTicker (settings : Config.EngineSection) (elapsed : Nat) : Ticker :=
  ⟨elapsed, settings.drainInterval, .drain⟩

/-- Starts with a round after one period. -/
def sweepTicker (settings : Config.EngineSection) (now : Instant) (elapsed : Nat) : Ticker :=
  ⟨elapsed + settings.sweepIntervalMs, settings.sweepIntervalMs, .sweep now⟩

/-- The loop whose round is due first, with those before it and those after it in the list. -/
def nextDue : List Ticker → Option (List Ticker × Ticker × List Ticker)
  | [] => none
  | t :: rest =>
    match nextDue rest with
    | none => some ([], t, rest)
    | some (before, u, after) =>
      if u.due < t.due then some (t :: before, u, after) else some ([], t, rest)

/-- Runs the rounds that are due before `limit`, `most` of them at most. -/
def advance (rounds : Nat) (limit : Nat) : (most : Nat) → List Ticker → Engine →
    Option (List Ticker × Engine)
  | 0, _, _ => none
  | most + 1, tickers, e =>
    match nextDue tickers with
    | none => some (tickers, e)
    | some (before, t, after) =>
      if t.due < limit then
        match t.loop.round.run rounds e with
        | some (true, e) =>
          advance rounds limit most (before ++ { t with due := t.due + t.period } :: after) e
        | some (false, e) => advance rounds limit most (before ++ after) e
        | none => none
      else some (tickers, e)

-- ---- figures -------------------------------------------------------------

structure Stats where
  bucketCount : Nat
  totalEvents : Nat
  queueDepth : Nat
  ingested : Nat
  filtered : Nat
  dropped : Nat
  locked : Bool
  cache : Query.CacheStats
  buckets : List EventSet.Summary

def stats : Activity Engine Stats := do
  let bucketCount ← EventSet.bucketCount
  let totalEvents ← EventSet.totalEvents
  let figures ← Activity.observe id
  let buckets ← EventSet.summaries
  return ⟨bucketCount, totalEvents, figures.queueDepth, figures.ingested, figures.filtered,
    figures.dropped, figures.locked, figures.cache.stats, buckets⟩

end Service

def EventSet.Summary.json (s : EventSet.Summary) : Value :=
  .object [("key", .text s.key), ("start", .text (s.start.text Instant.letterForm)),
    ("state", .text s.state.word), ("events", .count s.events), ("last_id", .count s.lastId.toNat)]

def Query.CacheStats.json (s : CacheStats) : Value :=
  .object [("hits", .count s.hits), ("misses", .count s.misses), ("entries", .count s.entries)]

def Service.Stats.json (s : Stats) : Value :=
  .object [("bucket_count", .count s.bucketCount), ("total_events", .count s.totalEvents),
    ("queue_depth", .count s.queueDepth), ("ingested", .count s.ingested),
    ("filtered", .count s.filtered), ("dropped", .count s.dropped), ("locked", .bool s.locked),
    ("cache", s.cache.json), ("buckets", .list (s.buckets.map EventSet.Summary.json))]

def Answer.json (a : Answer) : Value :=
  .object ([("events", .list (a.events.map Event.json)), ("continuation_token", .count a.token)] ++
    (a.error.map fun s => ("error", .text s)).toList)

end EventStore
