import EventStore.Api.Body
import EventStore.Api.ContentType
import EventStore.Api.Error
import EventStore.Api.Target
import EventStore.Engine.Service

/-!
# The HTTP interface

Requests to an engine and the answers to them. Answers leave out what differs from run to run, such as
the time that a query took; whoever sends them can add it.
-/

namespace EventStore.Api

open Json

def version : String := "0.1.0"

structure Limits where
  /-- In bytes. -/
  maxBodySize : Nat
  maxBatchEvents : Nat

def standardBatch : Nat := 10000

def Limits.ofSection (c : Config.ServerSection) : Limits := ⟨c.maxBodySize, standardBatch⟩

inductive Method
  | get
  | head
  | post
  | options
  | other
  deriving DecidableEq, Repr

def Method.ofName : String → Method
  | "GET" => get
  | "HEAD" => head
  | "POST" => post
  | "OPTIONS" => options
  | _ => other

structure Request where
  method : Method
  path : String
  contentType : Option String
  body : String

namespace Request

/-- Why something is no request. -/
inductive Problem
  | badMethod
  | badTarget (p : Target.Problem)
  | badHeader
  deriving DecidableEq, Repr

def Problem.message : Problem → String
  | badMethod => "invalid HTTP method"
  | badTarget p => p.message
  | badHeader => "failed to parse header value"

/-- A header may hold no control characters but tabs. -/
def isHeaderChar (c : Char) : Bool := c == '\t' || (0x20 ≤ c.toNat && c.toNat != 0x7f)

def ofParts (method target : String) (contentType : Option String) (body : String) :
    Except Problem Request := do
  if method.isEmpty || !method.toList.all ContentType.isTokenChar then throw .badMethod
  else
    let path ← (Target.path target).mapError Problem.badTarget
    if contentType.any fun t => !t.toList.all isHeaderChar then throw .badHeader
    else return ⟨.ofName method, path, contentType, body⟩

end Request

structure Response where
  status : Nat
  body : Option Value

def Response.ofJson (v : Value) : Response := ⟨200, some v⟩

inductive Route
  | submit
  | submitBatch
  | query
  | count
  | purge
  | lock
  | unlock
  | stats
  | live
  | ready
  | health
  deriving DecidableEq, Repr

namespace Route

def ofPath? : String → Option Route
  | "/api/v1/events" => some submit
  | "/api/v1/events/batch" => some submitBatch
  | "/api/v1/query" => some query
  | "/api/v1/query/count" => some count
  | "/api/v1/admin/purge" => some purge
  | "/api/v1/admin/lock" => some lock
  | "/api/v1/admin/unlock" => some unlock
  | "/api/v1/stats" => some stats
  | "/health/live" => some live
  | "/health/ready" => some ready
  | "/health" => some health
  | _ => none

def method : Route → Method
  | submit | submitBatch | query | count | purge | lock | unlock => .post
  | stats | live | ready | health => .get

end Route

-- ---- bodies --------------------------------------------------------------

/-- What the body says, or the status of an answer that refuses it. -/
def readBody (limits : Limits) (r : Request) (reader : Reader α) : Except Nat α :=
  if !r.contentType.any ContentType.isJson then .error 415
  else if limits.maxBodySize < r.body.utf8ByteSize then .error 413
  else
    match readFront reader r.body with
    | .ok a => .ok a
    | .error .malformed => .error 400
    | .error .unsuitable => .error 422

def withBody (limits : Limits) (r : Request) (reader : Reader α) (k : α → Operation Response) :
    Operation Response :=
  match readBody limits r reader with
  | .ok a => k a
  | .error status => return ⟨status, none⟩

def refused (f : Failure) : Response := ⟨f.status, some f.json⟩

-- ---- answers -------------------------------------------------------------

def submitAll (events : List Event) : Operation Response := do
  let accepted ← Ingest.addAll events
  return ⟨202, some (.object [("accepted", .count accepted),
    ("filtered", .count (events.length - accepted))])⟩

def submitBatch (limits : Limits) (now : Instant) (events : List Submission) : Operation Response :=
  if events.isEmpty then return refused (.validation "Empty batch")
  else if limits.maxBatchEvents < events.length then
    return refused (.validation s!"Batch size exceeds maximum of {limits.maxBatchEvents} events")
  else submitAll (events.map (·.event now))

/-- The range of a search; there is no answer if it cannot be represented. -/
def rangeOf (s : Search) (now : Instant) : Except EngineError TimeRange :=
  match s.range? now with
  | some range => .ok range
  | none => .error .outOfRange

def answerSearch (now : Instant) (s : Search) : Operation Response := do
  let range ← rangeOf s now
  return .ofJson (← Answer.query s.query range s.token).json

def answerCount (now : Instant) (s : Search) : Operation Response := do
  let range ← rangeOf s now
  return .ofJson (.object [("count", .count (← Answer.count s.query range))])

def adminAnswer (action : String) (buckets : Nat) : Response :=
  .ofJson (.object [("action", .text action), ("buckets", .count buckets)])

/-- An answer that tells of the failure if there is one. -/
def orFailure (op : Operation Response) : Operation Response := do
  match ← Operation.outcome op with
  | .ok r => return r
  | .error e => return refused (.engine e)

/-- From this many queued events on the engine has fallen behind. -/
def backlogLimit : Nat := 100000

def healthJson (queueDepth buckets : Nat) : Value :=
  .object [("status", .text (if queueDepth < backlogLimit then "healthy" else "degraded")),
    ("buckets", .count buckets), ("queue_depth", .count queueDepth), ("version", .text version)]

def handle (limits : Limits) (now : Instant) (r : Request) : Route → Operation Response
  | .submit => withBody limits r submission fun s => submitAll [s.event now]
  | .submitBatch => withBody limits r batch (submitBatch limits now)
  | .query => withBody limits r pageSearch (answerSearch now)
  | .count => withBody limits r countSearch (answerCount now)
  | .purge => orFailure do return adminAnswer "purge" (← EventSet.purge)
  | .lock => orFailure do
    EventSet.lock
    return adminAnswer "lock" (← EventSet.bucketCount)
  | .unlock => orFailure do
    EventSet.unlock
    return adminAnswer "unlock" (← EventSet.bucketCount)
  | .stats => return .ofJson (← Service.stats).json
  | .live => return ⟨200, none⟩
  | .ready => return ⟨if (← Ingest.queueDepth) < backlogLimit then 200 else 503, none⟩
  | .health => return .ofJson (healthJson (← Ingest.queueDepth) (← EventSet.bucketCount))

/-- The answer to a request that arrives `now`. Browsers may ask for the options of any path. -/
def respond (limits : Limits) (now : Instant) (r : Request) : Operation Response :=
  if r.method = .options then return ⟨200, none⟩
  else
    match Route.ofPath? r.path with
    | none => return ⟨404, none⟩
    | some route =>
      if r.method = route.method then handle limits now r route
      else if r.method = .head ∧ route.method = .get then do
        return { ← handle limits now r route with body := none }
      else return ⟨405, none⟩

end EventStore.Api
