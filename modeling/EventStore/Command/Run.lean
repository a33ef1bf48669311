import EventStore.Command.Arguments
import EventStore.Command.Report
import EventStore.Command.Span
import EventStore.Config.Backend
import EventStore.Config.Files

/-!
# Running commands

What a command does to the disk and what it says. The data directory is opened for one command, so nobody
else may be using it.
-/

namespace EventStore.Command

/-- What a command is run in. -/
structure Situation where
  environment : Config.Environment
  /-- The current directory. -/
  here : Path
  input : Bytes
  now : Instant

inductive Failure
  | config (p : Config.Problem)
  | openingStore (e : StoreError)
  | rebuilding (e : EngineError)
  | span (p : SpanProblem)
  /-- The span does not lie in the calendar. -/
  | outOfRange
  | badQuery (e : Query.QueryError)
  | query (text : String)
  | engine (e : EngineError)
  | opening (path : String) (p : DiskProblem)
  | file (p : FileProblem)
  | badLine (number : Nat)
  | unconfirmed
  /-- A loop takes more than `patience` rounds. -/
  | endless
  deriving DecidableEq, Repr

namespace Failure

def message : Failure → String
  | config p => p.message
  | openingStore _ => "opening store"
  | rebuilding _ => "rebuilding buckets"
  | span p => p.message
  | outOfRange => EngineError.outOfRange.message
  | badQuery e => e.message
  | query s => s!"query failed: {s}"
  | engine e => e.message
  | opening path _ => s!"opening {Text.quotedPath path}"
  | file p => p.message
  | badLine n => s!"line {n}: invalid event"
  | unconfirmed => "refusing to purge without --yes"
  | endless => "no end in sight"

def cause? : Failure → Option String
  | openingStore e => some e.message
  | rebuilding e => some e.message
  | opening _ p => some p.message
  | _ => none

def isOutOfRange : Failure → Bool
  | outOfRange | rebuilding .outOfRange | engine .outOfRange => true
  | _ => false

def text (f : Failure) : String :=
  "Error: " ++ f.message ++ "\n" ++ (f.cause?.elim "" fun s => "\nCaused by:\n    " ++ s ++ "\n")

end Failure

-- ---- on an engine --------------------------------------------------------

/-- Steps of a command on an engine that nobody else uses. -/
abbrev Work := ExceptT Failure (StateM Engine)

def patience : Nat := 1000000000000000000

def perform (act : Activity Engine α) : Work α := ExceptT.mk fun e =>
  match act.run patience e with
  | some (a, e) => (.ok a, e)
  | none => (.error .endless, e)

def require (fail : EngineError → Failure) (op : Operation α) : Work α := do
  match ← perform op.run with
  | .ok a => return a
  | .error p => throw (fail p)

def lastRange (s : Situation) (last : String) : Work TimeRange :=
  match readSpan last with
  | .error p => throw (.span p)
  | .ok seconds =>
    match lastSpan? seconds s.now with
    | some range => return range
    | none => throw .outOfRange

def firstPage (json : Bool) (text : String) (range : TimeRange) : Work Report := do
  let a ← perform (Answer.query text range 0)
  match a.error with
  | some s => throw (.query s)
  | none =>
    let notice := if a.token ≠ 0 ∧ !json then some (Report.more a.events.length) else none
    return { Report.events json a.events with notice := notice }

def query (s : Situation) (json : Bool) (text last : String) (all : Bool) : Work Report := do
  let range ← lastRange s last
  if all then return .events json (← require .engine (Page.queryAll text range))
  else firstPage json text range

def count (s : Situation) (json : Bool) (text last : String) : Work Report := do
  let range ← lastRange s last
  match Query.compile text with
  | .error e => throw (.badQuery e)
  | .ok _ => return .count json (← perform (Answer.count text range))

-- ---- events in lines -----------------------------------------------------

def splitLines : Bytes → List Bytes
  | [] => []
  | b :: rest =>
    if b = 10 then [] :: splitLines rest
    else
      match splitLines rest with
      | [] => [[b]]
      | line :: lines => (b :: line) :: lines

/-- A line end may be two characters long. -/
def withoutReturn (line : Bytes) : Bytes := if line.getLast? = some 13 then line.dropLast else line

/-- The events in lines of which the first has a number; blank lines are passed over. -/
def readEvents : Nat → List Bytes → Except Failure (List Event)
  | _, [] => .ok []
  | n, line :: rest =>
    match (withoutReturn line).text? with
    | .error p => .error (.file p)
    | .ok text =>
      if text.toList.all Text.isBlank then readEvents (n + 1) rest
      else
        match Event.ofJson text with
        | .ok e => (readEvents (n + 1) rest).map (e :: ·)
        | .error _ => .error (.badLine n)

/-- What the lines to be read are, in the input or in a file. -/
def source (s : Situation) (path : String) (d : Disk) : Except Failure Bytes :=
  if path = "-" then .ok s.input
  else
    match d.readAt s.here path with
    | .ok bytes => .ok bytes
    | .error .isADirectory => .error (.file (.disk .isADirectory))
    | .error p => .error (.opening path p)

def ingest (s : Situation) (path : String) (d : Disk) : Work Report := do
  let e ← get
  let events ← (source s path (e.store.disk d)).bind fun bytes => readEvents 1 (splitLines bytes)
  let accepted ← perform (Ingest.addAll events)
  let committed ← perform Ingest.shutdown
  let stats ← perform Service.stats
  return .ofLine (s!"Read {events.length} events: {accepted} queued, {committed} committed, " ++
    s!"{stats.dropped} dropped")

-- ---- all commands --------------------------------------------------------

def bucketLine (what : String) (n : Nat) : Report := .ofLine s!"{what} {n} buckets"

/-- What a command does on the store, which was opened when `d` was on the disk. -/
def work (s : Situation) (json : Bool) (d : Disk) : Task → Work Report
  | .query text last all => query s json text last all
  | .count text last => count s json text last
  | .buckets => do return .buckets json (← perform EventSet.summaries)
  | .ingest path => ingest s path d
  | .purge false => throw .unconfirmed
  | .purge true => do return bucketLine "Dropped" (← require .engine EventSet.purge)
  | .lock => do
    require .engine EventSet.lock
    return bucketLine "Locked" (← perform EventSet.bucketCount)
  | .unlock => do
    require .engine EventSet.unlock
    return bucketLine "Unlocked" (← perform EventSet.bucketCount)
  | .sweep => do return bucketLine "Evicted" (← require .engine (EventSet.dropData s.now))
  | .config _ => return { output := [] }

/-- Opens what the configuration says and does the work there. -/
def onStore (s : Situation) (a : Arguments) (c : Config) (d : Disk) :
    Except Failure Report × Disk :=
  match c.storage.openStore s.environment s.here d with
  | (.error e, d) => (.error (.openingStore e), d)
  | (.ok store, d) =>
    let all : Work Report := do
      require .rebuilding Service.start
      work s a.isJson d a.task
    let (r, e) := all.run.run (Service.engine store c.optics)
    (r, e.store.disk d)

def configOf (s : Situation) (a : Arguments) (d : Disk) : Except Failure Config :=
  let found : Except Failure Config := match a.configFile with
    | some path => (Config.loadOverridden s.environment s.here path d).mapError Failure.config
    | none => .ok (Config.find s.environment s.here d)
  found.map fun c => { c with storage.dataDir := a.dataDir.getD c.storage.dataDir }

def execute (s : Situation) (a : Arguments) (d : Disk) : Except Failure Report × Disk :=
  match a.task with
  | .config none => (.ok { output := Config.standardLines.dropLast }, d)
  | .config (some path) =>
    match d.writeIn s.here path Config.standardText.toUTF8.toList with
    | (.ok (), d) => (.ok (.ofLine s!"Config written to {Text.quotedPath path}"), d)
    | (.error p, d) => (.error (.file (.disk p)), d)
  | _ =>
    match configOf s a d with
    | .ok c => onStore s a c d
    | .error f => (.error f, d)

-- ---- what a command looks at ----------------------------------------------

/-- The files that a command may read or write, besides those of the data directory. -/
def filesNamed (s : Situation) (a : Arguments) : List String :=
  match a.task with
  | .config output => output.toList
  | .ingest path => path :: configs
  | _ => configs
where
  configs : List String := a.configFile.elim s.environment.configFiles ([·])

/-- The data directory, if the command opens one. -/
def directoryNamed? (s : Situation) (a : Arguments) (d : Disk) : Option String :=
  match a.task, configOf s a d with
  | .config _, _ | _, .error _ => none
  | _, .ok c =>
    match c.storage.backend with
    | .memory => none
    | .file => some (s.environment.expandHome c.storage.dataDir)

-- ---- the program ---------------------------------------------------------

structure Outcome where
  code : Nat
  output : String
  complaint : String
  deriving DecidableEq, Repr

namespace Outcome

def misuse : Outcome :=
  ⟨2, "", s!"error: these are no proper arguments\n\nFor more information, try '{program} --help'.\n"⟩

def ofStop : Stop → Outcome
  | .misuse => misuse
  | .help page => ⟨0, page.text, ""⟩
  | .version => ⟨0, s!"{program} {version}\n", ""⟩

def ofReport (r : Report) : Outcome :=
  ⟨0, String.join (r.output.map (· ++ "\n")), r.notice.elim "" (· ++ "\n")⟩

def ofFailure (f : Failure) : Outcome := ⟨if f.isOutOfRange then 101 else 1, "", f.text⟩

def ofResult : Except Failure Report → Outcome
  | .ok r => ofReport r
  | .error f => ofFailure f

end Outcome

/-- What comes of running the program, and the disk after it. -/
def run (s : Situation) (arguments : List String) (d : Disk) : Outcome × Disk :=
  match Arguments.read arguments with
  | .error stop => (.ofStop stop, d)
  | .ok a =>
    let (r, d) := execute s a d
    (.ofResult r, d)

end EventStore.Command
