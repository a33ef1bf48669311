import EventStore.Config.Environment
import EventStore.Toml.Reader

/-!
# Configuration files

A configuration as a TOML document. Every section and every setting may be left out, and what is not
known is passed over. A section may also be a list, whose items are the settings in their order, or a date,
which says nothing.
-/

namespace EventStore.Config

open Toml

/-- A setting: its name, and how its value goes into a section. -/
structure Setting (ρ : Type) where
  name : String
  read : Place × Value → ρ → Except Place ρ

/-- A setting whose value is at fault as a whole or not at all. -/
def Setting.simple (name : String) (get : Value → Option α) (put : α → ρ → ρ) : Setting ρ :=
  ⟨name, fun (p, v) r =>
    match get v with
    | some a => .ok (put a r)
    | none => .error p⟩

def readNamed (settings : List (Setting ρ)) (es : Table) (r : ρ) : Except Place ρ :=
  es.foldlM (fun r (name, v) =>
    match settings.find? (·.name == name.text) with
    | some s => s.read v r
    | none => .ok r) r

def readListed (settings : List (Setting ρ)) (items : List (Place × Value)) (r : ρ) : Except Place ρ :=
  (settings.zip items).foldlM (fun r (s, v) => s.read v r) r

def readSection (settings : List (Setting ρ)) (v : Place × Value) (r : ρ) : Except Place ρ :=
  match v with
  | (_, .table _ es) | (_, .inlineTable es) => readNamed settings es r
  | (_, .list items) => readListed settings items r
  | (_, .tables items) => readListed settings (items.map fun (p, es) => (p, .table .header es)) r
  | (_, .dateTime) => .ok r
  | (p, _) => .error p

-- ---- values --------------------------------------------------------------

def text? : Value → Option String
  | .text s => some s
  | _ => none

def bool? : Value → Option Bool
  | .bool b => some b
  | _ => none

def integer? : Value → Option Int
  | .integer n => some n
  | _ => none

def number? (most : Int) (v : Value) : Option Nat :=
  (integer? v).bind fun n => if 0 ≤ n ∧ n ≤ most then some n.toNat else none

def kindOfName? : String → Option BackendKind
  | "file" => some .file
  | "memory" => some .memory
  | _ => none

/-- Whether there is nothing in a table or a list. -/
def isNothing : Value → Bool
  | .table _ [] | .inlineTable [] | .list [] => true
  | _ => false

/-- The name of the backend, or a table in which nothing is under that name. -/
def readBackend (v : Place × Value) : Except Place BackendKind :=
  match v with
  | (p, .text s) =>
    match kindOfName? s with
    | some kind => .ok kind
    | none => .error p
  | (p, .table _ [(name, q, v)]) | (p, .inlineTable [(name, q, v)]) =>
    match kindOfName? name.text with
    | some kind => if isNothing v then .ok kind else .error (if v.isPlaced then q else p)
    | none => .error name.place
  | (p, _) => .error p

-- ---- sections ------------------------------------------------------------

def storageSettings : List (Setting StorageSection) := [
  .simple "data_dir" text? fun a c => { c with dataDir := a },
  ⟨"backend", fun v c => (readBackend v).map ({ c with backend := · })⟩,
  .simple "sync_on_commit" bool? fun a c => { c with syncOnCommit := a }]

def word? : Value → Option Nat := number? Text.maxUInt64

def engineSettings : List (Setting EngineSection) := [
  .simple "page_size" word? fun a c => { c with pageSize := a },
  .simple "batch_size" word? fun a c => { c with batchSize := a },
  .simple "drain_interval_ms" word? fun a c => { c with drainIntervalMs := a },
  .simple "retention_hours" integer? fun a c => { c with retentionHours := a },
  .simple "grace_hours" integer? fun a c => { c with graceHours := a },
  .simple "sweep_interval_secs" word? fun a c => { c with sweepIntervalSecs := a },
  .simple "cache_ttl_secs" word? fun a c => { c with cacheTtlSecs := a },
  .simple "cache_max_entries" word? fun a c => { c with cacheMaxEntries := a },
  .simple "max_ingest_attempts" (number? 4294967295) fun a c => { c with maxIngestAttempts := a },
  .simple "enable_debug_events" bool? fun a c => { c with enableDebugEvents := a }]

def serverSettings : List (Setting ServerSection) := [
  .simple "host" text? fun a c => { c with host := a },
  .simple "port" (number? 65535) fun a c => { c with port := a },
  .simple "max_body_size" word? fun a c => { c with maxBodySize := a }]

def logSettings : List (Setting LogSection) := [
  .simple "level" text? fun a c => { c with level := a },
  .simple "format" text? fun a c => { c with format := a }]

def sections : List (Setting Config) := [
  ⟨"storage", fun v c => (readSection storageSettings v c.storage).map ({ c with storage := · })⟩,
  ⟨"optics", fun v c => (readSection engineSettings v c.optics).map ({ c with optics := · })⟩,
  ⟨"api", fun v c => (readSection serverSettings v c.api).map ({ c with api := · })⟩,
  ⟨"logging", fun v c => (readSection logSettings v c.logging).map ({ c with logging := · })⟩]

/-- The configuration that a text says, or the position of what is wrong in it. -/
def read (env : Environment) (text : String) : Except Position Config :=
  let c := (Toml.read text).bind fun es => readNamed sections es (.standard env)
  c.mapError (positionIn text.toList)

-- ---- the standard file ---------------------------------------------------

def standardLines : List String := [
  "# Optics Configuration",
  "#",
  "# Environment variables override these settings:",
  "# - OPTICS_DATA_DIR",
  "# - OPTICS_STORE",
  "# - OPTICS_API_HOST",
  "# - OPTICS_API_PORT",
  "# - OPTICS_PAGE_SIZE",
  "# - OPTICS_LOG_LEVEL",
  "# - OPTICS_LOG_FORMAT",
  "",
  "[storage]",
  "# Directory holding one log file per bucket map",
  "data_dir = \"~/.local/share/optics\"",
  "",
  "# Store backend: file (durable) or memory (lost on exit)",
  "backend = \"file\"",
  "",
  "# fsync every committed transaction",
  "sync_on_commit = true",
  "",
  "[optics]",
  "# Maximum events per query page",
  "page_size = 800",
  "",
  "# Maximum events applied per ingest drain",
  "batch_size = 2000",
  "",
  "# How often the ingest queue is drained (ms)",
  "drain_interval_ms = 10",
  "",
  "# Buckets older than retention + grace hours are evicted",
  "retention_hours = 24",
  "grace_hours = 1",
  "",
  "# How often the retention sweep runs (seconds)",
  "sweep_interval_secs = 3600",
  "",
  "# Compiled query cache",
  "cache_ttl_secs = 600",
  "cache_max_entries = 1024",
  "",
  "# Drain attempts before an uncommitted event is dropped",
  "max_ingest_attempts = 3",
  "",
  "# Accept events with LOG_LEVEL = DEBUG",
  "enable_debug_events = true",
  "",
  "[api]",
  "# API server host",
  "host = \"0.0.0.0\"",
  "",
  "# API server port",
  "port = 8083",
  "",
  "# Maximum request body size (bytes)",
  "max_body_size = 10485760",
  "",
  "[logging]",
  "# Log level: trace, debug, info, warn, error",
  "level = \"info\"",
  "",
  "# Log format: pretty (for development) or json (for production)",
  "format = \"pretty\"",
  ""]

/-- A file that says what holds without one, with a comment on every setting. -/
def standardText : String := String.intercalate "\n" standardLines

end EventStore.Config
