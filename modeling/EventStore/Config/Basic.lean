/-!
# Settings

The sections of a configuration with their default values, and the quantities that follow from them.
-/

namespace EventStore.Config

inductive BackendKind
  | file
  | memory
  deriving DecidableEq, Repr

structure StorageSection where
  dataDir : String
  backend : BackendKind
  /-- Whether a commit waits until the data is on the device. -/
  syncOnCommit : Bool
  deriving DecidableEq, Repr

/-- Of the event store itself. -/
structure EngineSection where
  /-- Events on a page. -/
  pageSize : Nat
  /-- Events that one drain takes from the queue. -/
  batchSize : Nat
  drainIntervalMs : Nat
  retentionHours : Int
  graceHours : Int
  sweepIntervalSecs : Nat
  cacheTtlSecs : Nat
  cacheMaxEntries : Nat
  /-- Drains after which an event that cannot be stored is given up. -/
  maxIngestAttempts : Nat
  enableDebugEvents : Bool
  deriving DecidableEq, Repr

structure ServerSection where
  host : String
  port : Nat
  maxBodySize : Nat
  deriving DecidableEq, Repr

structure LogSection where
  level : String
  format : String
  deriving DecidableEq, Repr

def StorageSection.standard (dataDir : String) : StorageSection := ⟨dataDir, .file, true⟩

namespace EngineSection

def standard : EngineSection := ⟨800, 2000, 10, 24, 1, 3600, 600, 1024, 3, true⟩

def drainInterval (c : EngineSection) : Nat := max 1 c.drainIntervalMs

def sweepIntervalMs (c : EngineSection) : Nat := max 1 c.sweepIntervalSecs * 1000

/-- The hours of a span of time, in seconds. A span that overflows 64 bits of milliseconds cannot be
represented. -/
def spanOfHours? (hours : Int) : Option Int :=
  if -9223372036854775 ≤ hours * 3600 ∧ hours * 3600 ≤ 9223372036854775 then some (hours * 3600)
  else none

/-- Seconds for which events are kept. -/
def retention? (c : EngineSection) : Option Int := spanOfHours? (c.retentionHours + c.graceHours)

end EngineSection

def ServerSection.standard : ServerSection := ⟨"0.0.0.0", 8083, 10485760⟩

def ServerSection.address (c : ServerSection) : String := s!"{c.host}:{c.port}"

def LogSection.standard : LogSection := ⟨"info", "pretty"⟩

end EventStore.Config
