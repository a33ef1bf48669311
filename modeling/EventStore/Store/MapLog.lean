import EventStore.Store.Disk
import EventStore.Store.Error
import EventStore.Store.Frame

/-!
# Map logs

A map with the file that its writes are logged in. A write counts once its frame is in the file; a frame
that was written in part is cut off again.
-/

namespace EventStore

/-- What goes wrong with a file. -/
structure Hazard where
  /-- Writing stops after so many bytes. -/
  written : Option Nat
  syncFails : Bool
  resizeFails : Bool
  removalFails : Bool
  deriving DecidableEq, Repr

def Hazard.none : Hazard := ⟨.none, false, false, false⟩

def StoreError.ofDisk (p : DiskProblem) : StoreError := .io p.message

structure MapLog where
  path : Path
  file : Nat
  entries : Entries
  /-- Where the last whole frame ends. -/
  validLength : Nat

namespace MapLog

/-- A map without entries, in the file of that name. -/
def create (d : Disk) (path : Path) : Except StoreError (MapLog × Disk) :=
  match d.openFile path with
  | .ok (n, d) => .ok (⟨path, n, ∅, 0⟩, d)
  | .error p => .error (.ofDisk p)

/-- The map that a file holds, as far as its frames can be read. What follows them is cut off. -/
def replay (d : Disk) (path : Path) : Except StoreError (MapLog × Disk) :=
  match d.find path with
  | .ok n =>
    let (entries, length) := Frame.replay (d.bytes n)
    .ok (⟨path, n, entries, length⟩, if length < (d.bytes n).length then d.resize n length else d)
  | .error p => .error (.ofDisk p)

/-- Whether a frame gets into the file, and the file after that. -/
def writeFrame (h : Hazard) (sync : Bool) (log : MapLog) (frame : Bytes) (d : Disk) : Bool × Disk :=
  match h.written with
  | some n => (false, d.append log.file (frame.take n))
  | none => (!(sync && h.syncFails), d.append log.file frame)

def append (h : Hazard) (sync : Bool) (log : MapLog) (records : List Record) (d : Disk) :
    Except StoreError Unit × MapLog × Disk :=
  let frame := Frame.encode records
  match log.writeFrame h sync frame d with
  | (true, d) =>
    (.ok (), { log with
      entries := Record.applyAll log.entries records
      validLength := log.validLength + frame.length }, d)
  | (false, d) =>
    (.error (.ofDisk .device), log, if h.resizeFails then d else d.resize log.file log.validLength)

end MapLog

end EventStore
