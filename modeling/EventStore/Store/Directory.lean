import EventStore.Store.MapLog
import EventStore.Store.Request

/-!
# Maps in a directory

A store that keeps every map in a file of its own, and reads the files when it is opened. A commit
appends one frame to each file it touches.
-/

namespace EventStore

open Std

abbrev Logs := ExtTreeMap String MapLog compare

structure Directory where
  root : Path
  /-- Whether a commit waits until the data is on the device. -/
  sync : Bool
  logs : Logs

namespace Directory

def extension : String := ".log"

/-- Letters, digits, `_`, `-` and `.`, with no dot in front. -/
def validName (name : String) : Bool :=
  !name.isEmpty && name.toList.head? != some '.' &&
    name.toList.all fun c => c.isAlphanum || c == '_' || c == '-' || c == '.'

/-- The map that a file of that name holds. -/
def mapOfFile? (file : String) : Option String :=
  let name := String.ofList (file.toList.take (file.length - extension.length))
  if file = name ++ extension ∧ validName name then some name else none

def fileOf (root : Path) (name : String) : Path := root ++ [name ++ extension]

/-- Replays the files of the named maps, one after the other. -/
def replayAll (root : Path) : List String → Logs → Disk → Except StoreError Logs × Disk
  | [], logs, d => (.ok logs, d)
  | name :: rest, logs, d =>
    match MapLog.replay d (fileOf root name) with
    | .ok (log, d) => replayAll root rest (logs.insert name log) d
    | .error e => (.error e, d)

/-- Opens a directory, which is created if it does not exist. -/
def openAt (root : Path) (sync : Bool) (d : Disk) : Except StoreError Directory × Disk :=
  match d.createDirectories root with
  | .error p => (.error (.ofDisk p), d)
  | .ok d =>
    match replayAll root ((d.list root).filterMap mapOfFile?) ∅ d with
    | (.ok logs, d) => (.ok ⟨root, sync, logs⟩, d)
    | (.error e, d) => (.error e, d)

def log? (s : Directory) (name : String) : Except StoreError MapLog :=
  match s.logs[name]? with
  | some log => .ok log
  | none => .error (.mapNotFound name)

def openMap (s : Directory) (name : String) (d : Disk) : Except StoreError Unit × Directory × Disk :=
  if !validName name then (.error (.invalidMapName name), s, d)
  else if s.logs.contains name then (.ok (), s, d)
  else
    match MapLog.create d (fileOf s.root name) with
    | .ok (log, d) => (.ok (), { s with logs := s.logs.insert name log }, d)
    | .error e => (.error e, s, d)

/-- Forgets a map and removes its file. A file that is gone already is no obstacle. -/
def removeMap (h : Hazard) (s : Directory) (name : String) (d : Disk) :
    Except StoreError Bool × Directory × Disk :=
  match s.logs[name]? with
  | none => (.ok false, s, d)
  | some log =>
    let s := { s with logs := s.logs.erase name }
    if h.removalFails then (.error (.ofDisk .device), s, d)
    else
      match d.removeFile log.path with
      | .ok d => (.ok true, s, d)
      | .error .notFound => (.ok true, s, d)
      | .error p => (.error (.ofDisk p), s, d)

/-- The maps that a transaction writes to, each once, ascending. -/
def touched (tx : Transaction) : List String :=
  (tx.writes.foldl (fun names w => names.insert w.map) (∅ : ExtTreeSet String compare)).toList

/-- Appends what a transaction writes to each of the named maps, up to the first that fails. -/
def appendAll (h : String → Hazard) (tx : Transaction) :
    List String → Directory → Disk → Except StoreError Unit × Directory × Disk
  | [], s, d => (.ok (), s, d)
  | name :: rest, s, d =>
    match s.logs[name]? with
    | none => (.error (.mapNotFound name), s, d)
    | some log =>
      match log.append (h name) s.sync (tx.recordsOf name) d with
      | (.ok (), log, d) => appendAll h tx rest { s with logs := s.logs.insert name log } d
      | (.error e, log, d) => (.error e, { s with logs := s.logs.insert name log }, d)

def commit (h : String → Hazard) (s : Directory) (tx : Transaction) (d : Disk) :
    Except StoreError Unit × Directory × Disk :=
  match tx.writes.find? fun w => !s.logs.contains w.map with
  | some w => (.error (.mapNotFound w.map), s, d)
  | none => appendAll h tx (touched tx) s d

def answer (h : String → Hazard) (s : Directory) (r : Request α) (d : Disk) :
    Except StoreError α × Directory × Disk :=
  match r with
  | .openMap name => s.openMap name d
  | .removeMap name => removeMap (h name) s name d
  | .mapNames => (.ok s.logs.keys, s, d)
  | .get map key => ((s.log? map).map (·.entries[key]?), s, d)
  | .count map => ((s.log? map).map (·.entries.size), s, d)
  | .scan map => ((s.log? map).map (·.entries.toList), s, d)
  | .commit tx => commit h s tx d

end Directory

end EventStore
