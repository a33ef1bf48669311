import EventStore.Store.Disk

/-!
# Written paths

A path as it is written leads from a directory, or from the root if it starts with a slash, name by name
to another place. The name `.` stays where it is, and `..` leads back up. Whatever is stepped out of has to
be a directory.
-/

namespace EventStore

structure Location where
  absolute : Bool
  names : List String
  /-- Whether a slash ends it, which only a directory may have. -/
  closed : Bool
  deriving DecidableEq, Repr

namespace Location

/-- Nothing is written as the empty text, or in more than 4095 bytes. -/
def parse (text : String) : Except DiskProblem Location :=
  if text.isEmpty then .error .notFound
  else if text.contains '\x00' then .error .zeroCharacter
  else if 4095 < text.utf8ByteSize then .error .nameTooLong
  else .ok ⟨text.startsWith "/", (text.splitOn "/").filter (· != ""), text.endsWith "/"⟩

def start (l : Location) (here : Path) : Path := if l.absolute then [] else here

def follow (here : Path) (name : String) : Path :=
  if name = "." then here else if name = ".." then here.dropLast else here ++ [name]

/-- The places on the way, whatever is there. -/
def passed (l : Location) (here : Path) : List Path :=
  (List.range (l.names.length + 1)).map fun n => (l.names.take n).foldl follow (l.start here)

/-- The names on the way to the last one, and that, if it is a name of its own. -/
def last? (l : Location) : Option (List String × String) :=
  match l.names.getLast? with
  | none | some "." | some ".." => none
  | some name => some (l.names.dropLast, name)

/-- The directories on the way to it, from the nearest one outwards. -/
def outer (l : Location) : List Location :=
  let names := l.names.filter (· != ".")
  ((List.range names.length).drop 1).reverse.map fun n => ⟨l.absolute, names.take n, false⟩

end Location

namespace Disk

def walk (d : Disk) (here : Path) : List String → Except DiskProblem Path
  | [] => .ok here
  | name :: rest => do
    d.checkDirectory here
    d.walk (Location.follow here name) rest

def enter (d : Disk) (here : Path) (names : List String) : Except DiskProblem Path := do
  let path ← d.walk here names
  d.checkDirectory path
  return path

/-- Where a written path leads. There need not be anything in that place. -/
def locate (d : Disk) (here : Path) (text : String) : Except DiskProblem Path := do
  let l ← Location.parse text
  (if l.closed then d.enter else d.walk) (l.start here) l.names

def readAt (d : Disk) (here : Path) (text : String) : Except DiskProblem Bytes := do
  d.read (← d.locate here text)

/-- Replaces what a file holds, or creates one. Neither can be done to what only a directory may be. -/
def writeAt (d : Disk) (here : Path) (l : Location) (s : Bytes) : Except DiskProblem Disk :=
  match l.last? with
  | none => (d.enter (l.start here) l.names).bind fun _ => .error .isADirectory
  | some (names, name) => do
    let path ← d.enter (l.start here) names
    if l.closed then .error .isADirectory else d.write (path ++ [name]) s

/-- Creates one directory. Of what is known to be there, none is. -/
def makeDirectory (d : Disk) (here : Path) (l : Location) : Except DiskProblem Disk :=
  match l.last? with
  | none => (d.enter (l.start here) l.names.dropLast).bind fun _ => .error .alreadyExists
  | some (names, name) => do
    let path ← d.enter (l.start here) names
    match d.node (path ++ [name]) with
    | .ok _ => .error .alreadyExists
    | .error .notFound => d.createDirectories (path ++ [name])
    | .error p => .error p

/-- Creates one directory unless it is there. -/
def needDirectory (d : Disk) (here : Path) (l : Location) : Except DiskProblem Disk :=
  match d.makeDirectory here l with
  | .error .alreadyExists =>
    match d.enter (l.start here) l.names with
    | .ok _ => .ok d
    | .error _ => .error .alreadyExists
  | r => r

/-- What came of a change to a disk, and the disk after it. -/
def after (d : Disk) : Except DiskProblem Disk → Except DiskProblem Unit × Disk
  | .ok d => (.ok (), d)
  | .error p => (.error p, d)

/-- Creates the first of some directories. Those that follow hold it, and are created if they are missed.
What has been created stays even if the rest cannot be. -/
def makeWay (d : Disk) (here : Path) : List Location → Except DiskProblem Unit × Disk
  | [] => (.ok (), d)
  | l :: outer =>
    match d.needDirectory here l with
    | .error .notFound =>
      match d.makeWay here outer with
      | (.ok (), d) => d.after (d.needDirectory here l)
      | failed => failed
    | r => d.after r

/-- Creates the directory that a path leads to, and tells where it is. -/
def makeWayTo (d : Disk) (here : Path) (text : String) : Except DiskProblem Path × Disk :=
  match Location.parse text with
  | .error p => (.error p, d)
  | .ok l =>
    match d.makeWay here (l :: l.outer) with
    | (.ok (), d) => (d.enter (l.start here) l.names, d)
    | (.error p, d) => (.error p, d)

/-- Writes a file in a directory that is created if it does not exist. -/
def writeIn (d : Disk) (here : Path) (text : String) (s : Bytes) : Except DiskProblem Unit × Disk :=
  match Location.parse text with
  | .error p => (.error p, d)
  | .ok l =>
    match d.makeWay here l.outer with
    | (.ok (), d) => d.after (d.writeAt here l s)
    | failed => failed

end Disk

end EventStore
