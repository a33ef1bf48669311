import EventStore.Bytes.LittleEndian
import Std.Data.ExtTreeMap

/-!
# Disks

A tree of directories and files. A file is known by a number and has its contents apart from its name,
so whoever has opened it goes on reading and growing it after the name is gone.
-/

namespace EventStore

open Std

/-- The names on the way from the root. -/
abbrev Path := List String

/-- The paths from the root to this one. -/
def Path.lineage (path : Path) : List Path := (List.range (path.length + 1)).map (path.take ·)

inductive Node
  | directory
  | file (number : Nat)
  deriving DecidableEq, Repr

def Node.isFile : Node → Bool
  | directory => false
  | file _ => true

inductive DiskProblem
  | notFound
  | notADirectory
  | isADirectory
  | alreadyExists
  | nameTooLong
  /-- A path is written with a zero character. -/
  | zeroCharacter
  /-- The device failed. -/
  | device
  deriving DecidableEq, Repr

namespace DiskProblem

def name : DiskProblem → String
  | notFound => "NotFound"
  | notADirectory => "NotADirectory"
  | isADirectory => "IsADirectory"
  | alreadyExists => "AlreadyExists"
  | nameTooLong => "InvalidFilename"
  | zeroCharacter => "InvalidInput"
  | device => "Other"

def message : DiskProblem → String
  | notFound => "No such file or directory (os error 2)"
  | notADirectory => "Not a directory (os error 20)"
  | isADirectory => "Is a directory (os error 21)"
  | alreadyExists => "File exists (os error 17)"
  | nameTooLong => "File name too long (os error 36)"
  | zeroCharacter => "file name contained an unexpected NUL byte"
  | device => "Input/output error (os error 5)"

end DiskProblem

/-- Whether nothing can have a name, which takes 255 bytes at most. -/
def Path.isLong (name : String) : Bool := 255 < name.utf8ByteSize

/-- Why nothing is in a place, if there is something in the one before. -/
def Path.absence (path : Path) : DiskProblem :=
  if path.any Path.isLong then .nameTooLong else .notFound

structure Disk where
  nodes : ExtTreeMap Path Node compare
  /-- By the number of the file. -/
  contents : ExtTreeMap Nat Bytes compare
  next : Nat

namespace Disk

/-- The root alone. -/
def empty : Disk := ⟨{([], .directory)}, ∅, 0⟩

/-- Whether a path can have something in it. If not, the first place on the way that is no directory tells
why. -/
def checkDirectory (d : Disk) (path : Path) : Except DiskProblem Unit :=
  match path.lineage.find? fun p => d.nodes[p]? != some .directory with
  | none => .ok ()
  | some p => .error (if d.nodes.contains p then .notADirectory else p.absence)

def node (d : Disk) (path : Path) : Except DiskProblem Node :=
  match d.nodes[path]? with
  | some n => .ok n
  | none =>
    match d.checkDirectory path.dropLast with
    | .ok () => .error path.absence
    | .error p => .error p

/-- The number of the file at a path. -/
def find (d : Disk) (path : Path) : Except DiskProblem Nat :=
  match d.node path with
  | .ok (.file n) => .ok n
  | .ok .directory => .error .isADirectory
  | .error p => .error p

def bytes (d : Disk) (number : Nat) : Bytes := d.contents.getD number []

def read (d : Disk) (path : Path) : Except DiskProblem Bytes := (d.find path).map d.bytes

/-- Creates a directory and those that it lies in, as far as they do not exist. -/
def createDirectories (d : Disk) (path : Path) : Except DiskProblem Disk :=
  match path.lineage.find? fun p => d.nodes[p]?.any Node.isFile with
  | some p => .error (if p = path then .alreadyExists else .notADirectory)
  | none =>
    if path.any Path.isLong then .error .nameTooLong
    else .ok { d with nodes := path.lineage.foldl (fun ns p => ns.insert p .directory) d.nodes }

/-- The file at a path, which is created empty if there is none. -/
def openFile (d : Disk) (path : Path) : Except DiskProblem (Nat × Disk) :=
  match d.find path with
  | .ok n => .ok (n, d)
  | .error .notFound =>
    match d.checkDirectory path.dropLast with
    | .ok () => .ok (d.next, ⟨d.nodes.insert path (.file d.next), d.contents.insert d.next [], d.next + 1⟩)
    | .error p => .error p
  | .error p => .error p

def setBytes (d : Disk) (number : Nat) (s : Bytes) : Disk :=
  { d with contents := d.contents.insert number s }

def append (d : Disk) (number : Nat) (s : Bytes) : Disk := d.setBytes number (d.bytes number ++ s)

/-- Cuts a file off, or fills it up with zeros. -/
def resize (d : Disk) (number length : Nat) : Disk :=
  let s := d.bytes number
  d.setBytes number (s.take length ++ List.replicate (length - s.length) 0)

/-- Replaces what a file holds. -/
def write (d : Disk) (path : Path) (s : Bytes) : Except DiskProblem Disk :=
  (d.openFile path).map fun (n, d) => d.setBytes n s

/-- Takes the name of a file away. -/
def removeFile (d : Disk) (path : Path) : Except DiskProblem Disk :=
  (d.find path).map fun _ => { d with nodes := d.nodes.erase path }

/-- The names in a directory, ascending. -/
def list (d : Disk) (path : Path) : List String :=
  d.nodes.keys.filterMap fun p => if p.dropLast = path then p.getLast? else none

theorem bytes_setBytes (d : Disk) (n m : Nat) (s : Bytes) :
    (d.setBytes n s).bytes m = if n = m then s else d.bytes m := by
  simp only [bytes, setBytes, ExtTreeMap.getD_insert, LawfulEqOrd.compare_eq_iff_eq]

theorem bytes_append (d : Disk) (n : Nat) (s : Bytes) : (d.append n s).bytes n = d.bytes n ++ s := by
  simp [append, bytes_setBytes]

theorem bytes_resize (d : Disk) {n length : Nat} (h : length ≤ (d.bytes n).length) :
    (d.resize n length).bytes n = (d.bytes n).take length := by
  simp [resize, bytes_setBytes, Nat.sub_eq_zero_of_le h]

end Disk

end EventStore
