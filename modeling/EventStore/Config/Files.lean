import EventStore.Config.Document
import EventStore.Store.Location
import EventStore.Text.Quoted

/-!
# Finding the configuration

The configuration in the file that was asked for, or else in the first of the usual files that holds one.
-/

namespace EventStore

/-- Why a file cannot be read as a text. -/
inductive FileProblem
  | disk (p : DiskProblem)
  | notText
  deriving DecidableEq, Repr

def FileProblem.message : FileProblem → String
  | disk p => p.message
  | notText => "stream did not contain valid UTF-8"

def Bytes.text? (s : Bytes) : Except FileProblem String :=
  match String.fromUTF8? ⟨s.toArray⟩ with
  | some text => .ok text
  | none => .error .notText

def Disk.textAt (d : Disk) (here : Path) (path : String) : Except FileProblem String :=
  match d.readAt here path with
  | .ok s => s.text?
  | .error p => .error (.disk p)

namespace Config

inductive Problem
  | unreadable (path : String) (p : FileProblem)
  | malformed (path : String) (p : Toml.Position)
  deriving DecidableEq, Repr

def Problem.message : Problem → String
  | unreadable path p => s!"Failed to read config file {Text.quotedPath path}: {p.message}"
  | malformed path p => s!"Failed to parse config file {Text.quotedPath path}: " ++
      s!"TOML parse error at line {p.line}, column {p.column}"

/-- The configuration in a file. -/
def load (env : Environment) (here : Path) (path : String) (d : Disk) : Except Problem Config :=
  match d.textAt here path with
  | .error p => .error (.unreadable path p)
  | .ok text =>
    (Config.read env text).mapError (.malformed path)

/-- The configuration in a file, with what variables say instead. -/
def loadOverridden (env : Environment) (here : Path) (path : String) (d : Disk) :
    Except Problem Config :=
  (load env here path d).map (·.override env)

/-- The configuration in the first of the usual files that holds one; the standard one if none does. -/
def find (env : Environment) (here : Path) (d : Disk) : Config :=
  match env.configFiles.findSome? fun path => (loadOverridden env here path d).toOption with
  | some c => c
  | none => (standard env).override env

end Config

end EventStore
