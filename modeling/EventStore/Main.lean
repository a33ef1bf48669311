import EventStore.Command.Run
import EventStore.Store.Change
import Std.Time.DateTime.Timestamp

/-!
# The program

Loads what a command may look at from the machine's disk, runs the command on that, and puts what it
changed back.
-/

namespace EventStore.Machine

def nativePath (p : Path) : String := "/" ++ "/".intercalate p

/-- Adds what is in a place, if there is something. -/
def load (d : Disk) (p : Path) : IO Disk := do
  let native := System.mkFilePath [nativePath p]
  if ← native.isDir then return (d.createDirectories p).toOption.getD d
  else if ← native.pathExists then
    return (d.write p (← IO.FS.readBinFile native).toList).toOption.getD d
  else return d

/-- Adds everything on the way that a written path takes. -/
def loadWay (here : Path) (d : Disk) (text : String) : IO Disk :=
  match Location.parse text with
  | .ok l => ((l.passed here).flatMap Path.lineage).foldlM load d
  | .error _ => return d

/-- Adds the logs in a directory. -/
def loadLogs (here : Path) (d : Disk) (text : String) : IO Disk := do
  let d ← loadWay here d text
  match d.locate here text with
  | .error _ => return d
  | .ok p =>
    let native := System.mkFilePath [nativePath p]
    if ← native.isDir then
      let names := (← native.readDir).toList.map (·.fileName)
      (names.filter (·.endsWith Directory.extension)).foldlM (fun d name => load d (p ++ [name])) d
    else return d

def apply : Change → IO Unit
  | .directory p => IO.FS.createDirAll (nativePath p)
  | .file p s => IO.FS.writeBinFile (nativePath p) ⟨s.toArray⟩
  | .removal p => IO.FS.removeFile (nativePath p)

partial def readAll (stream : IO.FS.Stream) (taken : ByteArray) : IO ByteArray := do
  let chunk ← stream.read 65536
  if chunk.isEmpty then return taken else readAll stream (taken ++ chunk)

def environment : IO Config.Environment := do
  let found ← Config.Environment.names.mapM fun name => return (name, ← IO.getEnv name)
  return found.filterMap fun (name, value) => value.map ((name, ·))

def now : IO Instant := do
  let t := (← Std.Time.Timestamp.now).toNanosecondsSinceUnixEpoch.val
  return ⟨t / 1000000000, (t % 1000000000).toNat⟩

/-- The disk that the command sees. -/
def disk (s : Command.Situation) (a : Command.Arguments) : IO Disk := do
  let d ← load .empty []
  let d ← s.here.lineage.foldlM load d
  let d ← (Command.filesNamed s a).foldlM (loadWay s.here) d
  match Command.directoryNamed? s a d with
  | some text => loadLogs s.here d text
  | none => return d

def run (arguments : List String) : IO Command.Outcome := do
  match Command.Arguments.read arguments with
  | .error stop => return .ofStop stop
  | .ok a =>
    let input ← if a.task = .ingest "-" then readAll (← IO.getStdin) .empty else pure .empty
    let here := ((← IO.currentDir).toString.splitOn "/").filter (!·.isEmpty)
    let s : Command.Situation := ⟨← environment, here, input.toList, ← now⟩
    let d ← disk s a
    let (r, after) := Command.execute s a d
    (d.changesTo after).forM apply
    return .ofResult r

end EventStore.Machine

def main (arguments : List String) : IO UInt32 := do
  let o ← EventStore.Machine.run arguments
  (← IO.getStdout).putStr o.output
  (← IO.getStderr).putStr o.complaint
  return o.code.toUInt32
