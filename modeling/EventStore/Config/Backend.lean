import EventStore.Config.Environment
import EventStore.Store.Basic
import EventStore.Store.Location

/-!
# The store that a configuration asks for
-/

namespace EventStore

/-- What is on the disk now, if `d` was there when the store was opened. -/
def Store.disk (s : Store) (d : Disk) : Disk :=
  match s.backing with
  | .memory _ => d
  | .directory _ d => d

namespace Config

/-- Opens the directory that holds the data, which is created if it does not exist. -/
def StorageSection.openDirectory (c : StorageSection) (env : Environment) (here : Path) (d : Disk) :
    Except StoreError Directory × Disk :=
  match d.makeWayTo here (env.expandHome c.dataDir) with
  | (.error p, d) => (.error (.ofDisk p), d)
  | (.ok path, d) => Directory.openAt path c.syncOnCommit d

def StorageSection.openStore (c : StorageSection) (env : Environment) (here : Path) (d : Disk) :
    Except StoreError Store × Disk :=
  match c.backend with
  | .memory => (.ok .inMemory, d)
  | .file =>
    match c.openDirectory env here d with
    | (.ok s, d) => (.ok ⟨.directory s d, []⟩, d)
    | (.error e, d) => (.error e, d)

end Config

end EventStore
