import EventStore.Store.Disk

/-!
# Changes of a disk

What has to be done to one disk so that it holds what another holds.
-/

namespace EventStore

inductive Change
  | directory (path : Path)
  | file (path : Path) (contents : Bytes)
  | removal (path : Path)
  deriving Repr

namespace Disk

/-- What is at a path; nothing is `none`. -/
def look (d : Disk) (path : Path) : Option (Option Bytes) :=
  d.nodes[path]?.map fun
    | .directory => none
    | .file n => some (d.bytes n)

/-- Directories come before what lies in them. -/
def changesTo (old new : Disk) : List Change :=
  let gone := old.nodes.keys.filter fun p => (old.find p).isOk && !new.nodes.contains p
  let put := new.nodes.keys.filter fun p => new.look p != old.look p
  gone.map .removal ++ put.map fun p =>
    match new.look p with
    | some (some s) => .file p s
    | _ => .directory p

end Disk

end EventStore
