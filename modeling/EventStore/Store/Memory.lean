import EventStore.Store.Request

/-!
# Maps in memory

The plainest store: a map of maps. It can be switched off, and then refuses every call.
-/

namespace EventStore

open Std

abbrev Maps := ExtTreeMap String Entries compare

structure Memory where
  maps : Maps
  offline : Bool
  /-- Successful commits so far. -/
  commits : Nat

namespace Memory

def empty : Memory := ⟨∅, false, 0⟩

def map? (m : Memory) (name : String) : Except StoreError Entries :=
  match m.maps[name]? with
  | some entries => .ok entries
  | none => .error (.mapNotFound name)

/-- A write to a map that exists. -/
def write (maps : Maps) (w : Write) : Maps := maps.modify w.map (Record.apply · w.record)

/-- All writes of a transaction, or none if it names a map that does not exist. -/
def commit (m : Memory) (tx : Transaction) : Except StoreError Unit × Memory :=
  match tx.writes.find? fun w => !m.maps.contains w.map with
  | some w => (.error (.mapNotFound w.map), m)
  | none => (.ok (), { m with maps := tx.writes.foldl write m.maps, commits := m.commits + 1 })

def answer (m : Memory) (r : Request α) : Except StoreError α × Memory :=
  if m.offline then (.error (.unavailable "memory store offline"), m)
  else
    match r with
    | .openMap name => (.ok (), { m with maps := m.maps.insertIfNew name ∅ })
    | .removeMap name => (.ok (m.maps.contains name), { m with maps := m.maps.erase name })
    | .mapNames => (.ok m.maps.keys, m)
    | .get map key => ((m.map? map).map (·[key]?), m)
    | .count map => ((m.map? map).map (·.size), m)
    | .scan map => ((m.map? map).map (·.toList), m)
    | .commit tx => m.commit tx

end Memory

end EventStore
