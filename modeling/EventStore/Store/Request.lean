import EventStore.Store.Error
import EventStore.Store.Transaction

/-!
# Calls to a store

A store holds named maps. Each call is a value that tells the type of its answer, so that stores of
different kinds answer the same calls.
-/

namespace EventStore

inductive Request : Type → Type
  /-- Creates the map if it does not exist. -/
  | openMap (name : String) : Request Unit
  /-- Deletes a map with all it holds; the answer is whether there was one. -/
  | removeMap (name : String) : Request Bool
  | mapNames : Request (List String)
  | get (map : String) (key : Bytes) : Request (Option Bytes)
  | count (map : String) : Request Nat
  /-- All entries in ascending order of keys. -/
  | scan (map : String) : Request (List (Bytes × Bytes))
  | commit (tx : Transaction) : Request Unit

namespace Request

inductive Kind
  | openMap
  | removeMap
  | mapNames
  | get
  | count
  | scan
  | commit
  deriving DecidableEq, Repr

def Kind.text : Kind → String
  | .openMap => "open_map"
  | .removeMap => "remove_map"
  | .mapNames => "map_names"
  | .get => "get"
  | .count => "count"
  | .scan => "scan"
  | .commit => "commit"

def kind : Request α → Kind
  | openMap _ => .openMap
  | removeMap _ => .removeMap
  | mapNames => .mapNames
  | get .. => .get
  | count _ => .count
  | scan _ => .scan
  | commit _ => .commit

/-- The map that a call is about; for a commit that of the first write. -/
def map : Request α → String
  | openMap m | removeMap m | get m _ | count m | scan m => m
  | mapNames => ""
  | commit tx => (tx.writes.head?.map Write.map).getD ""

end Request

end EventStore
