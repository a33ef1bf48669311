import EventStore.Bytes.LittleEndian
import Std.Data.ExtTreeMap

/-!
# Transactions

Writes to named maps of byte keys, staged one after the other and applied together. What a transaction
shows for a key is its latest write to it.
-/

namespace EventStore

open Std

/-- The contents of a map, in ascending order of keys. -/
abbrev Entries := ExtTreeMap Bytes Bytes compare

/-- A write to some map. -/
inductive Record
  | set (key value : Bytes)
  | remove (key : Bytes)
  deriving DecidableEq, Repr

namespace Record

def key : Record → Bytes
  | set k _ | remove k => k

/-- The value that the write leaves under its key. -/
def value? : Record → Option Bytes
  | set _ v => some v
  | remove _ => none

def apply (entries : Entries) : Record → Entries
  | set k v => entries.insert k v
  | remove k => entries.erase k

def applyAll (entries : Entries) (records : List Record) : Entries := records.foldl apply entries

theorem getElem?_apply {entries : Entries} {r : Record} {k : Bytes} :
    (r.apply entries)[k]? = if r.key = k then r.value? else entries[k]? := by
  cases r with
  | set k' v =>
    by_cases h : k' = k <;> simp [apply, key, value?, ExtTreeMap.getElem?_insert, h]
  | remove k' =>
    by_cases h : k' = k <;> simp [apply, key, value?, ExtTreeMap.getElem?_erase, h]

theorem applyAll_append (entries : Entries) (a b : List Record) :
    applyAll entries (a ++ b) = applyAll (applyAll entries a) b := List.foldl_append ..

end Record

structure Write where
  map : String
  record : Record
  deriving DecidableEq, Repr

/-- Staged writes, the latest first. -/
structure Transaction where
  staged : List Write
  deriving DecidableEq, Repr

namespace Transaction

def empty : Transaction := ⟨[]⟩

def stage (tx : Transaction) (map : String) (record : Record) : Transaction :=
  ⟨⟨map, record⟩ :: tx.staged⟩

def set (tx : Transaction) (map : String) (key value : Bytes) : Transaction :=
  tx.stage map (.set key value)

def remove (tx : Transaction) (map : String) (key : Bytes) : Transaction :=
  tx.stage map (.remove key)

/-- The latest write to the key. -/
def latest? (tx : Transaction) (map : String) (key : Bytes) : Option Record :=
  (tx.staged.find? fun w => w.map == map && w.record.key == key).map Write.record

/-- The writes in the order in which they were staged. -/
def writes (tx : Transaction) : List Write := tx.staged.reverse

def size (tx : Transaction) : Nat := tx.staged.length

/-- What the transaction writes to one map, in order. -/
def recordsOf (tx : Transaction) (map : String) : List Record :=
  tx.writes.filterMap fun w => if w.map = map then some w.record else none

theorem writes_stage (tx : Transaction) (map : String) (record : Record) :
    (tx.stage map record).writes = tx.writes ++ [⟨map, record⟩] := by
  simp [writes, stage]

theorem size_stage (tx : Transaction) (map : String) (record : Record) :
    (tx.stage map record).size = tx.size + 1 := rfl

end Transaction

end EventStore
