import EventStore.Index.Positions
import EventStore.Query.Criteria
import Std.Data.ExtTreeMap

/-!
# The index of a bucket

For every property the positions of the events that carry it, and beside that all known positions, so
that "differs from" is taken within what is known. Evaluating criteria is set algebra on these.
-/

namespace EventStore

open Std Query

instance : Ord Key := ⟨compareLex (compareOn Key.field) (compareOn Key.value)⟩

instance : TransOrd Key :=
  inferInstanceAs (TransCmp (compareLex (compareOn Key.field) (compareOn Key.value)))

instance : LawfulEqOrd Key where
  eq_of_compare {a b} h := by
    have h : (compareOn Key.field a b).then (compareOn Key.value a b) = .eq := h
    rw [Ordering.then_eq_eq] at h
    obtain ⟨hf, hv⟩ := h
    cases a
    cases b
    cases LawfulEqOrd.eq_of_compare hf
    cases LawfulEqOrd.eq_of_compare hv
    rfl

abbrev Properties := ExtTreeMap String String compare

structure Index where
  carriers : ExtTreeMap Key Positions compare
  known : Positions
  deriving DecidableEq

namespace Index

def empty : Index := ⟨∅, ∅⟩

/-- A position that carries nothing. -/
def addPosition (i : Index) (p : UInt32) : Index := { i with known := i.known.insert p }

def bindKey (i : Index) (key : Key) (p : UInt32) : Index where
  carriers := i.carriers.alter key fun s => some ((s.getD ∅).insert p)
  known := i.known.insert p

def bindAll (i : Index) (p : UInt32) (properties : List (String × String)) : Index :=
  properties.foldl (fun i (field, value) => i.bindKey (.ofProperty field value) p) i

/-- An event's position under every property it has. -/
def addEvent (i : Index) (p : UInt32) (properties : Properties) : Index :=
  (i.addPosition p).bindAll p properties.toList

/-- Positions that carry the key. -/
def carrying (i : Index) (key : Key) : Positions := i.carriers.getD key ∅

/-- Known positions that do not. -/
def lacking (i : Index) (key : Key) : Positions := i.known \ i.carrying key

def evaluate (i : Index) : Criteria → Positions
  | .equals key => i.carrying key
  | .notEquals key => i.lacking key
  | .and a b => i.evaluate a ∩ i.evaluate b
  | .or a b => i.evaluate a ∪ i.evaluate b

def size (i : Index) : Nat := i.known.size

def isEmpty (i : Index) : Bool := i.known.isEmpty

def keyCount (i : Index) : Nat := i.carriers.size

def highest? (i : Index) : Option UInt32 := i.known.max?

def compressedSize (i : Index) : Nat :=
  i.carriers.values.foldr (fun s n => s.compressedSize + n) i.known.compressedSize

-- ---- what a key reads after a write --------------------------------------

theorem carrying_empty (key : Key) : empty.carrying key = ∅ := by simp [carrying, empty]

theorem known_addPosition (i : Index) (p : UInt32) :
    (i.addPosition p).known = i.known.insert p := rfl

theorem carrying_addPosition (i : Index) (p : UInt32) (key : Key) :
    (i.addPosition p).carrying key = i.carrying key := rfl

theorem mem_carrying_bindKey {i : Index} {key other : Key} {p q : UInt32} :
    q ∈ (i.bindKey key p).carrying other ↔ (other = key ∧ q = p) ∨ q ∈ i.carrying other := by
  simp only [carrying, bindKey, ExtTreeMap.getD_alter]
  by_cases h : other = key
  · subst h
    simp [ExtTreeSet.mem_insert, ExtTreeMap.getD_eq_getD_getElem?, @eq_comm _ q p]
  · have hc : compare key other ≠ .eq := fun e => h (LawfulEqOrd.eq_of_compare e).symm
    simp [h, hc]

theorem mem_known_bindKey {i : Index} {key : Key} {p q : UInt32} :
    q ∈ (i.bindKey key p).known ↔ q = p ∨ q ∈ i.known := by
  simp [bindKey, ExtTreeSet.mem_insert, @eq_comm _ q p]

theorem mem_lacking {i : Index} {key : Key} {p : UInt32} :
    p ∈ i.lacking key ↔ p ∈ i.known ∧ p ∉ i.carrying key := by
  simp [lacking, ExtTreeSet.mem_diff_iff]

theorem evaluate_all (i : Index) (h : i.carrying .sentinel = ∅) : i.evaluate .all = i.known := by
  apply ExtTreeSet.ext_mem
  simp [Criteria.all, evaluate, mem_lacking, h]

end Index

end EventStore
