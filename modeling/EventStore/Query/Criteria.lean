import EventStore.Text.Quoted

/-!
# Criteria

A query lowered to set operations over index keys. Criteria hold no positions, so one tree serves every
index, and goes on serving an index that grows.
-/

namespace EventStore.Query

/-- A property's name and value. No property has the key without a field. -/
structure Key where
  field : Option String
  value : String
  deriving DecidableEq, Repr, Inhabited

def Key.ofProperty (field value : String) : Key := ⟨some field, value⟩

def Key.sentinel : Key := ⟨none, ""⟩

inductive Criteria
  | equals (key : Key)
  | notEquals (key : Key)
  | and (a b : Criteria)
  | or (a b : Criteria)
  deriving DecidableEq, Repr, Inhabited

namespace Criteria

/-- Every event differs from the sentinel. -/
def all : Criteria := notEquals .sentinel

/-- No event has the sentinel. -/
def none : Criteria := equals .sentinel

/-- Key lookups that an evaluation makes. -/
def leafCount : Criteria → Nat
  | equals _ | notEquals _ => 1
  | and a b | or a b => a.leafCount + b.leafCount

def keyText (k : Key) : String :=
  match k.field with
  | some f => "<" ++ f ++ ">, " ++ Text.quoted k.value
  | .none => "0000000000000000, " ++ Text.quoted k.value

def text : Criteria → String
  | equals k => "eq(" ++ keyText k ++ ")"
  | notEquals k => "ne(" ++ keyText k ++ ")"
  | and a b => "and(" ++ a.text ++ ", " ++ b.text ++ ")"
  | or a b => "or(" ++ a.text ++ ", " ++ b.text ++ ")"

theorem leafCount_pos (c : Criteria) : 0 < c.leafCount := by
  induction c <;> simp only [leafCount] <;> omega

end Criteria

end EventStore.Query
