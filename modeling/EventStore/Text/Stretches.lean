/-!
# Sets of characters

A set of characters as a table: how many code points in turn lie outside it and inside it.
-/

namespace EventStore.Text

/-- Lengths of the stretches of code points outside and inside a set, in turn; the first lies outside. All
that follows the last stretch is outside. -/
abbrev Stretches := List Nat

namespace Stretches

/-- Whether the `n`th code point of the stretches is in the set, if the first stretch is as `inside` says. -/
def reach (inside : Bool) : Stretches → Nat → Bool
  | [], _ => false
  | length :: rest, n => if n < length then inside else reach (!inside) rest (n - length)

def holds (s : Stretches) (c : Char) : Bool := reach false s c.toNat

theorem reach_nil (inside : Bool) (n : Nat) : reach inside [] n = false := rfl

theorem reach_add (inside : Bool) (length n : Nat) (rest : Stretches) :
    reach inside (length :: rest) (length + n) = reach (!inside) rest n := by
  rw [reach, if_neg (by omega), Nat.add_sub_cancel_left]

end Stretches

end EventStore.Text
