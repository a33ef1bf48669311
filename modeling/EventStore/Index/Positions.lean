import Std.Data.ExtTreeSet

/-!
# Sets of positions

Finite sets of 32-bit positions, listed in ascending order and equal when they have the same members.
-/

namespace EventStore

open Std

abbrev Positions := ExtTreeSet UInt32 compare

namespace Positions

/-- The members above `bound`, ascending. -/
def above (s : Positions) (bound : UInt32) : List UInt32 := s.toList.filter (bound < ·)

/-- The members by the upper half of the position. -/
def blocks (s : Positions) : List (List UInt32) :=
  s.toList.splitBy (fun p q => p >>> 16 == q >>> 16)

/-- Bytes of a block: two a member up to 4096 members, a bit field of 65536 bits beyond. -/
def blockBytes (members : Nat) : Nat := 8 + if members ≤ 4096 then 2 * members else 8192

/-- Bytes of the compressed form: a header, and then block by block. -/
def compressedSize (s : Positions) : Nat := 
  s.blocks.foldr (fun block n => blockBytes block.length + n) 8

theorem mem_above {s : Positions} {bound p : UInt32} : p ∈ s.above bound ↔ p ∈ s ∧ bound < p := by
  simp [above, ExtTreeSet.mem_toList]

theorem sorted_above (s : Positions) (bound : UInt32) :
    (s.above bound).Pairwise (compare · · = .lt) :=
  ExtTreeSet.ordered_toList.filter _

end Positions

end EventStore
