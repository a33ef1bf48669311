/-!
# Seeking a time

The first position in a list of events from a time on, by halving as long as the window is large. On an
event of exactly that time the seek walks back over all equal times. Where times do not decrease the
answer is the number of events before that time.
-/

namespace EventStore.Seek

variable {m : Type → Type u} [Monad m]

/-- A window up to this size is gone through from its start. -/
def smallWindow : Nat := 20

/-- Back over the positions in front of one that have the time wanted. -/
def walkBack (timeAt : Nat → m Int) (wanted : Int) : Nat → m Nat
  | 0 => return 0
  | position + 1 => do
    if (← timeAt position) = wanted then walkBack timeAt wanted position else return position + 1

/-- The first of `count` positions that is not before the time wanted. -/
def scan (timeAt : Nat → m Int) (wanted : Int) (position : Nat) : (count : Nat) → m Nat
  | 0 => return position
  | count + 1 => do
    if wanted ≤ (← timeAt position) then return position
    else scan timeAt wanted (position + 1) count

def within (timeAt : Nat → m Int) (wanted : Int) (low high : Nat) : m Nat :=
  if smallWindow < high - low then do
    let middle := low + (high - low) / 2
    let time ← timeAt middle
    if time < wanted then within timeAt wanted (middle + 1) high
    else if wanted < time then within timeAt wanted low middle
    else walkBack timeAt wanted middle
  else scan timeAt wanted low (high - low)
termination_by high - low

/-- The first of `count` positions from the time wanted on. -/
def seek (timeAt : Nat → m Int) (wanted : Int) (count : Nat) : m Nat := within timeAt wanted 0 count

end EventStore.Seek
