import EventStore.Text.Blank
import EventStore.Time.Instant

/-!
# Internet timestamps

A date, a time of day and an offset from universal time in the form that protocols use, as in
`2024-03-05T14:00:00.5+01:00`. Every number but the fraction has a fixed count of digits. A small letter
or a space may stand for the `T`. Digits of the fraction beyond the ninth are skipped, and a second of 60
is a leap second.
-/

namespace EventStore.InternetTime

open Text

inductive Problem
  | badCharacter
  | cutOff
  | outOfRange
  | trailing
  deriving DecidableEq, Repr

def Problem.message : Problem → String
  | badCharacter => "input contains invalid characters"
  | cutOff => "premature end of input"
  | outOfRange => "input is out of range"
  | trailing => "trailing input"

abbrev Reading := StateT (List Char) (Except Problem)

def refuse (p : Problem) : Reading α := throw p

/-- The next character. -/
def next (p : Char → Bool) : Reading Char := fun
  | c :: rest => if p c then .ok (c, rest) else .error .badCharacter
  | [] => .error .cutOff

def mark (c : Char) : Reading Unit := do
  let _ ← next (· == c)

/-- A number of `count` digits. A text of fewer bytes is cut off, whatever it holds. -/
def number (count : Nat) : Reading Int := fun s =>
  let ds := s.take count
  if byteLength s < count then .error .cutOff
  else if ds.all Char.isDigit then .ok (decimal ds, s.drop count)
  else .error .badCharacter

def field (count : Nat) (least most : Int) : Reading Int := do
  let n ← number count
  if least ≤ n ∧ n ≤ most then return n else refuse .outOfRange

/-- Not every date is one of the calendar. -/
def date : Reading Date := do
  let y ← number 4
  mark '-'
  let m ← field 2 1 12
  mark '-'
  return ⟨y, m, ← field 2 1 31⟩

/-- Billionths of a second. -/
def fraction : Reading Nat := do
  match ← get with
  | '.' :: rest =>
    set rest
    let first ← next Char.isDigit
    let ds := first :: ((← get).take 8).takeWhile Char.isDigit
    modify (·.dropWhile Char.isDigit)
    return decimal ds * tenTo (9 - ds.length)
  | _ => return 0

/-- Seconds of the day, and billionths. -/
def timeOfDay : Reading (Int × Nat) := do
  let h ← field 2 0 23
  mark ':'
  let m ← field 2 0 59
  mark ':'
  let s ← field 2 0 60
  let f ← fraction
  let minutes := h * 3600 + m * 60
  return if s = 60 then (minutes + 59, 1000000000 + f) else (minutes + s, f)

/-- Seconds that local time is ahead of universal time: less than a day. -/
def offset : Reading Int := do
  match ← next fun c => c == 'Z' || c == 'z' || c == '+' || c == '-' || c == '−' with
  | 'Z' | 'z' => return 0
  | sign =>
    let h ← number 2
    mark ':'
    let m ← field 2 0 59
    if 23 < h then refuse .outOfRange
    else
      let n := h * 3600 + m * 60
      return if sign == '+' then n else -n

/-- A date, a time of day and how far it is ahead. -/
def parts : Reading (Date × (Int × Nat) × Int) := do
  let d ← date
  let _ ← next fun c => c == 'T' || c == 't' || c == ' '
  let time ← timeOfDay
  return (d, time, ← offset)

/-- The instant that the whole text names. -/
def read (text : String) : Except Problem Instant := do
  let ((d, (time, nanos), ahead), rest) ← parts.run text.toList
  if !rest.isEmpty then throw .trailing
  else if d.isValid then return ⟨d.number * 86400 + time - ahead, nanos⟩
  else throw .outOfRange

end EventStore.InternetTime
