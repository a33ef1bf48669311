import EventStore.Text.Blank
import EventStore.Time.Instant

/-!
# Reading instants

A date, a time of day and an offset from universal time, as in `2024-03-05T14:00:00.5+01:00`. The reading
is lenient: white space may stand before every number and mark, numbers need no leading zeros, a year may
have a sign and then any length, a space may stand for the `T`, and `UTC` for the offset. Digits of the
fraction beyond the ninth are skipped, and a second of 60 is a leap second.
-/

namespace EventStore.Timestamp

open Text

/-- Takes from the front of the text, or refuses it. -/
abbrev Reading := StateT (List Char) Option

def skipBlanks : Reading Unit := modify dropBlanks

/-- The next character, if `p` holds of it. -/
def next (p : Char → Bool) : Reading Char := fun
  | c :: r => if p c then some (c, r) else none
  | [] => none

def mark (c : Char) : Reading Unit := do
  skipBlanks
  let _ ← next (· == c)

/-- The digits in front, at least one. -/
def digits : Reading (List Char) := fun s =>
  let ds := s.takeWhile Char.isDigit
  if ds.isEmpty then none else some (ds, s.drop ds.length)

/-- At most `most` digits. -/
def digitsUpTo (most : Nat) : Reading (List Char) := fun s =>
  let ds := (s.take most).takeWhile Char.isDigit
  if ds.isEmpty then none else some (ds, s.drop ds.length)

def within (least most : Int) (n : Int) : Reading Int :=
  if least ≤ n ∧ n ≤ most then pure n else failure

def field (least most : Int) : Reading Int := do
  skipBlanks
  within least most (decimal (← digitsUpTo 2))

/-- The sign in front, if any. -/
def sign? : Reading (Option Char) := fun
  | '+' :: r => some (some '+', r)
  | '-' :: r => some (some '-', r)
  | s => some (none, s)

def year : Reading Int := do
  skipBlanks
  let sign ← sign?
  let ds ← if sign.isSome then digits else digitsUpTo 4
  within Instant.leastYear Instant.greatestYear
    (if sign = some '-' then -(decimal ds : Int) else decimal ds)

def date : Reading Date := do
  let y ← year
  mark '-'
  let m ← field 1 12
  mark '-'
  let d ← field 1 31
  let date : Date := ⟨y, m, d⟩
  if date.isValid then return date else failure

/-- Billionths of a second. -/
def fraction : Reading Nat := do
  match ← get with
  | '.' :: r =>
    set r
    let ds ← digitsUpTo 9
    modify (·.dropWhile Char.isDigit)
    return decimal ds * tenTo (9 - ds.length)
  | _ => return 0

/-- Seconds of the day, and billionths. -/
def timeOfDay : Reading (Int × Nat) := do
  let h ← field 0 23
  mark ':'
  let m ← field 0 59
  mark ':'
  let s ← field 0 60
  let f ← fraction
  let minutes := h * 3600 + m * 60
  return if s = 60 then (minutes + 59, 1000000000 + f) else (minutes + s, f)

def twoDigits (most : Nat) : Reading Int := do
  let a ← next Char.isDigit
  let b ← next Char.isDigit
  within 0 most (decimal [a, b])

/-- Seconds that local time is ahead of universal time. -/
def offset : Reading Int := do
  match ← get with
  | 'Z' :: r | 'z' :: r => set r; return 0
  | u :: t :: c :: r =>
    if [u, t, c].map Char.toLower = ['u', 't', 'c'] then set r; return 0 else signed
  | _ => signed
where
  signed : Reading Int := do
    let sign ← next (fun c => c == '+' || c == '-' || c == '−')
    let h ← twoDigits 23
    modify (·.dropWhile fun c => c == ':' || isBlank c)
    let m ← twoDigits 59
    let n := h * 3600 + m * 60
    return if sign == '+' then n else -n

def instant : Reading Instant := do
  let d ← date
  let _ ← next (fun c => c == 'T' || c == 't' || c == ' ')
  let (time, nanos) ← timeOfDay
  skipBlanks
  let ahead ← offset
  skipBlanks
  match Instant.ofSeconds? (d.number * 86400 + time - ahead) nanos with
  | some t => return t
  | none => failure

/-- The instant that the whole text names. -/
def read? (text : String) : Option Instant :=
  match instant.run text.toList with
  | some (t, []) => some t
  | _ => none

end EventStore.Timestamp
