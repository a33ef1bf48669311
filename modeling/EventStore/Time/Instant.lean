import EventStore.Text.Number
import EventStore.Time.Calendar

/-!
# Instants

Points of universal time with nanoseconds, their millisecond timestamps, shifts by whole seconds and
written forms. The instants that can be represented are those of the years -262143 to 262142.
-/

namespace EventStore

/-- `nanos` from 10⁹ on lies in a leap second that follows `seconds`. -/
structure Instant where
  /-- From the start of 1970. -/
  seconds : Int
  nanos : Nat
  deriving DecidableEq, Repr

namespace Instant

instance : LE Instant where
  le a b := a.seconds < b.seconds ∨ a.seconds = b.seconds ∧ a.nanos ≤ b.nanos

instance (a b : Instant) : Decidable (a ≤ b) :=
  inferInstanceAs (Decidable (a.seconds < b.seconds ∨ a.seconds = b.seconds ∧ a.nanos ≤ b.nanos))

instance : LT Instant where
  lt a b := ¬ b ≤ a

instance (a b : Instant) : Decidable (a < b) := inferInstanceAs (Decidable (¬ b ≤ a))

def leastYear : Int := -262143
def greatestYear : Int := 262142

def leastSeconds : Int := -8334601228800
def greatestSeconds : Int := 8210266876799

def ofSeconds? (seconds : Int) (nanos : Nat) : Option Instant :=
  if leastSeconds ≤ seconds ∧ seconds ≤ greatestSeconds then some ⟨seconds, nanos⟩ else none

def ofMillis? (ms : Int) : Option Instant :=
  ofSeconds? (ms / 1000) ((ms % 1000).toNat * 1000000)

/-- The millisecond that holds the instant. -/
def millis (t : Instant) : Int := t.seconds * 1000 + t.nanos / 1000000

/-- The instant `seconds` later. A leap second counts as part of the second before it when time moves
on, and of the one after it when time moves back. -/
def shift? (t : Instant) (seconds : Int) : Option Instant :=
  if t.nanos < 1000000000 ∨ seconds = 0 then ofSeconds? (t.seconds + seconds) t.nanos
  else if 0 < seconds then ofSeconds? (t.seconds + seconds) (t.nanos - 1000000000)
  else ofSeconds? (t.seconds + 1 + seconds) (t.nanos - 1000000000)

theorem le_iff {a b : Instant} :
    a ≤ b ↔ a.seconds < b.seconds ∨ a.seconds = b.seconds ∧ a.nanos ≤ b.nanos := Iff.rfl

theorem le_refl (t : Instant) : t ≤ t := .inr ⟨rfl, Nat.le_refl _⟩

theorem le_trans {a b c : Instant} (h : a ≤ b) (h' : b ≤ c) : a ≤ c := by
  rw [le_iff] at *
  omega

theorem le_total (a b : Instant) : a ≤ b ∨ b ≤ a := by
  simp only [le_iff]
  omega

theorem millis_le {a b : Instant} (h : a ≤ b) (ha : a.nanos < 1000000000) : a.millis ≤ b.millis := by
  rw [le_iff] at h
  unfold millis
  omega

theorem millis_of_ofMillis? {ms : Int} {t : Instant} (h : ofMillis? ms = some t) : t.millis = ms := by
  unfold ofMillis? ofSeconds? at h
  split at h
  · cases h
    simp only [millis]
    omega
  · cases h

-- ---- written forms -------------------------------------------------------

inductive Fraction
  | digits (count : Nat)
  /-- Three, six or nine digits, or none: as few of these as tell the whole fraction. -/
  | shortest
  deriving DecidableEq, Repr

structure Format where
  fraction : Fraction
  zone : String

/-- Years of four digits, all others with a sign. -/
def yearText (year : Int) : String :=
  if 0 ≤ year ∧ year ≤ 9999 then Text.zeroPadded 4 year.toNat
  else (if year < 0 then "-" else "+") ++ Text.zeroPadded 4 year.natAbs

def two (n : Int) : String := Text.zeroPadded 2 n.toNat

def fractionText (nanos : Nat) : Fraction → String
  | .digits n => "." ++ Text.zeroPadded n (nanos / Text.tenTo (9 - n))
  | .shortest =>
    if nanos = 0 then ""
    else if nanos % 1000000 = 0 then "." ++ Text.zeroPadded 3 (nanos / 1000000)
    else if nanos % 1000 = 0 then "." ++ Text.zeroPadded 6 (nanos / 1000)
    else "." ++ Text.zeroPadded 9 nanos

def text (f : Format) (t : Instant) : String :=
  let date := Date.ofNumber (t.seconds / 86400)
  let time := t.seconds % 86400
  let leap := 1000000000 ≤ t.nanos
  let second := time % 60 + if leap then 1 else 0
  let nanos := if leap then t.nanos - 1000000000 else t.nanos
  s!"{yearText date.year}-{two date.month}-{two date.day}T{two (time / 3600)}:" ++
    s!"{two (time / 60 % 60)}:{two second}{fractionText nanos f.fraction}{f.zone}"

/-- For messages. -/
def offsetForm : Format := ⟨.shortest, "+00:00"⟩

/-- For reports. -/
def letterForm : Format := ⟨.shortest, "Z"⟩

end Instant

end EventStore
