/-!
# Integers in decimal text

Reading a bounded integer digit by digit, with the reason when it cannot be read, and writing one
with leading zeros.
-/

namespace EventStore.Text

inductive NumberProblem
  | empty
  | badDigit
  | tooLarge
  | tooSmall
  deriving DecidableEq, Repr

def NumberProblem.message : NumberProblem → String
  | .empty => "cannot parse integer from empty string"
  | .badDigit => "invalid digit found in string"
  | .tooLarge => "number too large to fit in target type"
  | .tooSmall => "number too small to fit in target type"

def digit? (c : Char) : Option Nat := if c.isDigit then some (c.toNat - '0'.toNat) else none

/-- The value of a run of digits. -/
def decimal (digits : List Char) : Nat := Nat.ofDigitChars 10 digits 0

/-- Ten to the power of `n`. -/
def tenTo (n : Nat) : Nat := Nat.pow 10 n

/-- Half a step above the largest double-precision float. -/
def floatLimit : Nat := Nat.pow 2 1024 - Nat.pow 2 970

/-- The double-precision float nearest to `n`, as if there were no largest one. Halfway it is the one with the
even last bit. -/
def nearestFloat (n : Nat) : Nat :=
  let unit := Nat.pow 2 (n.log2 - 52)
  let q := n / unit
  let r := n % unit
  (if unit < 2 * r ∨ (2 * r = unit ∧ q % 2 = 1) then q + 1 else q) * unit

/-- Whether `digits` times a power of ten is too large for a double-precision float. How many places there
are in front of the point nearly always decides it. -/
def exceedsFloat (digits : Nat) (exponent : Int) : Bool :=
  let places := (Nat.toDigits 10 digits).length + exponent
  digits ≠ 0 && (310 < places || (308 ≤ places &&
    floatLimit * tenTo (-exponent).toNat ≤ digits * tenTo exponent.toNat))

/-- Reads on from `n`. A digit that takes the number past the bound ends the reading at once. -/
def readUp (most : Int) : Int → List Char → Except NumberProblem Int
  | n, [] => .ok n
  | n, c :: r =>
    match digit? c with
    | none => .error .badDigit
    | some d => if n * 10 + d ≤ most then readUp most (n * 10 + d) r else .error .tooLarge

/-- The same below zero. -/
def readDown (least : Int) : Int → List Char → Except NumberProblem Int
  | n, [] => .ok n
  | n, c :: r =>
    match digit? c with
    | none => .error .badDigit
    | some d => if least ≤ n * 10 - d then readDown least (n * 10 - d) r else .error .tooSmall

/-- An integer from `least` to `most`. A minus sign is a sign only where negative numbers fit. -/
def readInt (least most : Int) : List Char → Except NumberProblem Int
  | [] => .error .empty
  | ['+'] | ['-'] => .error .badDigit
  | '+' :: r => readUp most 0 r
  | '-' :: r => if least < 0 then readDown least 0 r else .error .badDigit
  | s => readUp most 0 s

def minInt64 : Int := -9223372036854775808
def maxInt64 : Int := 9223372036854775807
def maxUInt64 : Int := 18446744073709551615

/-- At least `width` characters, zeros in front. -/
def padLeft (fill : Char) (width : Nat) (s : String) : String :=
  String.ofList (List.replicate (width - s.length) fill) ++ s

def padRight (fill : Char) (width : Nat) (s : String) : String :=
  s ++ String.ofList (List.replicate (width - s.length) fill)

def zeroPadded (width n : Nat) : String := padLeft '0' width (toString n)

end EventStore.Text
