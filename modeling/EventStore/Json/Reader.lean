import EventStore.Text.Number

/-!
# Reading JSON

Readers that take a value of a wanted shape from the front of a JSON text. They go through the text once,
from left to right, so the first fault in the text is the one reported: either the text is not JSON, or
it is JSON of the wrong shape. Members of an object that are not wanted are passed over.
-/

namespace EventStore.Json

inductive Fault
  /-- The text is not JSON, or ends too early. -/
  | malformed
  /-- A value of another shape is wanted. -/
  | unsuitable
  deriving DecidableEq, Repr

abbrev Reader := StateT (List Char) (Except Fault)

def malformed : Reader α := throw .malformed

def unsuitable : Reader α := throw .unsuitable

def isGap (c : Char) : Bool := c == ' ' || c == '\t' || c == '\r' || c == '\n'

def skipGap : Reader Unit := modify (·.dropWhile isGap)

/-- The first character after a gap, left where it is. -/
def peek? : Reader (Option Char) := do
  skipGap
  return (← get).head?

/-- The next character, whatever it is. -/
def take? : Reader (Option Char) := fun
  | c :: r => .ok (some c, r)
  | [] => .ok (none, [])

def skip : Reader Unit := modify (·.drop 1)

/-- Takes `c`, which has to come next. -/
def expect (c : Char) : Reader Unit := do
  if (← take?) = some c then return else malformed

def expectAll (word : List Char) : Reader Unit := do
  if word.isPrefixOf (← get) then modify (·.drop word.length) else malformed

-- ---- numbers -------------------------------------------------------------

def takeDigits : Reader (List Char) := fun s => .ok (s.takeWhile Char.isDigit, s.dropWhile Char.isDigit)

def someDigits : Reader (List Char) := do
  let ds ← takeDigits
  if ds.isEmpty then malformed else return ds

structure Number where
  negative : Bool
  /-- The leading digits, as many as fit 64 bits. -/
  significand : Nat
  /-- The power of ten that it counts. -/
  exponent : Int
  /-- Written with neither point nor exponent. -/
  plain : Bool

/-- The digits before the point: a lone zero, or a run that starts with no zero. -/
def wholePart : Reader (List Char) := do
  match ← someDigits with
  | '0' :: _ :: _ => malformed
  | ds => return ds

def fractionPart : Reader (List Char) := do
  if (← get).head? = some '.' then
    skip
    someDigits
  else return []

def exponentPart : Reader (Option Int) := do
  match ← get with
  | 'e' :: r | 'E' :: r =>
    match r with
    | '+' :: r =>
      set r
      return some (Text.decimal (← someDigits))
    | '-' :: r =>
      set r
      return some (-(Text.decimal (← someDigits) : Int))
    | r =>
      set r
      return some (Text.decimal (← someDigits))
  | _ => return none

/-- Appends digits to a number as long as it fits 64 bits; also the digits that are left. -/
def fillWord : Nat → List Char → Nat × List Char
  | n, [] => (n, [])
  | n, c :: rest =>
    let m := Text.decimal [c] + 10 * n
    if m ≤ Text.maxUInt64 then fillWord m rest else (n, c :: rest)

/-- Digits before the point that are left over only raise the exponent; behind it they are dropped. -/
def Number.ofDigits (negative : Bool) (whole fraction : List Char) (exponent : Option Int) : Number :=
  let (n, left) := fillWord 0 whole
  let (n, dropped) := fillWord n fraction
  ⟨negative, n, exponent.getD 0 + left.length - (fraction.length - dropped.length : Nat),
    fraction.isEmpty && exponent.isNone⟩

def number : Reader Number := do
  let negative := (← get).head? = some '-'
  if negative then skip
  let whole ← wholePart
  let fraction ← fractionPart
  let exponent ← exponentPart
  return .ofDigits negative whole fraction exponent

/-- Any number but a plain one that fits 64 bits is held as a double-precision float: that of its
significand times that of the power of ten. The product can be too large. -/
def Number.isTooLarge (n : Number) : Bool :=
  n.significand ≠ 0 && 0 ≤ n.exponent && (308 < n.exponent || Text.floatLimit ≤
    Text.nearestFloat n.significand * Text.nearestFloat (Text.tenTo n.exponent.toNat))

/-- The value of a plain number of at most 64 bits. A zero with a sign is no integer. -/
def Number.integer? (n : Number) : Option Int :=
  if !n.plain || n.exponent ≠ 0 then none
  else if n.negative then
    if n.significand = 0 ∨ 9223372036854775808 < n.significand then none else some (-n.significand)
  else some n.significand

def checkedNumber : Reader Number := do
  let n ← number
  if n.isTooLarge then malformed else return n

-- ---- texts ---------------------------------------------------------------

def hexValue? (c : Char) : Option Nat :=
  if c.isDigit then some (c.toNat - 48)
  else if 'a' ≤ c ∧ c ≤ 'f' then some (c.toNat - 87)
  else if 'A' ≤ c ∧ c ≤ 'F' then some (c.toNat - 55)
  else none

def fourHex : Reader Nat := fun
  | a :: b :: c :: d :: r =>
    match hexValue? a, hexValue? b, hexValue? c, hexValue? d with
    | some a, some b, some c, some d => .ok (a * 4096 + b * 256 + c * 16 + d, r)
    | _, _, _, _ => .error .malformed
  | _ => .error .malformed

def isUpperHalf (n : Nat) : Bool := 0xd800 ≤ n && n < 0xdc00

def isLowerHalf (n : Nat) : Bool := 0xdc00 ≤ n && n < 0xe000

/-- What follows `\u`: a character, or the two halves of one. -/
def unicodeEscape : Reader Char := do
  let n ← fourHex
  if isLowerHalf n then malformed
  else if isUpperHalf n then
    expectAll ['\\', 'u']
    let m ← fourHex
    if isLowerHalf m then return Char.ofNat (0x10000 + (n - 0xd800) * 1024 + (m - 0xdc00))
    else malformed
  else return Char.ofNat n

def plainEscape? : Char → Option Char
  | '"' => some '"'
  | '\\' => some '\\'
  | '/' => some '/'
  | 'b' => some '\x08'
  | 'f' => some '\x0c'
  | 'n' => some '\n'
  | 'r' => some '\r'
  | 't' => some '\t'
  | _ => none

/-- The character of an escape, after its backslash. -/
def escape (strict : Bool) : Reader Char := do
  match ← take? with
  | none => malformed
  | some 'u' =>
    if strict then unicodeEscape
    else
      let _ ← fourHex
      return '?'
  | some c =>
    match plainEscape? c with
    | some c => return c
    | none => malformed

/-- Up to the closing quote; a text of `n` characters ends within `n` steps. In a text that is passed
over (not `strict`) the halves of a character need not match. -/
def textRest (strict : Bool) : (steps : Nat) → List Char → Reader String
  | 0, _ => malformed
  | steps + 1, taken => do
    match ← take? with
    | none => malformed
    | some '"' => return String.ofList taken.reverse
    | some '\\' => textRest strict steps ((← escape strict) :: taken)
    | some c => if c.toNat < 0x20 then malformed else textRest strict steps (c :: taken)

/-- What follows an opening quote. -/
def afterQuote (strict : Bool) : Reader String := do
  textRest strict ((← get).length + 1) []

-- ---- values that are passed over -----------------------------------------

inductive Nesting
  | list
  | object
  deriving DecidableEq, Repr

/-- The name and the colon in front of a member's value. -/
def skipName : Reader Unit := do
  if (← peek?) = some '"' then
    skip
    let _ ← afterQuote false
    if (← peek?) = some ':' then skip else malformed
  else malformed

/-- Closes lists and objects as far as they end here, and then goes on to the next value, if there is
one. -/
def skipClosings : List Nesting → Reader (List Nesting)
  | [] => return []
  | n :: outer => do
    match ← peek?, n with
    | some ',', .list =>
      skip
      return .list :: outer
    | some ',', .object =>
      skip
      skipName
      return .object :: outer
    | some ']', .list =>
      skip
      skipClosings outer
    | some '}', .object =>
      skip
      skipClosings outer
    | _, _ => malformed

/-- Passes over a value that stands within `nestings` and over all that follows in these. -/
def skipValues : (steps : Nat) → List Nesting → Reader Unit
  | 0, _ => malformed
  | steps + 1, nestings => do
    let inner : Option Nesting ← match ← peek? with
      | some 'n' => do expectAll ['n', 'u', 'l', 'l']; pure none
      | some 't' => do expectAll ['t', 'r', 'u', 'e']; pure none
      | some 'f' => do expectAll ['f', 'a', 'l', 's', 'e']; pure none
      | some '"' => do
        skip
        let _ ← afterQuote false
        pure none
      | some '[' => do skip; pure (some .list)
      | some '{' => do skip; pure (some .object)
      | some c =>
        if c == '-' || c.isDigit then do
          let _ ← number
          pure none
        else malformed
      | none => malformed
    let rest : List Nesting ← match inner with
      | none => skipClosings nestings
      | some .list =>
        if (← peek?) = some ']' then do
          skip
          skipClosings nestings
        else pure (.list :: nestings)
      | some .object =>
        if (← peek?) = some '}' then do
          skip
          skipClosings nestings
        else do
          skipName
          pure (.object :: nestings)
    if rest.isEmpty then return else skipValues steps rest

def skipValue : Reader Unit := do skipValues ((← get).length + 1) []

/-- Refuses the value that comes next. A fault within its first token counts first. -/
def refuse : Reader α := do
  match ← peek? with
  | some 'n' => expectAll ['n', 'u', 'l', 'l']; unsuitable
  | some 't' => expectAll ['t', 'r', 'u', 'e']; unsuitable
  | some 'f' => expectAll ['f', 'a', 'l', 's', 'e']; unsuitable
  | some '"' =>
    skip
    let _ ← afterQuote true
    unsuitable
  | some '[' | some '{' => unsuitable
  | some c =>
    if c == '-' || c.isDigit then do
      let _ ← checkedNumber
      unsuitable
    else malformed
  | none => malformed

-- ---- wanted shapes -------------------------------------------------------

def text : Reader String := do
  if (← peek?) = some '"' then
    skip
    afterQuote true
  else refuse

/-- An integer from `least` to `most`. -/
def integer (least most : Int) : Reader Int := do
  match ← peek? with
  | some c =>
    if c == '-' || c.isDigit then
      match (← checkedNumber).integer? with
      | some n => if least ≤ n ∧ n ≤ most then return n else unsuitable
      | none => unsuitable
    else refuse
  | none => malformed

/-- `null` is the absence of a value. -/
def optional (value : Reader α) : Reader (Option α) := do
  if (← peek?) = some 'n' then
    expectAll ['n', 'u', 'l', 'l']
    return none
  else return some (← value)

/-- Whether another item of a list follows; `first` before any item. -/
def anotherItem (first : Bool) : Reader Bool := do
  match ← peek? with
  | none => malformed
  | some ']' => return false
  | some c =>
    if first then return true
    else if c == ',' then
      skip
      match ← peek? with
      | none | some ']' => malformed
      | some _ => return true
    else malformed

/-- The end of a list of which enough has been read. -/
def listEnd : Reader Unit := do
  if (← peek?) = some ']' then skip else malformed

/-- Whether another member of an object follows; then its opening quote is next. -/
def anotherMember (first : Bool) : Reader Bool := do
  match ← peek? with
  | none => malformed
  | some '}' => return false
  | some c =>
    let c ← if first then pure (some c)
      else if c == ',' then do
        skip
        peek?
      else malformed
    if c = some '"' then return true else malformed

def memberName : Reader String := do
  skip
  afterQuote true

def colon : Reader Unit := do
  if (← peek?) = some ':' then skip else malformed

def items (item : Reader α) : (steps : Nat) → List α → Reader (List α)
  | 0, _ => malformed
  | steps + 1, taken => do
    if ← anotherItem taken.isEmpty then
      let a ← item
      items item steps (a :: taken)
    else
      listEnd
      return taken.reverse

def list (item : Reader α) : Reader (List α) := do
  if (← peek?) = some '[' then
    skip
    items item ((← get).length + 1) []
  else refuse

def members (value : Reader α) : (steps : Nat) → List (String × α) → Reader (List (String × α))
  | 0, _ => malformed
  | steps + 1, taken => do
    if ← anotherMember taken.isEmpty then
      let name ← memberName
      colon
      let a ← value
      members value steps ((name, a) :: taken)
    else
      skip
      return taken.reverse

/-- All members of an object, in their order. -/
def dictionary (value : Reader α) : Reader (List (String × α)) := do
  if (← peek?) = some '{' then
    skip
    members value ((← get).length + 1) []
  else refuse

/-- A part of a record: its name, whether it may be left out, and how it is read into what has been read
so far. -/
structure Member (ρ : Type) where
  name : String
  required : Bool
  read : ρ → Reader ρ

/-- The members of an object into a record. A part must not come twice, and required ones must come. -/
def partsByName (parts : List (Member ρ)) : (steps : Nat) → Bool → List String → ρ → Reader ρ
  | 0, _, _, _ => malformed
  | steps + 1, first, seen, r => do
    if ← anotherMember first then
      let name ← memberName
      match parts.find? (·.name == name) with
      | none =>
        colon
        skipValue
        partsByName parts steps false seen r
      | some part =>
        if seen.contains name then unsuitable
        else
          colon
          let r ← part.read r
          partsByName parts steps false (name :: seen) r
    else if parts.all (fun part => !part.required || seen.contains part.name) then
      skip
      return r
    else unsuitable

/-- The items of a list into a record, in the order of its parts; the last ones may be missing. -/
def partsInOrder : List (Member ρ) → Bool → ρ → Reader ρ
  | [], _, r => do
    listEnd
    return r
  | part :: rest, first, r => do
    if ← anotherItem first then
      let r ← part.read r
      partsInOrder rest false r
    else if (part :: rest).any (·.required) then unsuitable
    else
      listEnd
      return r

/-- A record, from an object or from a list. -/
def record (parts : List (Member ρ)) (blank : ρ) : Reader ρ := do
  match ← peek? with
  | some '{' =>
    skip
    partsByName parts ((← get).length + 1) true [] blank
  | some '[' =>
    skip
    partsInOrder parts true blank
  | _ => refuse

-- ---- whole texts ---------------------------------------------------------

/-- The value at the front of a text; anything may follow it. -/
def readFront (value : Reader α) (s : String) : Except Fault α := (value.run s.toList).map Prod.fst

/-- The value that a whole text is. -/
def readAll (value : Reader α) (s : String) : Except Fault α := do
  let (a, rest) ← value.run s.toList
  if rest.all isGap then return a else throw .malformed

end EventStore.Json
