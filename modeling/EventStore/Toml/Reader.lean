import EventStore.Text.Number
import EventStore.Time.Calendar
import EventStore.Toml.Value

/-!
# Reading TOML

TOML 1.0. A text is read, or it is refused with the place where it stops being TOML. Values nest at most as
deep as `deepest`, which bounds the reading of nested values; all other reading is bounded by the length of
the text.
-/

namespace EventStore.Toml

open Text

structure Fault where
  place : Place
  /-- Whether no other reading is worth trying. -/
  final : Bool

abbrev Reader := StateT (List Char) (Except Fault)

namespace Reader

def rest : Reader (List Char) := get

def place : Reader Place := return (← get).length

def refuse : Reader α := do throw ⟨← place, false⟩

def refuseAt (p : Place) : Reader α := throw ⟨p, true⟩

/-- The next character, left where it is. -/
def peek? : Reader (Option Char) := return (← get).head?

def next (p : Char → Bool) : Reader Char := do
  match ← rest with
  | c :: r =>
    if p c then
      set r
      return c
    else refuse
  | [] => refuse

/-- Whether the text goes on with `word`, which is taken then. -/
def accept (word : List Char) : Reader Bool := do
  let s ← rest
  if word.isPrefixOf s then
    set (s.drop word.length)
    return true
  else return false

def expect (word : List Char) : Reader Unit := do
  if ← accept word then return else refuse

def takeWhile (p : Char → Bool) : Reader (List Char) := do
  let s ← rest
  set (s.dropWhile p)
  return s.takeWhile p

/-- A fault in `item` is final. -/
def surely (item : Reader α) : Reader α := fun s => (item s).mapError ({ · with final := true })

/-- The first of two readings that succeeds. -/
def either (a b : Reader α) : Reader α := fun s =>
  match a s with
  | .error f => if f.final then .error f else b s
  | done => done

/-- `item`, or nothing at all. -/
def possibly (item : Reader α) : Reader (Option α) :=
  either (do return some (← item)) (return none)

/-- A fault in `item` counts as one at its start, unless it is final. -/
def whole (item : Reader α) : Reader α := either item refuse

/-- The fault that `item` would have here. Nothing is taken. -/
def faultIn? (item : Reader α) : Reader (Option Fault) := fun s =>
  match item s with
  | .ok _ => .ok (none, s)
  | .error f => .ok (some f, s)

end Reader

open Reader

-- ---- blanks and line ends ------------------------------------------------

def isGap (c : Char) : Bool := c == ' ' || c == '\t'

def skipGap : Reader Unit := do
  let _ ← takeWhile isGap

/-- Whatever may stand in a comment, and in quotes unless it has a meaning there. -/
def isPlain (c : Char) : Bool := c == '\t' || (0x20 ≤ c.toNat && c.toNat != 0x7f)

/-- Whether a line end was there to be taken. -/
def lineEnd : Reader Bool := do
  if ← accept ['\n'] then return true
  else accept ['\r', '\n']

def skipComment : Reader Unit := do
  if (← peek?) = some '#' then
    let _ ← takeWhile isPlain

/-- The end of a line on which nothing more follows. -/
def finishLine : Reader Unit := do
  skipGap
  skipComment
  if (← rest).isEmpty then return
  else if ← lineEnd then return
  else refuse

/-- A line end has to come next. A character that is none is taken before it is found wrong. -/
def requireLineEnd : Reader Unit := do
  if ← lineEnd then return
  else
    set ((← rest).drop 1)
    refuse

/-- Blanks, comments and line ends between the items of a list. A comment counts with its line end. -/
def skipLines : (steps : Nat) → Reader Unit
  | 0 => return
  | steps + 1 => do
    skipGap
    match ← peek? with
    | some '#' | some '\n' | some '\r' =>
      skipComment
      requireLineEnd
      skipLines steps
    | _ => return

def skipAll : Reader Unit := do skipLines ((← rest).length + 1)

-- ---- texts ---------------------------------------------------------------

def hexValue? (c : Char) : Option Nat :=
  if c.isDigit then some (c.toNat - 48)
  else if 'a' ≤ c ∧ c ≤ 'f' then some (c.toNat - 87)
  else if 'A' ≤ c ∧ c ≤ 'F' then some (c.toNat - 55)
  else none

/-- A character by its number, in `digits` hexadecimal digits. -/
def characterCode (digits : Nat) : Reader Char := do
  let s ← rest
  let values := (s.take digits).filterMap hexValue?
  let n := values.foldl (fun n d => n * 16 + d) 0
  if values.length = digits ∧ n.isValidChar then
    set (s.drop digits)
    return Char.ofNat n
  else refuse

/-- A backslash and the character that it stands for with what follows. A backslash that ends the text may
still be something else. -/
def escape : Reader Char := do
  match ← rest with
  | '\\' :: c :: r =>
    set r
    match c with
    | 'b' => return '\x08'
    | 't' => return '\t'
    | 'n' => return '\n'
    | 'f' => return '\x0c'
    | 'r' => return '\r'
    | '"' => return '"'
    | '\\' => return '\\'
    | 'u' => surely (characterCode 4)
    | 'U' => surely (characterCode 8)
    | c => refuseAt (r.length + if c.utf8Size = 1 then 0 else 1)
  | _ => refuse

/-- Up to the closing quote, on one line. -/
def basicRest : (steps : Nat) → (taken : List Char) → Reader String
  | 0, _ => refuse
  | steps + 1, taken => do
    match ← peek? with
    | some '"' =>
      expect ['"']
      return String.ofList taken.reverse
    | some '\\' => basicRest steps ((← escape) :: taken)
    | _ => basicRest steps ((← next isPlain) :: taken)

def basicText : Reader String := do
  expect ['"']
  surely (basicRest ((← rest).length + 1) [])

def literalText : Reader String := do
  expect ['\x27']
  let s ← takeWhile fun c => isPlain c && c != '\x27'
  surely (expect ['\x27'])
  return String.ofList s

def skipBlankLines : (steps : Nat) → Reader Unit
  | 0 => return
  | steps + 1 => do
    skipGap
    if ← lineEnd then skipBlankLines steps else return

/-- A backslash at the end of a line joins it to the next text. -/
def joinLines : Reader Unit := do
  expect ['\\']
  skipGap
  if ← lineEnd then skipBlankLines ((← rest).length + 1) else refuse

/-- What stands next in a text of several lines, apart from quotes. -/
def content (quote : Char) (escapes : Bool) : Reader (List Char) := do
  if ← lineEnd then return ['\n']
  else if escapes && (← peek?) == some '\\' then
    either (do joinLines; return []) (do return [← escape])
  else return [← next fun c => isPlain c && c != quote]

/-- Up to the closing quotes. One or two quotes in front of those, or of anything else that may stand here,
belong to the text; a fault in what follows them counts as one in their place, or right after them if it
is final. -/
def longRest (quote : Char) (escapes : Bool) : (steps : Nat) → (taken : List Char) → Reader String
  | 0, _ => refuse
  | steps + 1, taken => do
    let quotes := (← rest).takeWhile (· == quote)
    if 3 ≤ quotes.length then
      let n := min quotes.length 5
      expect (List.replicate n quote)
      return String.ofList (taken.reverse ++ List.replicate (n - 3) quote)
    else if quotes.isEmpty then
      longRest quote escapes steps ((← content quote escapes).reverse ++ taken)
    else
      let start ← place
      expect quotes
      let behind ← place
      match ← faultIn? (content quote escapes) with
      | none => longRest quote escapes steps (quotes ++ taken)
      | some f => refuseAt (if f.final then behind else start)

/-- A text in triple quotes. A line end right after them does not count. -/
def longText (quote : Char) (escapes : Bool) : Reader String := do
  expect [quote, quote, quote]
  let _ ← lineEnd
  surely (longRest quote escapes ((← rest).length + 1) [])

def anyText : Reader String := do
  let s ← rest
  if ['"', '"', '"'].isPrefixOf s then longText '"' true
  else if ['\x27', '\x27', '\x27'].isPrefixOf s then longText '\x27' false
  else if s.head? = some '"' then basicText
  else literalText

-- ---- numbers and dates ---------------------------------------------------

/-- Further digits, with single underscores between them. -/
def moreDigits (isDigit : Char → Bool) : (steps : Nat) → (taken : List Char) → Reader (List Char)
  | 0, taken => return taken.reverse
  | steps + 1, taken => do
    let joined ← accept ['_']
    if joined || (← peek?).any isDigit then
      let c ← surely (next isDigit)
      moreDigits isDigit steps (c :: taken)
    else return taken.reverse

def digitsOf (isDigit : Char → Bool) : Reader (List Char) := do
  let c ← next isDigit
  moreDigits isDigit (← rest).length [c]

def sign : Reader (Option Char) := possibly (next fun c => c == '+' || c == '-')

/-- Digits of a whole number, which has no zero in front. -/
def wholeDigits : Reader (List Char) := do
  match ← rest with
  | '0' :: r =>
    set r
    return ['0']
  | _ => digitsOf Char.isDigit

def inWord (n : Int) : Bool := minInt64 ≤ n && n ≤ maxInt64

/-- A whole number after a lead that tells its base. -/
def basedInteger (start : Place) (base : Nat) (isDigit : Char → Bool) : Reader Int := do
  let ds ← surely (digitsOf isDigit)
  let n : Nat := ds.foldl (fun n c => n * base + (hexValue? c).getD 0) 0
  if inWord n then return n else refuseAt start

def integer : Reader Int := do
  let start ← place
  if ← accept ['0', 'x'] then basedInteger start 16 fun c => (hexValue? c).isSome
  else if ← accept ['0', 'o'] then basedInteger start 8 fun c => '0' ≤ c && c ≤ '7'
  else if ← accept ['0', 'b'] then basedInteger start 2 fun c => c == '0' || c == '1'
  else
    let sign ← sign
    let m : Nat := decimal (← wholeDigits)
    let n : Int := if sign = some '-' then -m else m
    if inWord n then return n else refuseAt start

/-- A number with a fraction or an exponent. Only one that is too large is refused. -/
def finiteFloat : Reader Unit := do
  let start ← place
  let sign ← sign
  let whole ← wholeDigits
  let fraction ← possibly do
    expect ['.']
    surely (digitsOf Char.isDigit)
  let exponent : Option Int ← possibly do
    let _ ← next fun c => c == 'e' || c == 'E'
    let s ← Toml.sign
    let n : Nat := decimal (← surely (digitsOf Char.isDigit))
    return if s = some '-' then -(n : Int) else (n : Int)
  if fraction.isNone ∧ exponent.isNone then refuse
  else
    let digits := fraction.getD []
    let tooLarge := exceedsFloat (decimal (whole ++ digits)) (exponent.getD 0 - digits.length)
    if sign ≠ some '-' ∧ tooLarge then refuseAt start else return

def specialFloat : Reader Unit := do
  let _ ← sign
  if ← accept ['i', 'n', 'f'] then return else expect ['n', 'a', 'n']

def float : Reader Unit := either finiteFloat specialFloat

/-- A number of `count` digits within bounds. -/
def field (count : Nat) (least most : Int) : Reader Int := do
  let s ← rest
  let ds := s.take count
  let n : Int := decimal ds
  if ds.length = count ∧ ds.all Char.isDigit ∧ least ≤ n ∧ n ≤ most then
    set (s.drop count)
    return n
  else refuse

def date : Reader Unit := do
  let y ← field 4 0 9999
  expect ['-']
  surely do
    let m ← field 2 1 12
    expect ['-']
    let start ← place
    let d ← field 2 1 31
    if (⟨y, m, d⟩ : Date).isValid then return else refuseAt start

def timeOfDay : Reader Unit := do
  let _ ← field 2 0 23
  expect [':']
  surely do
    let _ ← field 2 0 59
    expect [':']
    let _ ← field 2 0 60
    let _ ← possibly do
      expect ['.']
      let _ ← next Char.isDigit
      takeWhile Char.isDigit

def offset : Reader Unit := do
  match ← next fun _ => true with
  | 'Z' | 'z' => return
  | '+' | '-' =>
    surely do
      let _ ← field 2 0 23
      expect [':']
      let _ ← field 2 0 59
  | _ => refuse

def dateAndTime : Reader Unit := do
  date
  let _ ← possibly do
    let _ ← next fun c => c == 'T' || c == 't' || c == ' '
    timeOfDay
    possibly offset

def dateTime : Reader Unit := either dateAndTime timeOfDay

def number : Reader Value :=
  either (do dateTime; return .dateTime)
    (either (do float; return .float) (do return .integer (← integer)))

-- ---- keys ----------------------------------------------------------------

def isBareChar (c : Char) : Bool := c.isAlphanum || c == '_' || c == '-'

def nameText : Reader String := do
  match ← peek? with
  | some '"' => basicText
  | some '\x27' => literalText
  | _ =>
    let s ← takeWhile isBareChar
    if s.isEmpty then refuse else return String.ofList s

def name : Reader Segment := do
  skipGap
  let p ← place
  let s ← nameText
  skipGap
  return ⟨s, p⟩

/-- Further names of a key, each after a dot. A dot without a name does not belong to the key. -/
def moreNames : (steps : Nat) → (taken : List Segment) → Reader (List Segment)
  | 0, _ => refuse
  | steps + 1, taken => do
    let further ← possibly do
      expect ['.']
      name
    match further with
    | some n => moreNames steps (n :: taken)
    | none => return taken.reverse

def deepest : Nat := 79

/-- Names with dots between them. -/
def key : Reader (List Segment × Segment) := do
  let start ← rest
  let n ← name
  match splitLast? (← moreNames ((← rest).length + 1) [n]) with
  | some (path, last) =>
    if path.length < deepest then return (path, last)
    else
      set start
      refuse
  | none => refuse

-- ---- values --------------------------------------------------------------

def placed (item : Reader α) : Reader (Place × α) := do
  let p ← place
  return (p, ← item)

/-- Items up to the closing bracket; a comma may follow the last one. -/
def items (item : Reader Value) : (steps : Nat) → (taken : List (Place × Value)) → Reader Value
  | 0, _ => refuse
  | steps + 1, taken => do
    surely skipAll
    if ← accept [']'] then return .list taken.reverse
    else
      let v ← surely (whole do
        let v ← placed item
        skipAll
        return v)
      if ← accept [','] then items item steps (v :: taken)
      else
        surely (expect [']'])
        return .list (v :: taken).reverse

/-- What stands in a table in braces. -/
structure Pair where
  path : List Segment
  name : Segment
  value : Place × Value

def pair (item : Reader Value) : Reader Pair := do
  let (path, last) ← key
  surely do
    expect ['=']
    skipGap
    let v ← placed item
    skipGap
    return ⟨path, last, v⟩

/-- Further pairs, each after a comma. A comma without a pair does not belong to them. -/
def morePairs (item : Reader Value) : (steps : Nat) → (taken : List Pair) → Reader (List Pair)
  | 0, _ => refuse
  | steps + 1, taken => do
    let further ← possibly do
      expect [',']
      pair item
    match further with
    | some p => morePairs item steps (p :: taken)
    | none => return taken.reverse

/-- Pairs of key and value up to the closing brace. -/
def pairs (item : Reader Value) : Reader Value := surely do
  let start ← place
  let ps ← match ← possibly (pair item) with
    | some p => morePairs item (← rest).length [p]
    | none => pure []
  match ps.foldlM (fun es p => Table.addKey .header es p.path p.name p.value) [] with
  | none => refuseAt start
  | some es =>
    skipGap
    expect ['\x7d']
    return .inlineTable es

def scalar : Reader Value := do
  match ← peek? with
  | some '"' | some '\x27' => return .text (← anyText)
  | some 't' =>
    expect ['t', 'r', 'u', 'e']
    return .bool true
  | some 'f' =>
    expect ['f', 'a', 'l', 's', 'e']
    return .bool false
  | _ => number

def value : (depth : Nat) → Reader Value
  | 0 => scalar
  | depth + 1 => do
    if ← accept ['['] then items (value depth) ((← rest).length + 1) []
    else if ← accept ['\x7b'] then pairs (value depth)
    else scalar

-- ---- documents -----------------------------------------------------------

/-- What has been read, and the header that the next lines belong to. -/
structure Document where
  entries : Table
  current : List Segment

/-- A line in front of which there are no blanks. -/
def line (d : Document) : Reader Document := do
  let start ← place
  match ← rest with
  | '#' :: _ =>
    finishLine
    return d
  | ['['] => refuse
  | '[' :: '[' :: _ =>
    expect ['[', '[']
    let (path, last) ← key
    expect [']', ']']
    finishLine
    match d.entries.openItem start path last with
    | some es => return ⟨es, path ++ [last]⟩
    | none => refuseAt start
  | '[' :: _ =>
    expect ['[']
    let (path, last) ← key
    expect [']']
    finishLine
    match d.entries.openTable start path last with
    | some es => return ⟨es, path ++ [last]⟩
    | none => refuseAt start
  | '\n' :: _ | '\r' :: _ => if ← lineEnd then return d else refuse
  | _ =>
    let (path, last) ← key
    expect ['=']
    skipGap
    let v ← placed (value deepest)
    finishLine
    match Table.within .outerHeader (fun o es => Table.addKey o es path last v) d.current .header
        d.entries with
    | some es => return { d with entries := es }
    | none => refuseAt start

def lines : (steps : Nat) → Document → Reader Table
  | 0, _ => refuse
  | steps + 1, d => do
    skipGap
    if (← rest).isEmpty then return d.entries else lines steps (← line d)

def document : Reader Table := do
  let _ ← accept ['\ufeff']
  lines ((← rest).length + 1) ⟨[], []⟩

/-- The table that a text says. -/
def read (text : String) : Except Place Table :=
  match document.run text.toList with
  | .ok (es, _) => .ok es
  | .error f => .error f.place

end EventStore.Toml
