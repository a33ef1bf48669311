import EventStore.Query.Error
import EventStore.Text.Blank
import EventStore.Text.Number

/-!
# Reading a query

```text
Or       := And ("or" And)*
And      := NotEqual ("and" NotEqual)*
NotEqual := Equal (("!=" | "!") Equal)*
Equal    := Operand ("=" Operand)*
Operand  := "(" Or ")" | quoted value | integer | "null" | name
```

Chains lean left. Tokens may be set apart by spaces, tabs and line ends; `and`, `or` and `null` are read
in either case and end where a word ends. A word is a longest run of name characters, so in an operand's
place `and` is a name. Every step returns a rest that is shorter than its input, which bounds the
reading.
-/

namespace EventStore.Query

open Text

def isGap (c : Char) : Bool := c == ' ' || c == '\t' || c == '\r' || c == '\n'

def isNameChar (c : Char) : Bool :=
  !isBlank c && c != '(' && c != ')' && c != '"' && c != '=' && c != '!'

def skipGap (s : List Char) : List Char := s.dropWhile isGap

/-- `s` without a leading `word`, in either case, where a word ends after it. -/
def keyword? (word s : List Char) : Option (List Char) :=
  if (s.takeWhile isNameChar).map Char.toLower = word then some (s.dropWhile isNameChar) else none

/-- What follows the operator, if `s` starts with it after a gap. -/
def Op.strip? (op : Op) (s : List Char) : Option (List Char) :=
  match op, skipGap s with
  | .or, s => keyword? ['o', 'r'] s
  | .and, s => keyword? ['a', 'n', 'd'] s
  | .notEqual, '!' :: '=' :: r => some r
  | .notEqual, '!' :: r => some r
  | .equal, '=' :: r => some r
  | _, _ => none

/-- An optional minus sign and digits, within 64 bits. -/
def integer? (word : List Char) : Option Int :=
  let digits := match word with
    | '-' :: r => r
    | s => s
  if digits.isEmpty then none
  else if digits.all Char.isDigit then (readInt minInt64 maxInt64 word).toOption
  else none

/-- What a word means in an operand's place; a word that starts with a digit and is no integer has no
meaning. -/
def Expr.ofWord? (word : List Char) : Option Expr :=
  match integer? word with
  | some n => some (.integer n)
  | none =>
    if word.map Char.toLower = ['n', 'u', 'l', 'l'] then some .null
    else match word with
      | [] => none
      | c :: _ => if c.isDigit then none else some (.name (String.ofList word))

/-- Where the reading cannot go on. -/
structure Stuck where
  rest : List Char
  wanted : Wanted

def Stuck.problem (k : Stuck) : SyntaxProblem :=
  match k.rest with
  | [] => .endOfQuery
  | c :: _ => .unexpectedChar c k.wanted

-- ---- what each step leaves ----------------------------------------------

theorem length_dropWhile_le (p : Char → Bool) (s : List Char) : (s.dropWhile p).length ≤ s.length :=
  (List.dropWhile_sublist p).length_le

theorem length_skipGap_le (s : List Char) : (skipGap s).length ≤ s.length := length_dropWhile_le _ s

theorem keyword?_shorter {word s r : List Char} (hw : word ≠ []) (h : keyword? word s = some r) :
    r.length < s.length := by
  unfold keyword? at h
  split at h
  next he =>
    cases h
    cases s with
    | nil => simp at he; exact absurd he hw
    | cons c s =>
      by_cases hc : isNameChar c
      · have := length_dropWhile_le isNameChar s
        simp [hc]; omega
      · simp [hc] at he
        exact absurd he hw
  next => simp at h

theorem Op.strip?_shorter {op : Op} {s r : List Char} (h : op.strip? s = some r) :
    r.length < s.length := by
  have hs := length_skipGap_le s
  unfold Op.strip? at h
  split at h
  · exact Nat.lt_of_lt_of_le (keyword?_shorter (by simp) h) hs
  · exact Nat.lt_of_lt_of_le (keyword?_shorter (by simp) h) hs
  all_goals first
    | (next he => cases h; rw [he] at hs; simp at hs; omega)
    | simp at h

theorem Expr.ofWord?_nil : ofWord? [] = none := by
  simp [ofWord?, integer?]

-- ---- the grammar ---------------------------------------------------------

/-- The operator one step tighter; `none` is an operand. -/
def Op.tighter : Op → Option Op
  | .or => some .and
  | .and => some .notEqual
  | .notEqual => some .equal
  | .equal => none

/-- How far a chain is from an operand. -/
def Op.rank : Option Op → Nat
  | some .or => 5
  | some .and => 4
  | some .notEqual => 3
  | some .equal => 2
  | none => 1

theorem Op.rank_tighter (op : Op) : rank op.tighter < rank (some op) := by
  cases op <;> decide

mutual

/-- A chain of `op` with its operands, or with `none` a single operand. -/
def readChain (op : Option Op) (s : List Char) :
    Except Stuck (Expr × { r : List Char // r.length < s.length }) :=
  match op with
  | none => readOperand s
  | some op =>
    match readChain op.tighter s with
    | .error k => .error k
    | .ok (first, ⟨r, h⟩) =>
      match readMore op first r with
      | .error k => .error k
      | .ok (e, ⟨r', h'⟩) => .ok (e, ⟨r', by omega⟩)
termination_by 6 * s.length + Op.rank op
decreasing_by
  · simp [Op.rank]
  · have := Op.rank_tighter op; omega
  · have : Op.rank (some op) ≥ 1 := by cases op <;> decide
    omega

/-- Takes further operands of `op` to the right of `left`. -/
def readMore (op : Op) (left : Expr) (s : List Char) :
    Except Stuck (Expr × { r : List Char // r.length ≤ s.length }) :=
  match h : op.strip? s with
  | none => .ok (left, ⟨s, Nat.le_refl _⟩)
  | some r =>
    have := Op.strip?_shorter h
    match readChain op.tighter r with
    | .error k => .error k
    | .ok (right, ⟨r₁, h₁⟩) =>
      match readMore op (.binary op left right) r₁ with
      | .error k => .error k
      | .ok (e, ⟨r₂, h₂⟩) => .ok (e, ⟨r₂, by omega⟩)
termination_by 6 * s.length
decreasing_by
  · have : Op.rank op.tighter ≤ 5 := by cases op <;> decide
    omega
  · omega

def readOperand (s : List Char) : Except Stuck (Expr × { r : List Char // r.length < s.length }) :=
  match h : skipGap s with
  | '(' :: r =>
    have hs := length_skipGap_le s
    match readChain (some .or) r with
    | .error k => .error k
    | .ok (inner, ⟨r₁, h₁⟩) =>
      match h₂ : skipGap r₁ with
      | ')' :: r₂ => .ok (.group inner, ⟨r₂, by
          have := length_skipGap_le r₁
          simp [h, h₂] at *; omega⟩)
      | rest => .error ⟨rest, .closing⟩
  | '"' :: r =>
    match h₁ : r.dropWhile (· != '"') with
    | _ :: r₁ => .ok (.quoted (String.ofList (r.takeWhile (· != '"'))), ⟨r₁, by
        have := length_skipGap_le s
        have := length_dropWhile_le (· != '"') r
        simp [h, h₁] at *; omega⟩)
    | [] => .error ⟨[], .closing⟩
  | t =>
    match h₁ : Expr.ofWord? (t.takeWhile isNameChar) with
    | some e => .ok (e, ⟨t.dropWhile isNameChar, by
        have hs := length_skipGap_le s
        cases t with
        | nil => simp [Expr.ofWord?_nil] at h₁
        | cons c t =>
          by_cases hc : isNameChar c
          · have := length_dropWhile_le isNameChar t
            simp [h, hc] at *; omega
          · simp [hc, Expr.ofWord?_nil] at h₁⟩)
    | none => .error ⟨t, .operand⟩
termination_by 6 * s.length
decreasing_by
  have : Op.rank (some .or) = 5 := rfl
  simp [h] at hs; omega

end

/-- The expression of a whole query. Positions are those of the first character that does not fit, in
bytes; white space may follow the expression. -/
def parse (query : String) : Except QueryError Expr :=
  let s := query.toList
  if s.all isBlank then .error (.malformed 0 .emptyQuery)
  else
    match readChain (some .or) s with
    | .error k => .error (.malformed (byteLength s - byteLength k.rest) k.problem)
    | .ok (e, r) =>
      let rest := dropBlanks r.1
      if rest.isEmpty then .ok e
      else .error (.malformed (byteLength s - byteLength rest) (.unexpectedRest (String.ofList rest)))

end EventStore.Query
