import EventStore.Text.Number
import EventStore.Text.Quoted

/-!
# JSON texts

The JSON values that reports are made of, on one line or indented.
-/

namespace EventStore.Json

inductive Value
  | null
  | bool (b : Bool)
  | number (n : Int)
  | text (s : String)
  | list (items : List Value)
  | object (members : List (String × Value))
  deriving Repr, Inhabited

/-- Quotes, backslashes and control characters are escaped, all else stands for itself. -/
def quoteChar (c : Char) : List Char :=
  match c with
  | '"' => ['\\', '"']
  | '\\' => ['\\', '\\']
  | '\x08' => ['\\', 'b']
  | '\x0c' => ['\\', 'f']
  | '\n' => ['\\', 'n']
  | '\r' => ['\\', 'r']
  | '\t' => ['\\', 't']
  | c => if c.toNat < 0x20 then
      ['\\', 'u', '0', '0', Text.hexDigit (c.toNat / 16), Text.hexDigit (c.toNat % 16)]
    else [c]

def quoted (s : String) : String := "\"" ++ String.ofList (s.toList.flatMap quoteChar) ++ "\""

namespace Value

def count (n : Nat) : Value := number n

mutual

/-- Without any white space. -/
def compact : Value → String
  | null => "null"
  | bool true => "true"
  | bool false => "false"
  | number n => toString n
  | text s => quoted s
  | list items => "[" ++ ",".intercalate (compactItems items) ++ "]"
  | object members => "\x7b" ++ ",".intercalate (compactMembers members) ++ "\x7d"

def compactItems : List Value → List String
  | [] => []
  | v :: rest => v.compact :: compactItems rest

def compactMembers : List (String × Value) → List String
  | [] => []
  | (name, v) :: rest => (quoted name ++ ":" ++ v.compact) :: compactMembers rest

end

def indent (depth : Nat) : String := String.ofList (List.replicate (2 * depth) ' ')

/-- Lines between two brackets, set off by two blanks a level. -/
def bracketed (depth : Nat) (opening closing : String) (lines : List String) : String :=
  if lines.isEmpty then opening ++ closing
  else
    let edge := "\n" ++ indent (depth + 1)
    opening ++ edge ++ ("," ++ edge).intercalate lines ++ "\n" ++ indent depth ++ closing

mutual

/-- One line for each item and member. -/
def indented (depth : Nat) : Value → String
  | list items => bracketed depth "[" "]" (indentedItems (depth + 1) items)
  | object members => bracketed depth "\x7b" "\x7d" (indentedMembers (depth + 1) members)
  | null => "null"
  | bool true => "true"
  | bool false => "false"
  | number n => toString n
  | text s => quoted s

def indentedItems (depth : Nat) : List Value → List String
  | [] => []
  | v :: rest => v.indented depth :: indentedItems depth rest

def indentedMembers (depth : Nat) : List (String × Value) → List String
  | [] => []
  | (name, v) :: rest => (quoted name ++ ": " ++ v.indented depth) :: indentedMembers depth rest

end

end Value

end EventStore.Json
