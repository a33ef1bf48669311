import EventStore.Text.Visible

/-!
# Quoted text

A text between double quotes as reports show it, with escapes for quotes, backslashes and all that cannot
be seen.
-/

namespace EventStore.Text

def hexDigit (n : Nat) : Char := if n < 10 then Char.ofNat (48 + n) else Char.ofNat (87 + n)

/-- Lower-case hexadecimal without leading zeros. -/
def hexNat (n : Nat) : String := String.ofList (Nat.toDigits 16 n)

def quoteChar (c : Char) : List Char :=
  match c with
  | '"' => ['\\', '"']
  | '\\' => ['\\', '\\']
  | '\n' => ['\\', 'n']
  | '\r' => ['\\', 'r']
  | '\t' => ['\\', 't']
  | '\x00' => ['\\', '0']
  | c => if isVisible c then [c] else ['\\', 'u', '\x7b'] ++ (hexNat c.toNat).toList ++ ['\x7d']

def quoted (s : String) : String :=
  "\"" ++ String.ofList (s.toList.flatMap quoteChar) ++ "\""

/-- A path is quoted with single quotes escaped too. -/
def quotedPath (s : String) : String :=
  "\"" ++ String.ofList (s.toList.flatMap fun c => if c = '\x27' then ['\\', c] else quoteChar c) ++ "\""

end EventStore.Text
