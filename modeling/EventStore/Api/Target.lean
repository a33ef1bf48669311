/-!
# Request targets

What a request is aimed at: a path, which may end in a query and a fragment, or the same with a scheme and
an authority in front, or an authority alone, or a star. Only the path leads anywhere.
-/

namespace EventStore.Api.Target

inductive Problem
  | empty
  | tooLong
  | badCharacter
  | badAuthority
  | badForm
  | longScheme
  deriving DecidableEq, Repr

def Problem.message : Problem → String
  | empty => "empty string"
  | tooLong => "uri too long"
  | badCharacter => "invalid uri character"
  | badAuthority => "invalid authority"
  | badForm => "invalid format"
  | longScheme => "scheme too long"

/-- In bytes. -/
def longest : Nat := 65534

def longestScheme : Nat := 64

-- ---- schemes -------------------------------------------------------------

def isSchemeChar (c : Char) : Bool := c.isAlphanum || c == '+' || c == '-' || c == '.' || c == '~'

/-- What follows a scheme, if there is one in front. -/
def afterScheme? (s : List Char) : Except Problem (Option (List Char)) :=
  match s.dropWhile isSchemeChar with
  | ':' :: '/' :: '/' :: rest =>
    if longestScheme < (s.takeWhile isSchemeChar).length then .error .longScheme else .ok (some rest)
  | _ => .ok none

-- ---- authorities ---------------------------------------------------------

/-- What has been seen of an authority. Colons and percent signs count from the last `@` or `]` on. -/
structure Authority where
  colons : Nat
  opened : Bool
  closed : Bool
  percent : Bool
  last : Option Char

namespace Authority

def mostColons : Nat := 8

def isPlain (c : Char) : Bool := c.isAlphanum || "!$&'()*+,-.;=_~".toList.contains c

def take (a : Authority) (c : Char) : Except Problem Authority :=
  let a := { a with last := some c }
  match c with
  | ':' => if a.colons < mostColons then .ok { a with colons := a.colons + 1 } else .error .badAuthority
  | '[' => if a.percent || a.opened then .error .badAuthority else .ok { a with opened := true }
  | ']' =>
    if !a.opened || a.closed then .error .badAuthority
    else .ok { a with closed := true, colons := 0, percent := false }
  | '@' => .ok { a with colons := 0, percent := false }
  | '%' => .ok { a with percent := true }
  | c => if isPlain c then .ok a else .error .badCharacter

/-- A host has at most one colon, in front of its port. -/
def isComplete (a : Authority) : Bool :=
  a.opened == a.closed && a.colons ≤ 1 && a.last != some '@' && !a.percent

def takeAll (a : Authority) : List Char → Except Problem Authority
  | [] => if a.isComplete then .ok a else .error .badAuthority
  | c :: rest => do (← a.take c).takeAll rest

def endsAt (c : Char) : Bool := c == '/' || c == '?' || c == '#'

end Authority

/-- The length of the authority in front, which may be none, and what follows it. -/
def authority (s : List Char) : Except Problem (Nat × List Char) := do
  let front := s.takeWhile (!Authority.endsAt ·)
  let _ ← Authority.takeAll ⟨0, false, false, false, none⟩ front
  return (front.length, s.drop front.length)

-- ---- paths ---------------------------------------------------------------

def isPathChar (c : Char) : Bool := 0x20 < c.toNat && c != '<' && c != '>' && c != '\x60'

def isQueryChar (c : Char) : Bool := 0x20 < c.toNat && c != '<' && c != '>' && c != '"'

/-- The path in front of a query and a fragment. -/
def pathOf (s : List Char) : Except Problem String :=
  let s := s.takeWhile (· != '#')
  if (s.takeWhile (· != '?')).all isPathChar && (s.dropWhile (· != '?')).all isQueryChar then
    .ok (String.ofList (s.takeWhile (· != '?')))
  else .error .badCharacter

-- ---- targets -------------------------------------------------------------

/-- The path of a target. An authority alone has none. -/
def path (text : String) : Except Problem String :=
  if longest < text.utf8ByteSize then .error .tooLong
  else
    match text.toList with
    | [] => .error .empty
    | ['*'] => .ok "*"
    | '/' :: rest => pathOf ('/' :: rest)
    | s => do
      match ← afterScheme? s with
      | some rest =>
        let (length, rest) ← authority rest
        if length = 0 then throw .badForm
        else
          let p ← pathOf rest
          return if p.isEmpty then "/" else p
      | none =>
        let (_, rest) ← authority s
        if rest.isEmpty then return ""
        else throw (if s.length = 1 then .badCharacter else .badForm)

end EventStore.Api.Target
