/-!
# Media types

Which media types announce JSON: `application/json` and the types whose suffix is `json`, whatever their
parameters. A text that is no media type announces nothing.
-/

namespace EventStore.Api.ContentType

def isTokenChar (c : Char) : Bool := c.isAlphanum || "!#$%&'*+-.^_`|~".toList.contains c

/-- Any character that may stand in quotes. -/
def isQuotedChar (c : Char) : Bool := 31 < c.toNat && c.toNat < 127

/-- What follows the value of a parameter and the semicolon after it. -/
def afterValue? : List Char → Option (List Char)
  | '"' :: c :: r =>
    let inside := (c :: r.takeWhile (· != '"')).all isQuotedChar
    match r.dropWhile (· != '"') with
    | _ :: r =>
      match r.dropWhile (· == ' ') with
      | [] => if inside then some [] else none
      | ';' :: r => if inside then some r else none
      | _ => none
    | [] => none
  | s =>
    match s.dropWhile isTokenChar with
    | [] => some []
    | ';' :: r => if (s.takeWhile isTokenChar).isEmpty then none else some r
    | _ => none

/-- Whether parameters are well formed; every parameter takes a step. -/
def areParameters : (steps : Nat) → List Char → Bool
  | 0, _ => false
  | steps + 1, s =>
    match s.dropWhile (· == ' ') with
    | [] => true
    | s =>
      match s.dropWhile isTokenChar with
      | '=' :: r =>
        !(s.takeWhile isTokenChar).isEmpty &&
          match afterValue? r with
          | some r => areParameters steps r
          | none => false
      | _ => false

def json : List Char := ['j', 's', 'o', 'n']

/-- A subtype is that of JSON by itself or by its suffix. -/
def isJsonSubtype (s : List Char) : Bool :=
  match (s.drop 1).reverse.span (· != '+') with
  | (tail, _ :: front) => tail.reverse == json || s.take 1 ++ front.reverse == json
  | (_, []) => s == json

def isJson (text : String) : Bool :=
  let s := text.toList.map Char.toLower
  if (s.takeWhile isTokenChar) = "application".toList then
    match s.dropWhile isTokenChar with
    | '/' :: r =>
      let subtype := r.takeWhile isTokenChar
      isJsonSubtype subtype &&
        match r.dropWhile isTokenChar with
        | [] => true
        | ';' :: p => areParameters (p.length + 1) p
        | _ => false
    | _ => false
  else false

end EventStore.Api.ContentType
