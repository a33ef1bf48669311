import EventStore.Text.Blank

/-!
# TOML documents

The values of a TOML document and its tables as they grow line by line. A table remembers how it came to
be, because that decides what may be added to it later. Every name and every value remembers where it
stands in the text. A table that is only named on the way to others stands nowhere itself, and counts as
standing where its name does.
-/

namespace EventStore.Toml

/-- A place in a text, by the number of characters from there to the end. -/
abbrev Place := Nat

/-- How a table was first written. -/
inductive Origin
  /-- Under a header of its own, or as the whole document. -/
  | header
  /-- Only in front of the last name of a header. -/
  | outerHeader
  /-- Only in front of the last name of a dotted key. -/
  | dottedKey
  deriving DecidableEq, Repr

/-- A name in a key or a header. -/
structure Segment where
  text : String
  place : Place
  deriving DecidableEq, Repr

inductive Value
  | text (s : String)
  | integer (n : Int)
  | float
  | bool (b : Bool)
  | dateTime
  | list (items : List (Place × Value))
  /-- In braces, and complete with the closing one. -/
  | inlineTable (entries : List (Segment × Place × Value))
  | table (origin : Origin) (entries : List (Segment × Place × Value))
  /-- Tables under headers in double brackets. -/
  | tables (items : List (Place × List (Segment × Place × Value)))
  deriving Inhabited

abbrev Table := List (Segment × Place × Value)

/-- Whether it stands in a place of its own. -/
def Value.isPlaced : Value → Bool
  | .table .outerHeader _ | .table .dottedKey _ => false
  | _ => true

namespace Table

def get? (es : Table) (name : String) : Option (Place × Value) := (es.find? (·.1.text == name)).map (·.2)

def replace (es : Table) (name : String) (v : Place × Value) : Table :=
  es.map fun (k, old) => if k.text = name then (k, v) else (k, old)

def erase (es : Table) (name : String) : Table := es.filter (·.1.text != name)

/-- Changes what a path leads to, through tables that are made as `made` if they do not exist. A dotted
key does not lead into a table that has a header. -/
def within (made : Origin) (change : Origin → Table → Option Table) :
    (path : List Segment) → Origin → Table → Option Table
  | [], origin, es => change origin es
  | name :: path, _, es =>
    match es.get? name.text with
    | none => do
      let inner ← within made change path made []
      return es ++ [(name, name.place, .table made inner)]
    | some (p, .table origin inner) =>
      if made = .dottedKey ∧ origin = .header then none
      else do
        let inner ← within made change path origin inner
        return es.replace name.text (p, .table origin inner)
    | some (p, .tables items) =>
      match items.getLast? with
      | none => none
      | some (q, last) => do
        let last ← within made change path .header last
        return es.replace name.text (p, .tables (items.dropLast ++ [(q, last)]))
    | some _ => none

/-- Adds a value under a key of one or more names. -/
def addKey (origin : Origin) (es : Table) (path : List Segment) (name : Segment) (v : Place × Value) :
    Option Table :=
  within .dottedKey (fun o es =>
    if (o == .dottedKey) == path.isEmpty ∨ (es.get? name.text).isSome then none
    else some (es ++ [(name, v)])) path origin es

/-- Opens the table that the header at `place` names. A table that has been named before becomes the last
one. -/
def openTable (place : Place) (es : Table) (path : List Segment) (name : Segment) : Option Table :=
  within .outerHeader (fun _ es =>
    match es.get? name.text with
    | none => some (es ++ [(name, place, .table .header [])])
    | some (_, .table .outerHeader inner) =>
      some (es.erase name.text ++ [(name, place, .table .header inner)])
    | some _ => none) path .header es

/-- Adds a table to the list that the header at `place` names. -/
def openItem (place : Place) (es : Table) (path : List Segment) (name : Segment) : Option Table :=
  within .outerHeader (fun _ es =>
    match es.get? name.text with
    | none => some (es ++ [(name, place, .tables [(place, [])])])
    | some (p, .tables items) => some (es.replace name.text (p, .tables (items ++ [(place, [])])))
    | some _ => none) path .header es

end Table

/-- A path and the name at its end. -/
def splitLast? (names : List Segment) : Option (List Segment × Segment) :=
  names.getLast?.map fun last => (names.dropLast, last)

/-- A place for readers. Both counts start at one. -/
structure Position where
  line : Nat
  column : Nat
  deriving DecidableEq, Repr

/-- The end of the text is a place in the line of the last character, even if that ends the line. Columns
count characters, but in front of a character of several bytes they count bytes. -/
def positionIn (text : List Char) (place : Place) : Position :=
  let offset := text.length - place
  let near := min offset (text.length - 1)
  let before := text.take near
  let line := (before.reverse.takeWhile (· != '\n')).reverse
  let wide := text[offset]?.any (1 < ·.utf8Size)
  ⟨before.count '\n' + 1, (if wide then Text.byteLength line else line.length) + (offset - near) + 1⟩

end EventStore.Toml
