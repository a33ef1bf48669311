import EventStore.Command.Usage

/-!
# Reading arguments

The common options may stand in front of a command and after it; after it they count first. A value
follows its option as the next argument, or in the same one after `=`; after a letter it may also follow at
once. Letters of switches may be joined. After `--` nothing is an option.
-/

namespace EventStore.Command

/-- Why there is no command to run. -/
inductive Stop
  | misuse
  | help (page : HelpPage)
  | version
  deriving DecidableEq, Repr

-- ---- the arguments on one side of the command ----------------------------

structure Level where
  page : HelpPage
  parameters : List Parameter
  capacity : Nat
  /-- Options by name, with their values. -/
  given : List (String × String)
  /-- An option that is not settled yet. Its value may be still to come. -/
  pending : Option (Parameter × Option String)
  /-- Whether nothing more is an option. -/
  literal : Bool
  operands : List String

namespace Level

def fresh (page : HelpPage) (parameters : List Parameter) (capacity : Nat) : Level :=
  ⟨page, parameters, capacity, [], none, false, []⟩

/-- No option is given twice. -/
def give (l : Level) (p : Parameter) (value : String) : Except Stop Level :=
  if (p.isPath && value.isEmpty) || l.given.any (·.1 == p.name) then .error .misuse
  else .ok { l with given := l.given ++ [(p.name, value)] }

def settle (l : Level) : Except Stop Level :=
  match l.pending with
  | none => .ok l
  | some (_, none) => .error .misuse
  | some (p, some value) => { l with pending := none }.give p value

def takeOption (l : Level) (p : Parameter) (attached : Option String) : Except Stop Level := do
  match p.value, attached with
  | none, some _ => .error .misuse
  | none, none =>
    let l ← l.settle
    if p = .help then .error (.help l.page)
    else if p = .version then .error .version
    else l.give p ""
  | some _, some value =>
    let l ← l.settle
    l.give p value
  | some _, none =>
    let l ← l.settle
    return { l with pending := some (p, none) }

def takeNamed (l : Level) (s : List Char) : Except Stop Level :=
  let name := String.ofList (s.takeWhile (· != '='))
  let value := match s.dropWhile (· != '=') with
    | _ :: rest => some (String.ofList rest)
    | [] => none
  match l.parameters.find? (·.name == name) with
  | some p => l.takeOption p value
  | none => .error .misuse

/-- What follows a letter in the same argument, as a value. -/
def attachedValue : List Char → Option String
  | [] => none
  | '=' :: rest => some (String.ofList rest)
  | rest => some (String.ofList rest)

def takeLetters (l : Level) : List Char → Except Stop Level
  | [] => .ok l
  | c :: rest =>
    match l.parameters.find? (·.letter == some c) with
    | none => .error .misuse
    | some p =>
      if p.value.isSome then l.takeOption p (attachedValue rest)
      else do (← l.takeOption p none).takeLetters rest

def takeOperand (l : Level) (s : String) : Except Stop Level := do
  let l ← l.settle
  if l.operands.length < l.capacity then return { l with operands := l.operands ++ [s] }
  else .error .misuse

/-- Whether the next argument is to be the value of an option. -/
def isWaiting (l : Level) : Bool :=
  match l.pending with
  | some (_, none) => true
  | _ => false

def take (l : Level) (argument : String) : Except Stop Level :=
  if l.literal then l.takeOperand argument
  else
    match argument.toList with
    | ['-', '-'] => if l.isWaiting then .error .misuse else .ok { l with literal := true }
    | '-' :: '-' :: name => l.takeNamed name
    | '-' :: c :: rest => l.takeLetters (c :: rest)
    | _ =>
      match l.pending with
      | some (p, none) => .ok { l with pending := some (p, some argument) }
      | _ => l.takeOperand argument

def value? (l : Level) (p : Parameter) : Option String := l.given.lookup p.name

def has (l : Level) (p : Parameter) : Bool := (l.value? p).isSome

end Level

-- ---- all arguments -------------------------------------------------------

inductive Place
  | outside
  | within (v : Verb) (l : Level)
  /-- After the command that shows help. -/
  | asking (names : List String)

structure Reading where
  outer : Level
  place : Place

namespace Reading

def start : Reading := ⟨.fresh .program outerParameters 0, .outside⟩

def within (v : Verb) : Place :=
  .within v (.fresh (.verb v) v.parameters v.operand?.toList.length)

def take (r : Reading) (argument : String) : Except Stop Reading :=
  match r.place with
  | .asking names => .ok { r with place := .asking (names ++ [argument]) }
  | .within v l => do return { r with place := .within v (← l.take argument) }
  | .outside =>
    let free := !r.outer.literal && !r.outer.isWaiting
    match Verb.ofName? argument with
    | some v => if free then .ok { r with place := within v } else outward
    | none => if free && argument == "help" then .ok { r with place := .asking [] } else outward
where
  outward : Except Stop Reading := do return { r with outer := ← r.outer.take argument }

end Reading

/-- The page that a list of names asks for. -/
def pageOf? : List String → Option HelpPage
  | [] => some .program
  | ["help"] => some .help
  | [name] => (Verb.ofName? name).map .verb
  | _ => none

inductive Task
  | query (text last : String) (all : Bool)
  | count (text last : String)
  | buckets
  | ingest (path : String)
  | purge (confirmed : Bool)
  | lock
  | unlock
  | sweep
  /-- The standard configuration, to a file or to the output. -/
  | config (output : Option String)
  deriving DecidableEq, Repr

structure Arguments where
  task : Task
  configFile : Option String
  dataDir : Option String
  format : String
  deriving DecidableEq, Repr

namespace Arguments

def isJson (a : Arguments) : Bool := a.format == "json"

def valueOr (l : Level) (p : Parameter) : String := (l.value? p).getD (p.standard.getD "")

def task? (v : Verb) (l : Level) : Option Task :=
  let operand := l.operands.head?.or (v.operand?.bind (·.standard))
  match v with
  | .query => operand.map fun text => .query text (valueOr l .last) (l.has .all)
  | .count => operand.map fun text => .count text (valueOr l .last)
  | .buckets => some .buckets
  | .ingest => operand.bind fun path => if path.isEmpty then none else some (.ingest path)
  | .purge => some (.purge (l.has .yes))
  | .lock => some .lock
  | .unlock => some .unlock
  | .sweep => some .sweep
  | .config => some (.config (l.value? .output))

def ofReading (r : Reading) : Except Stop Arguments :=
  match r.place with
  | .outside => .error .misuse
  | .asking names => .error ((pageOf? names).elim .misuse .help)
  | .within v l => do
    let l ← l.settle
    let outer ← r.outer.settle
    let common (p : Parameter) := (l.value? p).or (outer.value? p)
    match task? v l with
    | some task => return ⟨task, common .configFile, common .dataDir,
        (common .format).getD (valueOr l .format)⟩
    | none => .error .misuse

def read (arguments : List String) : Except Stop Arguments := do
  ofReading (← arguments.foldlM Reading.take .start)

end Arguments

end EventStore.Command
