import EventStore.Text.Number

/-!
# The commands and what they take

Every command with its options and operands, and the pages that tell of them.
-/

namespace EventStore.Command

def program : String := "optics-cli"

def version : String := "0.1.0"

def about : String := "Inspect and administer an Optics data directory"

/-- An option. -/
structure Parameter where
  name : String
  letter : Option Char
  /-- What stands for its value; a switch has none. -/
  value : Option String
  /-- A path cannot be empty. -/
  isPath : Bool
  standard : Option String
  note : String
  deriving DecidableEq, Repr

structure Operand where
  name : String
  required : Bool
  /-- A path cannot be empty. -/
  isPath : Bool
  standard : Option String
  note : String
  deriving DecidableEq, Repr

inductive Verb
  | query
  | count
  | buckets
  | ingest
  | purge
  | lock
  | unlock
  | sweep
  | config
  deriving DecidableEq, Repr

-- ---- options -------------------------------------------------------------

namespace Parameter

def configFile : Parameter :=
  ⟨"config", some 'c', some "CONFIG", true, none, "Config file (default: search the standard locations)"⟩

def dataDir : Parameter :=
  ⟨"data-dir", some 'd', some "DATA_DIR", false, none, "Data directory, overrides the config"⟩

def format : Parameter :=
  ⟨"format", some 'f', some "FORMAT", false, some "table", "Output format (table, json)"⟩

def last : Parameter :=
  ⟨"last", some 'l', some "LAST", false, some "1h", "Time range ending now (e.g., 30m, 6h, 1d)"⟩

def all : Parameter :=
  ⟨"all", some 'a', none, false, none, "Follow continuation tokens through every page"⟩

def yes : Parameter := ⟨"yes", none, none, false, none, "Confirm the purge"⟩

def output : Parameter :=
  ⟨"output", some 'o', some "OUTPUT", true, none, "Output path (default: stdout)"⟩

def help : Parameter := ⟨"help", some 'h', none, false, none, "Print help"⟩

def version : Parameter := ⟨"version", some 'V', none, false, none, "Print version"⟩

/-- Options of every command, which may also stand in front of it. -/
def common : List Parameter := [configFile, dataDir, format]

/-- How it is written, with its value. -/
def form (p : Parameter) : String :=
  "--" ++ p.name ++ (p.value.elim "" fun v => " <" ++ v ++ ">")

end Parameter

-- ---- commands ------------------------------------------------------------

namespace Verb

def all : List Verb := [query, count, buckets, ingest, purge, lock, unlock, sweep, config]

def name : Verb → String
  | query => "query"
  | count => "count"
  | buckets => "buckets"
  | ingest => "ingest"
  | purge => "purge"
  | lock => "lock"
  | unlock => "unlock"
  | sweep => "sweep"
  | config => "config"

def ofName? (s : String) : Option Verb := all.find? (·.name == s)

def about : Verb → String
  | query => "Print matching events"
  | count => "Count matching events"
  | buckets => "List buckets"
  | ingest => "Ingest events from a JSON lines file (\"-\" for stdin)"
  | purge => "Drop every unlocked bucket"
  | lock => "Protect all buckets from eviction"
  | unlock => "Re-enable eviction"
  | sweep => "Run the retention sweep now"
  | config => "Generate default config file"

def own : Verb → List Parameter
  | query => [.last, .all]
  | count => [.last]
  | purge => [.yes]
  | config => [.output]
  | _ => []

def operand? : Verb → Option Operand
  | query => some ⟨"QUERY", false, false, some "",
      "Filter expression, e.g. 'LOG_LEVEL=\"ERROR\" and host=\"web1\"'"⟩
  | count => some ⟨"QUERY", false, false, some "", ""⟩
  | ingest => some ⟨"PATH", true, true, none, ""⟩
  | _ => none

/-- Its own options come first. -/
def parameters (v : Verb) : List Parameter := v.own ++ Parameter.common ++ [.help]

theorem ofName?_name (v : Verb) : ofName? v.name = some v := by
  cases v <;> decide

end Verb

/-- The options in front of a command. -/
def outerParameters : List Parameter := Parameter.common ++ [.help, .version]

-- ---- pages of help -------------------------------------------------------

inductive HelpPage
  | program
  | verb (v : Verb)
  /-- On the command that shows help. -/
  | help
  deriving DecidableEq, Repr

namespace HelpPage

def helpAbout : String := "Print this message or the help of the given subcommand(s)"

/-- A text with the value that stands in for a missing one. An empty value is shown in quotes. -/
def withStandard (note : String) (standard : Option String) : String :=
  match standard with
  | none => note
  | some s => (if note.isEmpty then "" else note ++ " ") ++
      "[default: " ++ (if s.isEmpty then "\"\"" else s) ++ "]"

/-- A column of forms with the texts on them. -/
def columns (rows : List (String × String)) : List String :=
  let width := (rows.map (·.1.length)).foldl max 0
  rows.map fun (form, text) => "  " ++ Text.padRight ' ' width form ++ "  " ++ text

def optionRow (p : Parameter) : String × String :=
  ((p.letter.elim "    " fun c => String.ofList ['-', c, ',', ' ']) ++ p.form,
    withStandard p.note p.standard)

def operandForm (o : Operand) : String :=
  if o.required then "<" ++ o.name ++ ">" else "[" ++ o.name ++ "]"

def operandRow (o : Operand) : String × String := (operandForm o, withStandard o.note o.standard)

def part (title : String) (rows : List (String × String)) : List String :=
  if rows.isEmpty then [] else "" :: title :: columns rows

def lines : HelpPage → List String
  | program =>
    [about, "", s!"Usage: {Command.program} [OPTIONS] <COMMAND>"] ++
      part "Commands:" ((Verb.all.map fun v => (v.name, v.about)) ++ [("help", helpAbout)]) ++
      part "Options:" (outerParameters.map optionRow)
  | verb v =>
    let operands := v.operand?.toList
    [v.about, "",
      String.intercalate " " (["Usage:", Command.program, v.name, "[OPTIONS]"] ++ operands.map operandForm)] ++
      part "Arguments:" (operands.map operandRow) ++
      part "Options:" (v.parameters.map optionRow)
  | help =>
    [helpAbout, "", s!"Usage: {Command.program} help [COMMAND]..."] ++
      part "Arguments:" [("[COMMAND]...", "Print help for the subcommand(s)")]

def text (p : HelpPage) : String := String.join (p.lines.map (· ++ "\n"))

end HelpPage

end EventStore.Command
