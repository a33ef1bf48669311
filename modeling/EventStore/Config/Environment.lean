import EventStore.Config.Basic
import EventStore.Text.Number

/-!
# The environment

What environment variables and the usual places for files say about the configuration.
-/

namespace EventStore

structure Config where
  storage : Config.StorageSection
  optics : Config.EngineSection
  api : Config.ServerSection
  logging : Config.LogSection
  deriving DecidableEq, Repr

namespace Config

/-- Variables with their values. -/
abbrev Environment := List (String × String)

namespace Environment

/-- The variables that matter. -/
def names : List String := [
  "HOME", "XDG_CONFIG_HOME", "XDG_DATA_HOME", "OPTICS_DATA_DIR", "OPTICS_STORE", "OPTICS_API_HOST",
  "OPTICS_API_PORT", "OPTICS_PAGE_SIZE", "OPTICS_LOG_LEVEL", "OPTICS_LOG_FORMAT"]

def get? (env : Environment) (name : String) : Option String := env.lookup name

def joinPath (a b : String) : String := if a.endsWith "/" then a ++ b else a ++ "/" ++ b

def home? (env : Environment) : Option String := (env.get? "HOME").filter (!·.isEmpty)

/-- A directory that a variable names by an absolute path, or else a place below the home directory. -/
def place? (env : Environment) (named inHome : String) : Option String :=
  match (env.get? named).filter (·.startsWith "/") with
  | some dir => some dir
  | none => env.home?.map (joinPath · inHome)

/-- Where data is kept unless the configuration says otherwise. -/
def standardDataDir (env : Environment) : String :=
  match env.place? "XDG_DATA_HOME" ".local/share" with
  | some dir => joinPath dir "optics"
  | none => "./optics_data"

/-- Where a configuration is looked for, in this order. -/
def configFiles (env : Environment) : List String :=
  ((env.place? "XDG_CONFIG_HOME" ".config").map (joinPath · "optics/config.toml")).toList ++
    ["/etc/optics/config.toml", "./config.toml"]

/-- A path in which `~/` stands for the home directory. -/
def expandHome (env : Environment) (path : String) : String :=
  match path.toList, env.home? with
  | '~' :: '/' :: rest, some home =>
    if rest.head? = some '/' then String.ofList rest else joinPath home (String.ofList rest)
  | _, _ => path

end Environment

def BackendKind.ofName? (name : String) : Option BackendKind :=
  match String.ofList (name.toList.map Char.toLower) with
  | "file" => some .file
  | "memory" => some .memory
  | _ => none

def standard (env : Environment) : Config :=
  ⟨.standard env.standardDataDir, .standard, .standard, .standard⟩

/-- Replaces what variables give a proper value for. -/
def override (c : Config) (env : Environment) : Config :=
  let text (name old : String) := (env.get? name).getD old
  let number (name : String) (most : Int) (old : Nat) : Nat :=
    match (env.get? name).map fun s => Text.readInt 0 most s.toList with
    | some (.ok n) => n.toNat
    | _ => old
  { storage := { c.storage with
      dataDir := text "OPTICS_DATA_DIR" c.storage.dataDir
      backend := ((env.get? "OPTICS_STORE").bind BackendKind.ofName?).getD c.storage.backend }
    optics := { c.optics with pageSize := number "OPTICS_PAGE_SIZE" Text.maxUInt64 c.optics.pageSize }
    api := { c.api with
      host := text "OPTICS_API_HOST" c.api.host
      port := number "OPTICS_API_PORT" 65535 c.api.port }
    logging := ⟨text "OPTICS_LOG_LEVEL" c.logging.level, text "OPTICS_LOG_FORMAT" c.logging.format⟩ }

end Config

end EventStore
