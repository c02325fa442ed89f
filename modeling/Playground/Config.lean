import Playground.Files.Disk
import Playground.Text.Utf8
import Playground.Timeline
import Playground.Toml.Reader

/-!
# Configuration

Where the services are, where the state is stored, and how long to wait.  A value
comes from the configuration file, else from the environment, else it is the one
built in.  A file with a value of the wrong kind is no configuration.
-/

namespace Playground

open Text

/-- The variables of the environment. -/
abbrev Environment := Fields

/-- The configuration. -/
structure Config where
  /-- The address of the compile service. -/
  compileUrl : String
  /-- The address of the parse service.  Without one, logs are parsed here. -/
  parseUrl : Option String
  /-- The address of the shortener. -/
  shortenerUrl : String
  /-- The page that share links open. -/
  shareBaseUrl : String
  /-- The directory of the store. -/
  storageDir : String
  /-- How long to wait for the edits to stop, in milliseconds. -/
  debounceMs : Nat
  /-- How long to wait for the loading indicator, in milliseconds. -/
  spinnerDelayMs : Nat
  /-- How long to wait for an answer, in seconds. -/
  requestTimeoutSecs : Nat
deriving DecidableEq, Repr

/-- Why there is no configuration. -/
inductive ConfigError where
  /-- The file cannot be read. -/
  | unreadable (path : String)
  /-- The file is not well formed. -/
  | malformed
deriving DecidableEq, Repr

/-- The text shown for a missing configuration. -/
def ConfigError.message : ConfigError → String
  | .unreadable path => "Failed to read " ++ path
  | .malformed => "Failed to parse playground config TOML"

namespace Config

/-- The names of the variables that matter. -/
def variableNames : List String :=
  ["HOME", "XDG_DATA_HOME", "CTP_COMPILE_URL", "CTP_PARSE_URL", "CTP_SHORTENER_URL",
    "CTP_SHARE_BASE_URL", "CTP_STORAGE_DIR"]

/-- The home directory where the environment names none. -/
def fallbackHome : String := "/root"

/-- The home directory. -/
def homeDir (env : Environment) : String :=
  match env.get? "HOME" with
  | some home => if home = "" then fallbackHome else home
  | none => fallbackHome

/-- The directory for the data of the user. -/
def dataDir (env : Environment) : String :=
  let below := Files.childText (homeDir env) ".local/share"
  match env.get? "XDG_DATA_HOME" with
  | some dir => if dir.toList.head? = some '/' then dir else below
  | none => below

/-- The configuration without a file. -/
def ofEnvironment (env : Environment) : Config where
  compileUrl := (env.get? "CTP_COMPILE_URL").getD "https://godbolt.org/api/compiler"
  parseUrl := env.get? "CTP_PARSE_URL"
  shortenerUrl :=
    (env.get? "CTP_SHORTENER_URL").getD "https://viatorus.pythonanywhere.com/short"
  shareBaseUrl :=
    (env.get? "CTP_SHARE_BASE_URL").getD "https://viatorus.github.io/compile-time-printer/"
  storageDir :=
    (env.get? "CTP_STORAGE_DIR").getD (Files.childText (dataDir env) "ctp-playground")
  debounceMs := 500
  spinnerDelayMs := 1000
  requestTimeoutSecs := 30

/-- The value of a key, or the one that is there already. -/
def field? {α : Type} (read : Toml → Option α) (t : Toml.Table) (key : String) (default : α) :
    Option α :=
  match t.get? key with
  | none => some default
  | some v => read v

/-- The configuration with the values of a table. -/
def override? (c : Config) (t : Toml.Table) : Option Config := do
  return {
    compileUrl := ← field? Toml.asString? t "compile_url" c.compileUrl
    parseUrl := ← field? (fun v => v.asString?.map some) t "parse_url" c.parseUrl
    shortenerUrl := ← field? Toml.asString? t "shortener_url" c.shortenerUrl
    shareBaseUrl := ← field? Toml.asString? t "share_base_url" c.shareBaseUrl
    storageDir := ← field? Toml.asString? t "storage_dir" c.storageDir
    debounceMs := ← field? Toml.asNat? t "debounce_ms" c.debounceMs
    spinnerDelayMs := ← field? Toml.asNat? t "spinner_delay_ms" c.spinnerDelayMs
    requestTimeoutSecs := ← field? Toml.asNat? t "request_timeout_secs" c.requestTimeoutSecs }

/-- The configuration of a text. -/
def ofText (env : Environment) (text : String) : Except ConfigError Config :=
  match (Toml.read? text).bind (ofEnvironment env).override? with
  | some c => .ok c
  | none => .error .malformed

/-- The configuration of a file. -/
def ofFile (env : Environment) (disk : Files.Disk) (path : String) : Except ConfigError Config :=
  match disk.readText path with
  | .ok text => ofText env text
  | .error _ => .error (.unreadable path)

/-- How long a desk waits. -/
def timing (c : Config) : Timing := ⟨c.debounceMs, c.spinnerDelayMs⟩

end Config

end Playground
