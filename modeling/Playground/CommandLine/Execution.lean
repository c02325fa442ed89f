import Playground.CommandLine.Command
import Playground.Config
import Playground.Service.Compile
import Playground.Service.Parse
import Playground.Service.Shorten
import Playground.SharePanel

/-!
# Running a command

A command runs on a machine: the environment, the disk and the network.  What comes of
it is the text printed, the failure, the exit code, the disk and what the network was
asked.  A command that waits for an answer which never comes has no exit code.

`run` compiles the stored state with the settings of the command line over it, and
`share` prints the link of that state.  A watched file is given as the contents it
shows one after the other, since the files of the world change by themselves.
-/

namespace Playground.CommandLine

open Text

/-- What a command runs on. -/
structure Machine where
  /-- The variables. -/
  env : Environment
  /-- The files. -/
  disk : Files.Disk
  /-- What requests are sent with. -/
  client : Http.Client
  /-- How long a service takes to answer, in milliseconds. -/
  latency : Http.Request → Nat

/-- What a command cannot do. -/
inductive Failure where
  /-- There is no configuration. -/
  | config (e : ConfigError)
  /-- A file cannot be read. -/
  | unreadable (path : String)
  /-- A file cannot be written. -/
  | unwritable (path : String)
  /-- A link carries no state. -/
  | noState (url : String)
  /-- Some stored values cannot be written. -/
  | notReset (count : Nat) (directory : String)
deriving DecidableEq, Repr

/-- The text shown for a failure. -/
def Failure.message : Failure → String
  | .config e => e.message
  | .unreadable path => "Failed to read " ++ path
  | .unwritable path => "Failed to write " ++ path
  | .noState url => "No playground state found in " ++ url
  | .notReset count directory =>
    "Failed to reset " ++ toString count ++ " stored values in " ++ directory

/-- What comes of a command. -/
structure Outcome where
  /-- The exit code, if the command ends. -/
  exit : Option Nat
  /-- The text printed. -/
  stdout : String
  /-- What the command could not do. -/
  failure : Option Failure
  /-- The files. -/
  disk : Files.Disk
  /-- What the network was asked. -/
  requests : List Http.Request

namespace Outcome

/-- A command that went well and asked for nothing. -/
def ok (disk : Files.Disk) (stdout : String) : Outcome := ⟨some 0, stdout, none, disk, []⟩

/-- A command that failed and asked for nothing. -/
def failed (disk : Files.Disk) (f : Failure) : Outcome := ⟨some 1, "", some f, disk, []⟩

end Outcome

/-- The fields that the command line gives, with the program of a file. -/
def Settings.overrides (s : Settings) (code : Option String) : Fields :=
  .ofList ((code.map fun c => ("code", c)).toList
    ++ (s.compiler.map fun c => ("compiler", c)).toList
    ++ (s.flags.map fun f => ("compiler_flags", f)).toList
    ++ (if s.quiet then [("show_compiler_log", "false")] else []))

/-- The text of a file. -/
def readSource (disk : Files.Disk) (path : String) : Except Failure String :=
  match disk.readText path with
  | .ok text => .ok text
  | .error _ => .error (.unreadable path)

/-- The text of a file, if one is named. -/
def readSource? (disk : Files.Disk) (path : Option String) : Except Failure (Option String) :=
  match path with
  | none => .ok none
  | some path => (readSource disk path).map some

/-- The services of a configuration.  Only a request that can be sent takes time.  A log on which
the parser fails here is never answered. -/
def services (m : Machine) (c : Config) : Services where
  compile r :=
    let sent := (CompileService.request m.client.toAscii c.compileUrl r).toOption
    some ⟨(sent.map m.latency).getD 0, CompileService.compile m.client c.compileUrl r⟩
  parse r :=
    match c.parseUrl with
    | none => (ParseService.here r).toOption.map fun answer => ⟨0, answer⟩
    | some url =>
      let sent := (ParseService.request m.client.toAscii url r).toOption
      some ⟨(sent.map m.latency).getD 0, ParseService.parse m.client url r⟩

/-- The store of a configuration. -/
def storeOf (c : Config) (disk : Files.Disk) : Store := .files c.storageDir disk

/-- The files of a store on a disk. -/
def diskOf (s : Store) (otherwise : Files.Disk) : Files.Disk :=
  match s with
  | .files _ disk => disk
  | _ => otherwise

/-- The fields that a command starts with: the stored ones, and the ones of the command
line over them. -/
def startFields (s : Settings) (c : Config) (disk : Files.Disk) (code : Option String) : Fields :=
  (Session.start none (storeOf c disk)).fields.extend (s.overrides code)

/-- The desk that a command starts with. -/
def startDesk (s : Settings) (c : Config) (disk : Files.Disk) (code : Option String) : Desk :=
  let d := Desk.start (storeOf c disk)
  { d with persists := !s.noSave }.edit (.load (startFields s c disk code))

/-! ## Compiling -/

/-- Waits until the current state is rendered. -/
def settle (m : Machine) (c : Config) (t : Timeline) : Timeline := t.settle (services m c) c.timing

/-- A watched file shows a content. -/
def look (m : Machine) (c : Config) (t : Timeline) (content : String) : Timeline :=
  if content = t.desk.state.code then t
  else settle m c (t.on fun d => d.edit (.code content))

/-- What the view has printed. -/
def printed (t : Timeline) : String := transcript true t.desk.view

/-- What the network has been asked. -/
def asked (toAscii : Url.ToAscii) (c : Config) (t : Timeline) : List Http.Request :=
  (t.requests.filterMap fun r => (CompileService.request toAscii c.compileUrl r.2).toOption)
    ++ t.logs.filterMap fun r =>
      c.parseUrl.bind fun url => (ParseService.request toAscii url r).toOption

/-- What comes of a command that has compiled. -/
def compiledOutcome (m : Machine) (c : Config) (exit : Option Nat) (t : Timeline) : Outcome :=
  ⟨exit, printed t, none, diskOf t.desk.store m.disk, asked m.client.toAscii c t⟩

/-- The exit code of a command that waits until the state is rendered, if it is. -/
def renderedExit? (d : Desk) : Option Nat :=
  if d.phases.current = .rendered then
    some (if (d.rendering.map Rendering.status).getD .failed = .failed then 1 else 0)
  else none

/-- Compiles once. -/
def compileOnce (m : Machine) (s : Settings) (c : Config) (file : Option String) : Outcome :=
  match readSource? m.disk file with
  | .error e => .failed m.disk e
  | .ok code =>
    let t := settle m c (.start (startDesk s c m.disk code))
    compiledOutcome m c (renderedExit? t.desk) t

/-- The exit code of a command that waits for no time at all between two looks. -/
def crashed : Nat := 101

/-- Compiles at the start and whenever the file shows a new content. -/
def watch (m : Machine) (s : Settings) (c : Config) (file : String) (pollMs : Nat)
    (contents : List String) : Outcome :=
  match readSource m.disk file with
  | .error e => .failed m.disk e
  | .ok code =>
    let t := Timeline.start (startDesk s c m.disk (some code))
    if pollMs = 0 then compiledOutcome m c (some crashed) t
    else compiledOutcome m c (some 0) (contents.foldl (look m c) (settle m c t))

/-! ## Links and the store -/

/-- Prints the link of the state. -/
def share (m : Machine) (s : Settings) (c : Config) (file : Option String) (long : Bool) :
    Outcome :=
  match readSource? m.disk file with
  | .error e => .failed m.disk e
  | .ok code =>
    let fields := (storeOf c m.disk).load.extend (s.overrides code)
    let url := Share.link c.shareBaseUrl (State.initial.apply fields)
    let panel : SharePanel := { SharePanel.start with length := if long then .long else .short }
    let shown := panel.refresh (ShortenService.shorten m.client c.shortenerUrl) url
    { Outcome.ok m.disk (shown.link ++ "\n") with
      requests := (panel.asks url).filterMap fun link =>
        (ShortenService.request m.client.toAscii c.shortenerUrl link).toOption }

/-- Prints or writes the program of a link. -/
def openLink (m : Machine) (url : String) (output : Option String) : Outcome :=
  let session := Session.start (some url) (.memory .empty)
  if session.origin ≠ .shared then .failed m.disk (.noState url)
  else
    let code := (State.initial.apply session.fields).code
    match output with
    | none => .ok m.disk code
    | some path =>
      match m.disk.writeText path code with
      | .ok disk => .ok disk ""
      | .error _ => .failed m.disk (.unwritable path)

/-- Writes the initial state to the store. -/
def reset (m : Machine) (c : Config) : Outcome :=
  let (store, failures) := (storeOf c m.disk).save .initial
  let disk := diskOf store m.disk
  if failures = 0 then .ok disk "" else .failed disk (.notReset failures c.storageDir)

/-- A line of the list of compilers. -/
def compilerLine (c : Compiler) : String :=
  c.id ++ String.ofList (List.replicate (10 - c.id.length) ' ') ++ " " ++ c.name
    ++ (if c.id = defaultCompiler then " (default)" else "") ++ "\n"

/-- The configuration for some settings. -/
def Settings.load (s : Settings) (m : Machine) : Except ConfigError Config :=
  match s.config with
  | none => .ok (Config.ofEnvironment m.env)
  | some path => Config.ofFile m.env m.disk path

/-- Runs a command.  A watched file shows `contents` after its first content. -/
def execute (m : Machine) (contents : List String) (s : Settings) (c : Command) : Outcome :=
  match s.load m with
  | .error e => .failed m.disk (.config e)
  | .ok config =>
    match c with
    | .run file => compileOnce m s config file
    | .watch file pollMs => watch m s config file pollMs contents
    | .share file long => share m s config file long
    | .openLink url output => openLink m url output
    | .reset => reset m config
    | .compilers => .ok m.disk (String.join (Playground.compilers.map compilerLine))

/-- The version that is printed. -/
def versionText : String := "ctp-playground 0.1.0\n"

/-- The help that is printed. -/
def helpText : String :=
  "Usage: ctp-playground [OPTIONS] run|watch|share|open|reset|compilers|help\n"

/-- Prints help or the version, or nothing if the arguments break a rule. -/
def stop (m : Machine) : Stop → Outcome
  | .help => .ok m.disk helpText
  | .version => .ok m.disk versionText
  | .usage => { Outcome.ok m.disk "" with exit := some 2 }

/-- Runs the command that some arguments name. -/
def runArguments (m : Machine) (contents args : List String) : Outcome :=
  match parse args with
  | .ok (s, c) => execute m contents s c
  | .error e => stop m e

namespace Outcome

/-- The text printed for the failure. -/
def stderr (o : Outcome) : String :=
  match o.failure with
  | some f => "Error: " ++ f.message ++ "\n"
  | none => if o.exit = some 2 then helpText else ""

end Outcome

end Playground.CommandLine
