import Playground.CommandLine.Arguments

/-!
# Commands

What can be asked of the playground on the command line.  Settings may stand before
the name of the command or behind it, and those behind it win.

    run [FILE]                          compile once and print the output
    watch FILE [--poll-ms N]            compile whenever the file changes
    share [FILE] [--long]               print a share link
    open URL [-o FILE]                  print or write the program of a share link
    reset                               forget the stored state
    compilers                           list the compilers
    help [COMMAND]

    --config FILE --compiler ID --flags FLAGS --quiet, -q --no-save
-/

namespace Playground.CommandLine

/-- The settings of all commands. -/
structure Settings where
  /-- The configuration file. -/
  config : Option String
  /-- The compiler, which is not the stored one. -/
  compiler : Option String
  /-- The flags, which are not the stored ones. -/
  flags : Option String
  /-- The log of the compiler is hidden. -/
  quiet : Bool
  /-- The state is not stored. -/
  noSave : Bool
deriving DecidableEq, Repr

/-- A command. -/
inductive Command where
  /-- Compile once. -/
  | run (file : Option String)
  /-- Compile at every change. -/
  | watch (file : String) (pollMs : Nat)
  /-- Print a share link. -/
  | share (file : Option String) (long : Bool)
  /-- Read a share link. -/
  | openLink (url : String) (output : Option String)
  /-- Forget the stored state. -/
  | reset
  /-- List the compilers. -/
  | compilers
deriving DecidableEq, Repr

/-- The files that a command names. -/
def Command.files : Command → List String
  | .run file | .share file _ => file.toList
  | .watch file _ => [file]
  | .openLink _ output => output.toList
  | .reset | .compilers => []

/-- The options of every command. -/
def settingOptions : List Switch := [
  ⟨"config", none, .value .path false⟩, ⟨"compiler", none, .value .text false⟩,
  ⟨"flags", none, .value .text true⟩, ⟨"quiet", some 'q', .flag⟩, ⟨"no-save", none, .flag⟩,
  ⟨"help", some 'h', .stop .help⟩]

/-- The commands with the arguments they take. -/
def commands : List (String × Grammar) := [
  ("run", ⟨settingOptions, [.path], []⟩),
  ("watch", ⟨settingOptions ++ [⟨"poll-ms", none, .value .number false⟩], [.path], []⟩),
  ("share", ⟨settingOptions ++ [⟨"long", none, .flag⟩], [.path], []⟩),
  ("open", ⟨settingOptions ++ [⟨"output", some 'o', .value .path false⟩], [.text], []⟩),
  ("reset", ⟨settingOptions, [], []⟩),
  ("compilers", ⟨settingOptions, [], []⟩)]

/-- The arguments before the name of a command. -/
def topGrammar : Grammar :=
  ⟨settingOptions ++ [⟨"version", some 'V', .stop .version⟩], [], commands.map Prod.fst ++ ["help"]⟩

/-- How often a watched file is looked at, if nothing else is said. -/
def defaultPollMs : Nat := 250

/-- The command of a name and its arguments. -/
def Command.of? (name : String) (f : Found) : Option Command :=
  let first := f.positionals.head?
  if name = "run" then some (.run first)
  else if name = "watch" then
    let poll := ((f.get? "poll-ms").bind number?).getD defaultPollMs
    first.map fun file => .watch file poll
  else if name = "share" then some (.share first (f.has "long"))
  else if name = "open" then first.map fun url => .openLink url (f.get? "output")
  else if name = "reset" then some .reset
  else if name = "compilers" then some .compilers
  else none

/-- The settings before and behind the name of a command. -/
def Settings.of (outer inner : Found) : Settings where
  config := (inner.get? "config").or (outer.get? "config")
  compiler := (inner.get? "compiler").or (outer.get? "compiler")
  flags := (inner.get? "flags").or (outer.get? "flags")
  quiet := inner.has "quiet" || outer.has "quiet"
  noSave := inner.has "no-save" || outer.has "no-save"

/-- What the names behind `help` mean. -/
def helpFor (names : List String) : Stop :=
  match names with
  | [] => .help
  | [name] => if name ∈ topGrammar.subcommands then .help else .usage
  | _ => .usage

/-- The settings and the command of some arguments. -/
def parse (args : List String) : Except Stop (Settings × Command) := do
  match ← read topGrammar args with
  | (_, none) => .error .usage
  | (outer, some (name, rest)) =>
    match commands.find? (·.1 = name) with
    | none => .error (helpFor rest)
    | some (_, g) =>
      let (inner, _) ← read g rest
      match Command.of? name inner with
      | some c => .ok (Settings.of outer inner, c)
      | none => .error .usage

example : (parse ["--flags", "-O2", "share", "--long"]).toOption
    = some (⟨none, none, some "-O2", false, false⟩, .share none true) := by decide +kernel
example : (parse ["-q", "run", "a", "--compiler=g93"]).toOption.map (·.1.compiler)
    = some (some "g93") := by decide +kernel
example : (parse ["--compiler", "run"]).toOption = none := by decide +kernel
example : (parse ["open", "-qox", ""]).toOption
    = some (⟨none, none, none, true, false⟩, .openLink "" (some "x")) := by decide +kernel

end Playground.CommandLine
