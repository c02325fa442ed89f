import Playground.Text.Digit
import Playground.Text.Search
import Playground.Text.Utf8

/-!
# Arguments

Reading the arguments of a command by the options it knows.

* `--name value` and `--name=value` give a long option its value, `-n value`, `-nvalue`
  and `-n=value` a short one.  Short options without a value may stand together.
* A value does not start with a hyphen, unless it is joined to its option, is a hyphen
  alone, or belongs to an option that takes anything.
* `--` ends the options.
* No option is given twice.  A path is not empty, and a number has 64 bits.
* The name of a subcommand ends the arguments of a command.

The first argument that breaks a rule, or asks for help or the version, decides.
-/

namespace Playground.CommandLine

open Text

/-- The kind of a value. -/
inductive Kind where
  /-- Any text. -/
  | text
  /-- A text that is not empty. -/
  | path
  /-- A number of 64 bits. -/
  | number
deriving DecidableEq, Repr

/-- Why the arguments name no command. -/
inductive Stop where
  /-- They break a rule. -/
  | usage
  /-- They ask for help. -/
  | help
  /-- They ask for the version. -/
  | version
deriving DecidableEq, Repr

/-- What an option does. -/
inductive Effect where
  /-- It is set. -/
  | flag
  /-- It takes a value, which may start with a hyphen or not. -/
  | value (kind : Kind) (hyphens : Bool)
  /-- It ends everything. -/
  | stop (s : Stop)
deriving DecidableEq, Repr

/-- An option. -/
structure Switch where
  /-- Its name behind two hyphens. -/
  long : String
  /-- Its name behind one hyphen. -/
  short : Option Char
  /-- What it does. -/
  effect : Effect
deriving DecidableEq, Repr

/-- The arguments that a command takes. -/
structure Grammar where
  /-- Its options. -/
  options : List Switch
  /-- The kinds of its positional arguments. -/
  positionals : List Kind
  /-- Its subcommands. -/
  subcommands : List String
deriving DecidableEq, Repr

/-- The arguments that have been read. -/
structure Found where
  /-- The options with their values.  An option without a value has an empty one. -/
  options : List (String × String)
  /-- The positional arguments. -/
  positionals : List String
  /-- Only positional arguments may follow. -/
  ended : Bool
deriving DecidableEq, Repr

/-- The number of 64 bits of a text, with or without a plus sign. -/
def number? (s : String) : Option Nat :=
  match s.toList with
  | '+' :: ds => readWord? ds
  | ds => readWord? ds

/-- The text is a value of a kind. -/
def Kind.admits (k : Kind) (s : String) : Bool :=
  match k with
  | .text => true
  | .path => s ≠ ""
  | .number => (number? s).isSome

namespace Found

/-- Nothing has been read. -/
def none : Found := ⟨[], [], false⟩

/-- The value of an option. -/
def get? (f : Found) (name : String) : Option String :=
  (f.options.find? (·.1 = name)).map Prod.snd

/-- The option is given. -/
def has (f : Found) (name : String) : Bool := (f.get? name).isSome

/-- Takes in an option. -/
def addOption (f : Found) (name value : String) : Except Stop Found :=
  if f.has name then .error .usage else .ok { f with options := f.options ++ [(name, value)] }

/-- Takes in a value of an option. -/
def addValue (f : Found) (name : String) (k : Kind) (value : String) : Except Stop Found :=
  if k.admits value then f.addOption name value else .error .usage

/-- Takes in a positional argument. -/
def addPositional (g : Grammar) (f : Found) (value : String) : Except Stop Found :=
  match g.positionals[f.positionals.length]? with
  | some k =>
    if k.admits value then .ok { f with positionals := f.positionals ++ [value] }
    else .error .usage
  | .none => .error .usage

end Found

/-- The text looks like an option. -/
def isHyphened (s : String) : Bool := s.toList.head? = some '-' && s ≠ "-"

/-- Reads the value of an option that is not joined to it. -/
def takeNext (f : Found) (name : String) (k : Kind) (hyphens : Bool) (rest : List String) :
    Except Stop (Found × List String) :=
  match rest with
  | [] => .error .usage
  | v :: rest =>
    if isHyphened v && !hyphens then .error .usage
    else (f.addValue name k v).map fun f => (f, rest)

/-- Reads a long option. -/
def readLong (g : Grammar) (f : Found) (text : List Char) (rest : List String) :
    Except Stop (Found × List String) :=
  let (name, joined) := match splitFirst? '=' text with
    | some (name, v) => (String.ofList name, some (String.ofList v))
    | none => (String.ofList text, none)
  match g.options.find? (·.long = name) with
  | none => .error .usage
  | some o =>
    match o.effect, joined with
    | .flag, none => (f.addOption name "").map fun f => (f, rest)
    | .stop s, none => .error s
    | .value k _, some v => (f.addValue name k v).map fun f => (f, rest)
    | .value k hyphens, none => takeNext f name k hyphens rest
    | _, some _ => .error .usage

/-- Reads short options that stand together. -/
def readShort (g : Grammar) (f : Found) (rest : List String) :
    List Char → Except Stop (Found × List String)
  | [] => .ok (f, rest)
  | c :: cs =>
    match g.options.find? (·.short = some c) with
    | none => .error .usage
    | some o =>
      match o.effect with
      | .stop s => .error s
      | .flag =>
        match f.addOption o.long "" with
        | .ok f => readShort g f rest cs
        | .error s => .error s
      | .value k hyphens =>
        match cs with
        | [] => takeNext f o.long k hyphens rest
        | '=' :: v => (f.addValue o.long k (String.ofList v)).map fun f => (f, rest)
        | v => (f.addValue o.long k (String.ofList v)).map fun f => (f, rest)

/-- The arguments of a command, and the subcommand that follows with its arguments. -/
abbrev Read := Found × Option (String × List String)

/-- Reads the arguments of a command.  The counter starts above their number. -/
def readAll (g : Grammar) : Nat → Found → List String → Except Stop Read
  | 0, _, _ => .error .usage
  | _ + 1, f, [] => .ok (f, none)
  | fuel + 1, f, a :: rest => do
    if f.ended then readAll g fuel (← f.addPositional g a) rest
    else if a ∈ g.subcommands then .ok (f, some (a, rest))
    else if a = "--" then readAll g fuel { f with ended := true } rest
    else
      match a.toList with
      | '-' :: '-' :: text => do
        let (f, rest) ← readLong g f text rest
        readAll g fuel f rest
      | '-' :: c :: cs => do
        let (f, rest) ← readShort g f rest (c :: cs)
        readAll g fuel f rest
      | _ => readAll g fuel (← f.addPositional g a) rest

/-- Reads the arguments of a command. -/
def read (g : Grammar) (args : List String) : Except Stop Read :=
  readAll g (args.length + 1) .none args

end Playground.CommandLine
