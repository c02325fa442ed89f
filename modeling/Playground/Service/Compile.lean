import Playground.Error
import Playground.Http.Message
import Playground.Json.Printer
import Playground.Json.Shape
import Playground.Text.Space

/-!
# The compile service

It is asked under its address with `/` and the id of the compiler and `/compile`
behind it, and answers with the exit code and the lines of the error stream.
-/

namespace Playground

open Text Json

/-- What is to be compiled, with the header put in already. -/
structure CompileRequest where
  /-- The id of the compiler. -/
  compiler : String
  /-- The program. -/
  source : String
  /-- The flags. -/
  userArguments : String
deriving DecidableEq, Repr, Inhabited

/-- The flags that make the log plain text and keep anything from being linked. -/
def extraArguments : String := "-fno-diagnostics-color -fsyntax-only"

/-- What to ask for a compiler with flags. -/
def CompileRequest.of (compiler flags source : String) : CompileRequest where
  compiler
  source
  userArguments := String.ofList (trimStart (flags ++ " " ++ extraArguments).toList)

/-- The outcome of a compile. -/
structure CompileOutput where
  /-- The exit code. -/
  code : Int
  /-- The lines of the error stream. -/
  stderr : List String
deriving DecidableEq, Repr, Inhabited

/-- The compile succeeded. -/
def CompileOutput.succeeded (o : CompileOutput) : Bool := o.code = 0

/-- The address under which a compiler is asked. -/
def compileEndpoint (base compiler : String) : String :=
  String.ofList (base.toList.reverse.dropWhile (· = '/')).reverse ++ "/" ++ compiler ++ "/compile"

/-- The body of a request. -/
def CompileRequest.toJson (r : CompileRequest) : Json :=
  .ofMembers [("source", .text r.source),
    ("options", .ofMembers [("userArguments", .text r.userArguments)])]

/-- A line of the error stream. -/
def outputLine? (v : Json) : Option String := do
  match ← fields? ["text"] v with
  | [some line] => line.asText?
  | _ => none

/-- The outcome of an answer.  Without lines there are none. -/
def CompileOutput.ofJson? (v : Json) : Option CompileOutput := do
  match ← fields? ["code", "stderr"] v with
  | [some code, stderr] =>
    return ⟨← code.asInt32?, ← (stderr.getD (.array [])).asList? outputLine?⟩
  | _ => none

namespace CompileService

/-- The name of the service. -/
def name : String := "compiler"

/-- The request to send. -/
def request (toAscii : Url.ToAscii) (base : String) (r : CompileRequest) :
    Except PlaygroundError Http.Request :=
  match Http.address toAscii (compileEndpoint base r.compiler) with
  | .error e => .error (.request name e.message)
  | .ok url => .ok ⟨url, "application/json", some "application/json", r.toJson.plain⟩

/-- What a reply says. -/
def output (reply : Http.Reply) : Except PlaygroundError CompileOutput :=
  if !reply.isSuccess then .error (.status name reply.status)
  else
    match reply.value CompileOutput.ofJson? with
    | .ok o => .ok o
    | .error e => .error (.decode name e.message)

/-- Asks the service. -/
def compile (client : Http.Client) (base : String) (r : CompileRequest) :
    Except PlaygroundError CompileOutput := do
  match Http.exchange client (← request client.toAscii base r) with
  | .ok reply => output reply
  | .error e => .error (.request name e.message)

end CompileService

end Playground
