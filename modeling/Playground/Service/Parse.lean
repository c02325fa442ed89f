import Playground.Error
import Playground.Http.Message
import Playground.Json.Wire

/-!
# The parse service

It reads a compiler log as `parseLog` does.  It is asked with the offset, the lines
and whether the compiler's notes are kept, and answers with the entries.
-/

namespace Playground

open Json

/-- A log to be parsed. -/
structure ParseRequest where
  /-- How far the header shifts the lines. -/
  offset : LineOffset
  /-- The lines of the log. -/
  log : List String
  /-- Every message of the compiler is kept. -/
  verbose : Bool
deriving DecidableEq, Repr, Inhabited

namespace ParseRequest

/-- The body of a request. -/
def toJson (r : ParseRequest) : Json :=
  .ofMembers [("include_offset", r.offset.toJson), ("log", .array (r.log.map .text)),
    ("verbose", .bool r.verbose)]

/-- The log of a body. -/
def ofJson? (v : Json) : Option ParseRequest := do
  match ← fields? ["include_offset", "log", "verbose"] v with
  | [some offset, some log, some verbose] =>
    return ⟨← LineOffset.ofJson? offset, ← log.asList? asText?, ← verbose.asBool?⟩
  | _ => none

/-- The entries, read here and not by the service. -/
def entries (r : ParseRequest) : Except LineOffset.Failure (List Entry) :=
  parseLog r.offset r.verbose r.log

end ParseRequest

namespace ParseService

/-- The name of the service. -/
def name : String := "parser"

/-- The request to send. -/
def request (toAscii : Url.ToAscii) (url : String) (r : ParseRequest) :
    Except PlaygroundError Http.Request :=
  match Http.address toAscii url with
  | .error e => .error (.request name e.message)
  | .ok url => .ok ⟨url, "*/*", some "application/json", r.toJson.plain⟩

/-- The entries of a reply. -/
def entries (reply : Http.Reply) : Except PlaygroundError (List Entry) :=
  if !reply.isSuccess then .error (.status name reply.status)
  else
    match reply.value (asList? Entry.ofJson?) with
    | .ok es => .ok es
    | .error e => .error (.decode name e.message)

/-- The result of a log that is parsed here and not by the service.  There is none if the parser
itself fails. -/
def here (r : ParseRequest) : Except LineOffset.Failure (Except PlaygroundError (List Entry)) :=
  r.entries.map .ok

/-- Asks the service. -/
def parse (client : Http.Client) (url : String) (r : ParseRequest) :
    Except PlaygroundError (List Entry) := do
  match Http.exchange client (← request client.toAscii url r) with
  | .ok reply => entries reply
  | .error e => .error (.request name e.message)

end ParseService

end Playground
