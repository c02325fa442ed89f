import Playground.Http.Charset
import Playground.Json.Reader
import Playground.Url.Address

/-!
# Requests and replies

A request that can be sent goes to an address of the web that names a host.  What
comes of it is an `Outcome`: nobody is reached, the connection is closed without an
answer, or there is a reply.  A reply declares the length of its body, and a body
that is shorter cannot be read.
-/

namespace Playground.Http

open Text

/-! ## Requests -/

/-- A request that posts a text. -/
structure Request where
  /-- The address. -/
  url : Url
  /-- The kind of answer that is wanted. -/
  accept : String
  /-- The kind of the body, if it is told. -/
  contentType : Option String
  /-- The body. -/
  body : String
deriving DecidableEq, Repr

/-- The first line of a request. -/
def Request.line (r : Request) : String :=
  "POST " ++ String.ofList r.url.target ++ " HTTP/1.1"

/-! ## Failures -/

/-- Why there is no answer, or no text of one. -/
inductive Failure where
  /-- The text is no address. -/
  | noAddress
  /-- Nothing can be sent to the address. -/
  | unsendable (url : Url)
  /-- The request did not get through, or was not answered. -/
  | unanswered (url : Url)
  /-- The body cannot be read. -/
  | unreadable
deriving DecidableEq, Repr

/-- The text shown for a failure. -/
def Failure.message : Failure → String
  | .noAddress => "builder error"
  | .unsendable url => "builder error for url (" ++ String.ofList url.text ++ ")"
  | .unanswered url => "error sending request for url (" ++ String.ofList url.text ++ ")"
  | .unreadable => "error decoding response body"

/-- The longest address of a request. -/
def maxAddress : Nat := 65534

/-- The name of a host can stand in a request. -/
def isSendableHost (h : Url.Host) : Bool := !h.text.any fun c => "\"`\x7b\x7d".toList.contains c

/-- The address for a request, without its user. -/
def address (toAscii : Url.ToAscii) (text : String) : Except Failure Url :=
  match Url.read? toAscii text.toList with
  | none => .error .noAddress
  | some u =>
    let bare := u.withoutUser
    if !u.hasHost then .error (.unsendable u)
    else if u.scheme ≠ "http".toList ∧ u.scheme ≠ "https".toList then .error (.unsendable bare)
    else if !(bare.host.map isSendableHost).getD false ∨ maxAddress < bare.text.length then
      .error (.unsendable bare)
    else .ok bare

/-! ## Replies -/

/-- An answer. -/
structure Reply where
  /-- The status code. -/
  status : Nat
  /-- The kind of the body. -/
  contentType : String
  /-- The octets sent. -/
  sent : List UInt8
  /-- The length that the reply declares. -/
  length : Nat
deriving DecidableEq, Repr

/-- The status is one of success. -/
def Reply.isSuccess (r : Reply) : Bool := 200 ≤ r.status && r.status < 300

/-- The body, unless it is cut off.  A reply with the status 204 has none. -/
def Reply.body (r : Reply) : Except Failure (List UInt8) :=
  if r.status = 204 then .ok []
  else if r.sent.length < r.length then .error .unreadable
  else .ok (r.sent.take r.length)

/-- The text of the body. -/
def Reply.text (decoders : Decoders) (r : Reply) : Except Failure (List Char) :=
  r.body.map (textOf decoders r.contentType)

/-- The value of a body that is written as JSON. -/
def Reply.value {α : Type} (r : Reply) (read : Json → Option α) : Except Failure α := do
  match (Json.read? (← r.body)).bind read with
  | some a => .ok a
  | none => .error .unreadable

/-- What comes of a request. -/
inductive Outcome where
  /-- The host is not reached. -/
  | unreachable
  /-- The connection is closed without an answer. -/
  | dropped
  /-- There is an answer. -/
  | answered (r : Reply)
deriving DecidableEq, Repr

/-- What requests are sent with. -/
structure Client where
  /-- The ASCII form of a domain. -/
  toAscii : Url.ToAscii
  /-- The charsets. -/
  decoders : Decoders
  /-- What comes of a request. -/
  send : Request → Outcome

/-- The reply to a request. -/
def exchange (client : Client) (r : Request) : Except Failure Reply :=
  match client.send r with
  | .answered reply => .ok reply
  | _ => .error (.unanswered r.url)

end Playground.Http
