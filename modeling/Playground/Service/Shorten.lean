import Playground.Error
import Playground.Http.Message
import Playground.SharePanel

/-!
# The link shortener

It is asked with a link as plain text and answers with a short one.  An answer that
is no success counts as an answer without a link.  Only a request that gets no
answer is an error.
-/

namespace Playground

open Text

namespace ShortenService

/-- The name of the service. -/
def name : String := "shortener"

/-- The request to send. -/
def request (toAscii : Url.ToAscii) (url link : String) : Except PlaygroundError Http.Request :=
  match Http.address toAscii url with
  | .error e => .error (.request name e.message)
  | .ok url => .ok ⟨url, "*/*", none, link⟩

/-- The short link of a reply. -/
def short (decoders : Http.Decoders) (reply : Http.Reply) : Except PlaygroundError String :=
  if !reply.isSuccess then .ok noShortLink
  else
    match reply.text decoders with
    | .ok s => .ok (String.ofList (trim s))
    | .error e => .error (.request name e.message)

/-- Asks the service. -/
def shorten (client : Http.Client) (url : String) : Shortener := fun link => do
  match Http.exchange client (← request client.toAscii url link) with
  | .ok reply => short client.decoders reply
  | .error e => .error (.request name e.message)

end ShortenService

end Playground
