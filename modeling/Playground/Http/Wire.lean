import Playground.Http.Message
import Playground.Text.Hex
import Playground.Text.Space

/-!
# Messages on the wire

The octets in which a request is sent, and the reply that some octets say.  A
request asks that the connection be closed behind the answer, so what has been
received by then is the whole reply.

A reply starts with a line that holds its status, and lines with its headers.  Then
there is an empty line and the body.  The length of the body is the declared one.  If
none is declared, then the body is all that is left, and it may be sent in chunks.
-/

namespace Playground.Http

open Text

/-! ## Requests -/

/-- The octets in which a request is sent. -/
def Request.octets (r : Request) : List UInt8 :=
  let body := Utf8.encode r.body.toList
  let lines := [r.line, "host: " ++ String.ofList r.url.place, "accept: " ++ r.accept]
    ++ (r.contentType.map fun t => "content-type: " ++ t).toList
    ++ ["content-length: " ++ toString body.length, "connection: close", ""]
  Utf8.encode (lines.flatMap fun l => l.toList ++ ['\r', '\n']) ++ body

/-! ## Replies -/

/-- The octets before and after the first empty line. -/
def splitHead? : List UInt8 → Option (List UInt8 × List UInt8)
  | 13 :: 10 :: 13 :: 10 :: rest => some ([], rest)
  | b :: rest => (splitHead? rest).map fun p => (b :: p.1, p.2)
  | [] => none

/-- The text of octets that each stand for a character. -/
def latin (bs : List UInt8) : List Char := bs.map fun b => Char.ofNat b.toNat

/-- The value of the first header of a name, which is given in lower case. -/
def header? (lines : List (List Char)) (name : String) : Option (List Char) :=
  lines.findSome? fun l =>
    match splitFirst? ':' l with
    | some (n, v) => if n.map Char.toLower = name.toList then some (trim v) else none
    | none => none

/-- The size that stands at the start of a chunk. -/
def chunkSize? (line : List UInt8) : Option Nat :=
  match line.takeWhile fun b => (hexValue? b).isSome with
  | [] => none
  | ds => some (ds.foldl (fun n b => n * 16 + (hexValue? b).getD 0) 0)

/-- The octets of chunks, and whether the last chunk is there.  The counter is not
below the number of chunks. -/
def joinChunks : Nat → List UInt8 → List UInt8 × Bool
  | 0, _ => ([], false)
  | fuel + 1, bs =>
    let line := bs.takeWhile (· ≠ 10)
    let rest := bs.drop (line.length + 1)
    match chunkSize? line with
    | none => ([], false)
    | some 0 => ([], true)
    | some n =>
      let (more, ended) := joinChunks fuel (rest.drop (n + 2))
      (rest.take n ++ more, ended && n ≤ rest.length)

/-- The reply with the headers and the octets behind them. -/
def Reply.ofParts (status : Nat) (lines : List (List Char)) (rest : List UInt8) : Reply :=
  let kind := String.ofList ((header? lines "content-type").getD [])
  match (header? lines "content-length").bind readWord? with
  | some n => ⟨status, kind, rest, n⟩
  | none =>
    if (header? lines "transfer-encoding").map (·.map Char.toLower) = some "chunked".toList then
      let (sent, ended) := joinChunks (rest.length + 1) rest
      ⟨status, kind, sent, if ended then sent.length else sent.length + 1⟩
    else ⟨status, kind, rest, rest.length⟩

/-- The reply that some octets say. -/
def Reply.ofOctets? (bs : List UInt8) : Option Reply := do
  let (head, rest) ← splitHead? bs
  match (splitOn '\n' (latin head)).map trim with
  | first :: lines =>
    match splitOn ' ' first with
    | _ :: status :: _ => return .ofParts (← readWord? status) lines rest
    | _ => none
  | [] => none

/-- What comes of a request whose connection has said some octets. -/
def Outcome.ofOctets (bs : List UInt8) : Outcome :=
  match Reply.ofOctets? bs with
  | some reply => .answered reply
  | none => .dropped

example : Reply.ofOctets? (Utf8.encode
    "HTTP/1.1 200 OK\r\nContent-Type: text/plain\r\nContent-Length: 2\r\n\r\nab".toList)
    = some ⟨200, "text/plain", [97, 98], 2⟩ := by decide +kernel
example : Reply.ofOctets? (Utf8.encode
    "HTTP/1.1 404 No\r\ntransfer-encoding: chunked\r\n\r\n1\r\na\r\n0\r\n\r\n".toList)
    = some ⟨404, "", [97], 1⟩ := by decide +kernel
example : Reply.ofOctets? (Utf8.encode "HTTP/1.1 200 OK\r\n".toList) = none := by decide +kernel

end Playground.Http
