import Playground.Proofs.Diagnostics.Hiding
import Playground.Proofs.Json.Wire
import Playground.Service.Parse

/-!
# Parsing at the service and here

The service and `ParseService.here` are interchangeable (`parse_eq_here`).  The body of a request
is read as the log that is to be parsed, and a reply with the entries of that log gives them in
their order.  The reply need not be written as the playground would write it: it is any text of an
array whose elements are read as the entries.

A log in which a gutter is too wide has no entries, so nothing is found here, and there is no reply
that the service could give.
-/

namespace Playground

open Json Text

/-! ## Lists on the wire -/

theorem Json.asList?_map {α : Type} {write : α → Json} {read? : Json → Option α}
    (h : ∀ a, read? (write a) = some a) (as : List α) :
    asList? read? (.array (as.map write)) = some as := by
  have hread : (as.map write).mapM read? = some as := by
    induction as with
    | nil => rfl
    | cons a as ih => rw [List.map_cons, List.mapM_cons, h, ih]; rfl
  rw [asList?, asArray?, Option.bind_eq_bind, Option.bind_some, hread]

/-- The text is an array of these entries, in their order. -/
def Lists (text : String) (es : List Entry) : Prop :=
  valueOf? (asList? Entry.ofJson?) text = some es

theorem lists_plain (es : List Entry) : Lists (Json.array (es.map Entry.toJson)).plain es := by
  have hprint : Printable (.array (es.map Entry.toJson)) :=
    .array (by simp [Entry.printable_toJson])
  rw [Lists, valueOf?, ofText?_plain hprint, Option.bind_some, asList?_map Entry.ofJson?_toJson]

/-! ## Requests -/

namespace ParseRequest

theorem printable_toJson (r : ParseRequest) : Printable r.toJson :=
  .ofMembers (by simp [LineOffset.printable_toJson, Printable.array])

theorem ofJson?_toJson {r : ParseRequest} (h : r.offset.InRange) :
    ParseRequest.ofJson? r.toJson = some r := by
  have hfields : fields? ["include_offset", "log", "verbose"] r.toJson =
      some [some r.offset.toJson, some (.array (r.log.map .text)), some (.bool r.verbose)] := rfl
  have hline : ∀ line, asText? (.text line) = some line := fun _ => rfl
  have hlog : asList? asText? (.array (r.log.map .text)) = some r.log := asList?_map hline r.log
  simp [ofJson?, hfields, LineOffset.ofJson?_toJson h, hlog, asBool?]

/-- A request is found again in its body. -/
theorem valueOf?_plain {r : ParseRequest} (h : r.offset.InRange) :
    valueOf? ParseRequest.ofJson? r.toJson.plain = some r := by
  rw [valueOf?, ofText?_plain r.printable_toJson, Option.bind_some, ofJson?_toJson h]

/-- A log has entries exactly if no line that is shown is lost. -/
theorem exists_entries_iff {r : ParseRequest}
    (h : r.offset.includeLine + r.offset.headerLines < wordBound) :
    (∃ es, r.entries = .ok es) ↔
      (r.verbose = true → ∀ line ∈ r.log, ¬Overwide r.offset line.toList) :=
  exists_parseLog_iff (LineOffset.correct_eq_origin h)

end ParseRequest

/-! ## Replies -/

namespace ParseService

/-- The reply is a success, and its body is a text of an array of the entries. -/
structure Gives (reply : Http.Reply) (es : List Entry) : Prop where
  status_eq : reply.status = 200
  body_eq : ∃ text, Lists text es ∧ reply.body = .ok (Utf8.encode text.toList)

theorem Gives.entries_eq {reply : Http.Reply} {es : List Entry} (h : Gives reply es) :
    entries reply = .ok es := by
  obtain ⟨text, htext, hbody⟩ := h.body_eq
  rw [Lists, valueOf?, ofText?] at htext
  have hvalue : reply.value (asList? Entry.ofJson?) = .ok es := by
    simp [Http.Reply.value, hbody, bind, Except.bind, htext]
  have hsuccess : reply.isSuccess = true := by rw [Http.Reply.isSuccess, h.status_eq]; rfl
  rw [entries, hsuccess, hvalue]
  rfl

/-- A request is answered with the entries of the log that is read from its body. -/
def Serves (send : Http.Request → Http.Outcome) (req : Http.Request) : Prop :=
  ∀ r es, valueOf? ParseRequest.ofJson? req.body = some r → r.entries = .ok es →
    ∃ reply, send req = .answered reply ∧ Gives reply es

theorem body_of_request {toAscii : Url.ToAscii} {url : String} {r : ParseRequest}
    {req : Http.Request} (h : request toAscii url r = .ok req) : req.body = r.toJson.plain := by
  unfold request at h
  split at h
  · cases h
  · cases h
    rfl

theorem here_eq_ok_iff {r : ParseRequest} {a : Except PlaygroundError (List Entry)} :
    here r = .ok a ↔ ∃ es, r.entries = .ok es ∧ .ok es = a := by
  rw [here, map_eq_ok_iff]

/-- The service and the playground itself are interchangeable.  What is posted is read as the
offset, the log and the flag that were to be sent.  There is a result here exactly if no line that
is shown has a gutter too wide to be corrected.  It is the entries of the log then, and a service
that answers with the entries of what it has read gives the same. -/
theorem parse_eq_here (client : Http.Client) {url : String} {r : ParseRequest} {req : Http.Request}
    (ho : r.offset.includeLine + r.offset.headerLines < wordBound)
    (hreq : request client.toAscii url r = .ok req) :
    valueOf? ParseRequest.ofJson? req.body = some r ∧
    ((∃ a, here r = .ok a) ↔
      (r.verbose = true → ∀ line ∈ r.log, ¬Overwide r.offset line.toList)) ∧
    ∀ a, here r = .ok a →
      (∃ es, a = .ok es ∧ parseLog r.offset r.verbose r.log = .ok es ∧
        Lists (Json.array (es.map Entry.toJson)).plain es) ∧
      (Serves client.send req → parse client url r = a) := by
  have hbody : valueOf? ParseRequest.ofJson? req.body = some r := by
    rw [body_of_request hreq]
    exact r.valueOf?_plain ⟨by omega, by omega⟩
  refine ⟨hbody, ?_, fun a ha => ?_⟩
  · rw [← r.exists_entries_iff ho]
    simp only [here_eq_ok_iff]
    exact ⟨fun ⟨_, es, hes, _⟩ => ⟨es, hes⟩, fun ⟨es, hes⟩ => ⟨_, es, hes, rfl⟩⟩
  · obtain ⟨es, hes, rfl⟩ := here_eq_ok_iff.mp ha
    refine ⟨⟨es, rfl, hes, lists_plain es⟩, fun hserves => ?_⟩
    obtain ⟨reply, hreply, hgives⟩ := hserves r es hbody hes
    have hexchange : Http.exchange client req = .ok reply := by rw [Http.exchange, hreply]
    simp only [parse, hreq, bind, Except.bind, hexchange, hgives.entries_eq]

/-- A service that answers every log that it can read with its entries. -/
def reader (req : Http.Request) : Http.Outcome :=
  match valueOf? ParseRequest.ofJson? req.body with
  | none => .answered ⟨422, "text/plain", [], 0⟩
  | some r =>
    match r.entries with
    | .error _ => .dropped
    | .ok es =>
      let octets := Utf8.encode (Json.array (es.map Entry.toJson)).plain.toList
      .answered ⟨200, "application/json", octets, octets.length⟩

theorem serves_reader (req : Http.Request) : Serves reader req := by
  intro r es hr hes
  refine ⟨_, by simp only [reader, hr, hes]; rfl, rfl, _, lists_plain es, ?_⟩
  simp [Http.Reply.body]

/-- A log with quotes, a tab, and characters that are no ASCII. -/
def quotedLog : ParseRequest where
  offset := ⟨100, 1⟩
  log := ["<source>:120:3: error: \"é\" is no\tnumber 😀", "note: <source>:7", ""]
  verbose := false

/-- The address of a service. -/
def parserUrl : String := "http://localhost:8080/parse"

/-- A client of that service. -/
def readingClient : Http.Client := ⟨Url.simpleAscii, Http.simpleDecoders, reader⟩

theorem parse_eq_here_quoted :
    ∃ req, request Url.simpleAscii parserUrl quotedLog = .ok req ∧
      valueOf? ParseRequest.ofJson? req.body = some quotedLog ∧ Serves reader req ∧
      here quotedLog = .ok (.ok [.compiler "<source>:20:3: error: \"é\" is no\tnumber 😀"]) ∧
      parse readingClient parserUrl quotedLog =
        .ok [.compiler "<source>:20:3: error: \"é\" is no\tnumber 😀"] := by
  obtain ⟨req, hreq⟩ : ∃ req, request Url.simpleAscii parserUrl quotedLog = .ok req :=
    ⟨_, rfl⟩
  obtain ⟨hbody, -, hparse⟩ := parse_eq_here readingClient (by decide) hreq
  have hhere : here quotedLog =
      .ok (.ok [.compiler "<source>:20:3: error: \"é\" is no\tnumber 😀"]) := by
    decide +kernel
  obtain ⟨-, hsame⟩ := hparse _ hhere
  exact ⟨req, hreq, hbody, serves_reader req, hhere, hsame (serves_reader req)⟩

end ParseService

end Playground
