import Playground.CommandLine.Execution
import Playground.Proofs.Timeline.Alone

/-!
# What a command compiles

`run` puts the fields that it starts with into a new desk and leaves the desk alone.  So all that
comes of it is decided by one state and by what the services answer about this state
(`compiles_compileOnce`): what the network is asked, what is stored, what is printed and with
which code the command ends, if it does.
-/

namespace Playground

namespace CommandLine

/-! ## What has to come of a state -/

/-- What has to be shown of a state.  There is nothing if the log is parsed here and the parser
fails. -/
def shown? (m : Machine) (c : Config) (st : State) : Option Rendering :=
  match CompileService.compile m.client c.compileUrl st.compileQuestion with
  | .error e => some (.ofError e)
  | .ok o =>
    match c.parseUrl with
    | none => (parseLog (includeHeader st.code).1 st.showCompilerLog o.stderr).toOption.map
        (.ofOutput st o)
    | some url =>
      match ParseService.parse m.client url (st.parseQuestion o.stderr) with
      | .error e => some (.ofError e)
      | .ok es => some (.ofOutput st o es)

/-- The parse service is asked if there is one, and if there is output of the compile service. -/
def parseRequest? (m : Machine) (c : Config) (st : State) : Option Http.Request := do
  let o ← (CompileService.compile m.client c.compileUrl st.compileQuestion).toOption
  (ParseService.request m.client.toAscii (← c.parseUrl) (st.parseQuestion o.stderr)).toOption

/-- How long it takes to compile a state. -/
def duration (m : Machine) (c : Config) (st : State) : Nat :=
  let sent := (CompileService.request m.client.toAscii c.compileUrl st.compileQuestion).toOption
  (sent.map m.latency).getD 0 + ((parseRequest? m c st).map m.latency).getD 0

/-- The command has compiled the state and no other one.  It has asked about it, stored it unless
it is told not to, printed what is to be shown of it, and ended with the exit code for this. -/
structure Compiles (m : Machine) (s : Settings) (c : Config) (st : State) (o : Outcome) :
    Prop where
  failure_eq : o.failure = none
  requests_eq : o.requests =
    (CompileService.request m.client.toAscii c.compileUrl st.compileQuestion).toOption.toList ++
      (parseRequest? m c st).toList
  disk_eq : o.disk =
    if s.noSave then m.disk else diskOf ((storeOf c m.disk).save st).1 m.disk
  exit_eq : o.exit = (shown? m c st).map fun r => if r.status = .failed then 1 else 0
  /-- The loading indicator is printed before if the services take longer than the spinner. -/
  stdout_eq : ∃ showed : Bool,
    o.stdout = String.join ((if showed then [loadingText ++ "\n"] else []) ++
      (shown? m c st).toList.map fun r => r.plain true) ∧
    ((shown? m c st).isSome → (duration m c st < c.spinnerDelayMs → showed = false) ∧
      (c.spinnerDelayMs < duration m c st → showed = true))

/-! ## The services of a command -/

theorem filterMap_singleton {α β : Type} (f : α → Option β) (a : α) :
    [a].filterMap f = (f a).toList := by
  cases h : f a <;> simp [h]

section Services

variable {m : Machine} {c : Config}

theorem compile_services (r : CompileRequest) : (services m c).compile r = some
    ⟨((CompileService.request m.client.toAscii c.compileUrl r).toOption.map m.latency).getD 0,
      CompileService.compile m.client c.compileUrl r⟩ := rfl

theorem parse_services_of_none (h : c.parseUrl = none) (r : ParseRequest) :
    (services m c).parse r = (parseLog r.offset r.verbose r.log).toOption.map fun es =>
      ⟨0, .ok es⟩ := by
  rw [services]
  dsimp only
  rw [h]
  dsimp only
  rw [ParseService.here, ParseRequest.entries]
  cases parseLog r.offset r.verbose r.log <;> rfl

theorem parse_services_of_some {url : String} (h : c.parseUrl = some url) (r : ParseRequest) :
    (services m c).parse r = some
      ⟨((ParseService.request m.client.toAscii url r).toOption.map m.latency).getD 0,
        ParseService.parse m.client url r⟩ := by
  rw [services]
  dsimp only
  rw [h]

theorem parseRequest?_of_error {st : State} {e : PlaygroundError}
    (h : CompileService.compile m.client c.compileUrl st.compileQuestion = .error e) :
    parseRequest? m c st = none := by
  rw [parseRequest?, h]
  rfl

theorem parseRequest?_of_ok {st : State} {o : CompileOutput}
    (h : CompileService.compile m.client c.compileUrl st.compileQuestion = .ok o) :
    parseRequest? m c st = c.parseUrl.bind fun url =>
      (ParseService.request m.client.toAscii url (st.parseQuestion o.stderr)).toOption := by
  rw [parseRequest?, h]
  rfl

/-- What the services make of a state, and how long it takes. -/
theorem services_eq (st : State) : (services m c).rendering? st = shown? m c st ∧
    (services m c).latency? st = (shown? m c st).map fun _ => duration m c st := by
  rw [Services.rendering?, Services.latency?, compile_services, State.compileRequest_eq, duration]
  cases hanswer : CompileService.compile m.client c.compileUrl st.compileQuestion with
  | error e =>
    simp only [shown?, hanswer, parseRequest?_of_error hanswer, Option.bind_some, Option.map_some,
      Option.map_none, Option.getD_none, Nat.add_zero, and_self]
  | ok o =>
    rw [shown?, hanswer, parseRequest?_of_ok hanswer]
    cases hurl : c.parseUrl with
    | none =>
      simp only [Option.bind_some, Option.bind_none, Option.map_none, Option.getD_none,
        Nat.add_zero, parse_services_of_none hurl, State.parseRequest_eq, State.parseQuestion]
      cases parseLog (includeHeader st.code).1 st.showCompilerLog o.stderr <;>
        simp only [Except.toOption, Option.map_some, Option.map_none, and_self, Nat.add_zero]
    | some url =>
      simp only [Option.bind_some, parse_services_of_some hurl, State.parseRequest_eq,
        Option.map_some]
      cases ParseService.parse m.client url _ <;> simp only [Option.map_some, and_self]

/-- The parse service is asked for the output of the compile service, if there is one. -/
theorem filterMap_logs (st : State) :
    ((services m c).logs st).filterMap (fun r => c.parseUrl.bind fun url =>
      (ParseService.request m.client.toAscii url r).toOption) = (parseRequest? m c st).toList := by
  rw [Services.logs, compile_services, State.compileRequest_eq, Option.bind_some]
  cases hanswer : CompileService.compile m.client c.compileUrl st.compileQuestion with
  | error e =>
    rw [parseRequest?_of_error hanswer]
    rfl
  | ok o => rw [parseRequest?_of_ok hanswer, ← filterMap_singleton]; rfl

end Services

/-! ## What is printed -/

theorem plain_of_isSync (showMarkers : Bool) {v : ViewCall} (h : v.isSync) :
    v.plain showMarkers = "" := by
  cases v with
  | sync _ => rfl
  | _ => cases h

/-- Calls that bring the input widgets in line print nothing. -/
theorem transcript_filter (showMarkers : Bool) (calls : List ViewCall) :
    transcript showMarkers (calls.filter (!·.isSync)) = transcript showMarkers calls := by
  induction calls with
  | nil => rfl
  | cons v calls ih =>
    simp only [transcript] at ih ⊢
    cases hv : v.isSync with
    | true =>
      rw [List.filter_cons_of_neg (by simp [hv]), ih, List.map_cons, String.join_cons,
        plain_of_isSync showMarkers hv, String.empty_append]
    | false =>
      rw [List.filter_cons_of_pos (by simp [hv]), List.map_cons, List.map_cons, String.join_cons,
        String.join_cons, ih]

/-! ## Compiling once -/

section Compiles

variable {m : Machine} {c : Config} {s : Settings} {st : State} {u : Timeline}

theorem asked_of_settled (h : Timeline.Settled (services m c) c.timing st u) :
    asked m.client.toAscii c u =
      (CompileService.request m.client.toAscii c.compileUrl st.compileQuestion).toOption.toList ++
        (parseRequest? m c st).toList := by
  rw [asked, h.requests_eq, h.logs_eq, filterMap_logs, filterMap_singleton,
    State.compileRequest_eq]

theorem renderedExit?_of_settled (h : Timeline.Settled (services m c) c.timing st u) :
    renderedExit? u.desk = (shown? m c st).map fun r => if r.status = .failed then 1 else 0 := by
  have hiff := h.rendered_iff
  rw [renderedExit?]
  rw [(services_eq st).1] at hiff
  split
  · next hphase =>
    have hrendering := h.rendering_eq hphase
    obtain ⟨r, hr⟩ := Option.isSome_iff_exists.mp (hiff.mp hphase)
    rw [(services_eq st).1, hr] at hrendering
    rw [hrendering, hr]
    rfl
  · next hphase =>
    rw [hiff, Option.not_isSome_iff_eq_none] at hphase
    rw [hphase]
    rfl

theorem compiles_of_settled (h : Timeline.Settled (services m c) c.timing st u)
    (hstore : u.desk.store =
      if s.noSave then storeOf c m.disk else ((storeOf c m.disk).save st).1) :
    Compiles m s c st (compiledOutcome m c (renderedExit? u.desk) u) where
  failure_eq := rfl
  requests_eq := asked_of_settled h
  disk_eq := by
    show diskOf u.desk.store m.disk = _
    rw [hstore]
    cases s.noSave <;> rfl
  exit_eq := renderedExit?_of_settled h
  stdout_eq := by
    obtain ⟨showed, hview, htime⟩ := h.view_eq
    rw [(services_eq st).1] at hview
    refine ⟨showed, ?_, fun hsome => ?_⟩
    · show transcript true u.desk.view = _
      rw [← transcript_filter, hview, transcript, List.map_append, List.map_map]
      cases showed <;> rfl
    · obtain ⟨r, hr⟩ := Option.isSome_iff_exists.mp hsome
      exact htime (duration m c st) (by rw [(services_eq st).2, hr]; rfl)

end Compiles

theorem compiles_compileOnce {m : Machine} {file code : Option String}
    (h : readSource? m.disk file = .ok code) (s : Settings) (c : Config) :
    Compiles m s c (State.initial.apply (startFields s c m.disk code))
      (compileOnce m s c file) := by
  have hsettled := Timeline.settled_leftAlone (storeOf c m.disk) (!s.noSave)
    (.load (startFields s c m.disk code)) (services m c) c.timing
  have hstore := Timeline.store_leftAlone (storeOf c m.disk) (!s.noSave)
    (.load (startFields s c m.disk code)) (services m c) c.timing
  rw [Timeline.store_startWith] at hstore
  rw [compileOnce, h]
  refine compiles_of_settled hsettled (hstore.trans ?_)
  cases s.noSave <;> rfl

end CommandLine

end Playground
