import Playground.Proofs.Desk.Step

/-!
# What the services have answered

A run does not keep the answers of the services.  `exchanges` reads them off: one
exchange for each step in which a cycle gets an answer, with the question that the
cycle has asked.  `Shows` says what is to be seen of a state after some exchanges of
one cycle, field by field: what has to be asked about the state, and what has to be shown for
the answers.

    compile: error                        the error
    compile: output, parse: error         the error
    compile: output, parse: entries       the entries, and markers in the code

`State.rendering` is what `Shows` comes to if an answer depends on the question only.
-/

namespace Playground

/-- A question of a cycle and the answer of the service. -/
inductive Exchange where
  /-- The compile service has answered. -/
  | compile (generation : Nat) (request : CompileRequest)
      (answer : Except PlaygroundError CompileOutput)
  /-- The parse service has answered. -/
  | parse (generation : Nat) (request : ParseRequest)
      (answer : Except PlaygroundError (List Entry))

/-- The two services. -/
inductive ServiceKind where
  | compile
  | parse
deriving DecidableEq, Repr

/-- The cycle that has asked and the service. -/
def Exchange.slot : Exchange → Nat × ServiceKind
  | .compile g _ _ => (g, .compile)
  | .parse g _ _ => (g, .parse)

/-- The service has given the answer that two functions of the questions give. -/
def Exchange.Follows (compile : CompileRequest → Except PlaygroundError CompileOutput)
    (parse : ParseRequest → Except PlaygroundError (List Entry)) : Exchange → Prop
  | .compile _ r a => a = compile r
  | .parse _ r a => a = parse r

namespace State

/-- What the compile service has to be asked about a state: the program with the header in it, for
the compiler, and the flags in front of those that all compiles get. -/
def compileQuestion (s : State) : CompileRequest where
  compiler := s.compiler
  source := (includeHeader s.code).2
  userArguments := String.ofList
    (Text.trimStart (s.compilerFlags ++ " -fno-diagnostics-color -fsyntax-only").toList)

/-- What the parse service has to be asked about a state and the lines of a log: how the header
has shifted the lines of the program, and whether the log is shown. -/
def parseQuestion (s : State) (lines : List String) : ParseRequest where
  offset := (includeHeader s.code).1
  log := lines
  verbose := s.showCompilerLog

/-- What a cycle asks about a state is what it has to ask. -/
theorem compileRequest_eq (s : State) : s.compileRequest = s.compileQuestion := by
  rw [compileRequest, CompileRequest.of, String.append_assoc]
  rfl

theorem parseRequest_eq (s : State) (lines : List String) :
    s.parseRequest lines = s.parseQuestion lines := rfl

end State

/-- The compile service has answered what has to be asked about the state `s`. -/
def Compiled (log : List Exchange) (g : Nat) (s : State)
    (answer : Except PlaygroundError CompileOutput) : Prop :=
  .compile g s.compileQuestion answer ∈ log

/-- The parse service has answered what has to be asked about the state `s` and the lines. -/
def Parsed (log : List Exchange) (g : Nat) (s : State) (lines : List String)
    (answer : Except PlaygroundError (List Entry)) : Prop :=
  .parse g (s.parseQuestion lines) answer ∈ log

/-- The text of an error, on the error stream, and nothing beside it. -/
def Rendering.ofError (e : PlaygroundError) : Rendering where
  entries := [{ message := e.message, isErrorOutput := true, isCompilerOutput := false }]
  markers := []
  status := .failed

/-- The entries, their markers in the program of the state `s`, and what they come to. -/
def Rendering.ofOutput (s : State) (o : CompileOutput) (es : List Entry) : Rendering where
  entries := es
  markers := Playground.markers (.ofText s.code) es
  status :=
    if o.code ≠ 0 then .failed else if ∃ e ∈ es, e.isCompilerOutput then .warning else .ok

/-- What is to be seen of the state `s` after the exchanges of its cycle `g`. -/
inductive Shows (log : List Exchange) (g : Nat) (s : State) : Rendering → Prop where
  /-- The compile service has failed. -/
  | compileError {e : PlaygroundError} :
      Compiled log g s (.error e) → Shows log g s (.ofError e)
  /-- The parse service has failed. -/
  | parseError {o : CompileOutput} {e : PlaygroundError} :
      Compiled log g s (.ok o) → Parsed log g s o.stderr (.error e) → Shows log g s (.ofError e)
  /-- Both services have answered. -/
  | entries {o : CompileOutput} {es : List Entry} :
      Compiled log g s (.ok o) → Parsed log g s o.stderr (.ok es) →
      Shows log g s (.ofOutput s o es)

/-- The rendering of a state by services whose answers depend on the question only. -/
def State.rendering (compile : CompileRequest → Except PlaygroundError CompileOutput)
    (parse : ParseRequest → Except PlaygroundError (List Entry)) (s : State) : Rendering :=
  match compile s.compileQuestion with
  | .error e => .ofError e
  | .ok o =>
    match parse (s.parseQuestion o.stderr) with
    | .error e => .ofError e
    | .ok es => .ofOutput s o es

theorem Compiled.of_mem {log : List Exchange} {g : Nat} {s : State}
    {answer : Except PlaygroundError CompileOutput}
    (h : .compile g s.compileRequest answer ∈ log) : Compiled log g s answer := by
  rwa [s.compileRequest_eq] at h

/-- What a desk shows for entries is what it has to show. -/
theorem Rendering.ofEntries_eq (s : State) (o : CompileOutput) (es : List Entry) :
    ofEntries o.succeeded es s.code = ofOutput s o es := by
  have hstatus : Status.ofOutcome o.succeeded (es.any (·.isCompilerOutput)) =
      if o.code ≠ 0 then .failed else if ∃ e ∈ es, e.isCompilerOutput then .warning else .ok := by
    rw [Status.ofOutcome, CompileOutput.succeeded]
    by_cases h : o.code = 0 <;> simp [h, List.any_eq_true]
  rw [ofEntries, ofOutput, hstatus]

namespace Shows

/-- More exchanges take nothing away. -/
theorem mono {log log' : List Exchange} {g : Nat} {s : State} {r : Rendering}
    (hsub : log ⊆ log') (h : Shows log g s r) : Shows log' g s r := by
  cases h with
  | compileError hc => exact .compileError (hsub hc)
  | parseError hc hp => exact .parseError (hsub hc) (hsub hp)
  | entries hc hp => exact .entries (hsub hc) (hsub hp)

/-- If the answers depend on the questions only, so does what is to be seen. -/
theorem eq_rendering {log : List Exchange} {g : Nat} {s : State} {r : Rendering}
    {compile : CompileRequest → Except PlaygroundError CompileOutput}
    {parse : ParseRequest → Except PlaygroundError (List Entry)}
    (hlog : ∀ x ∈ log, x.Follows compile parse) (h : Shows log g s r) :
    r = s.rendering compile parse := by
  cases h with
  | compileError hc =>
    have h1 : Except.error _ = compile _ := hlog _ hc
    simp only [State.rendering, ← h1]
  | parseError hc hp =>
    have h1 : Except.ok _ = compile _ := hlog _ hc
    have h2 : Except.error _ = parse _ := hlog _ hp
    simp only [State.rendering, ← h1, ← h2]
  | entries hc hp =>
    have h1 : Except.ok _ = compile _ := hlog _ hc
    have h2 : Except.ok _ = parse _ := hlog _ hp
    simp only [State.rendering, ← h1, ← h2]

end Shows

namespace Desk

/-- The exchange that a step completes, if a cycle was waiting for it. -/
def exchange? (d : Desk) : Action → Option Exchange
  | .compiled g answer =>
    match d.cycle? g with
    | some c =>
      if c.stage = .compiling then some (.compile g c.snapshot.compileRequest answer) else none
    | none => none
  | .parsed g answer =>
    match d.cycle? g with
    | some c =>
      match c.stage with
      | .parsing o => some (.parse g (c.snapshot.parseRequest o.stderr) answer)
      | _ => none
    | none => none
  | _ => none

/-- The exchanges of some steps, oldest first. -/
def exchanges (d : Desk) : List Action → List Exchange
  | [] => []
  | a :: as => (d.exchange? a).toList ++ (d.act a).exchanges as

/-- What the view has been told to show last. -/
def lastRender? (d : Desk) : Option Rendering :=
  (d.view.filterMap fun
    | .render r => some r
    | _ => none).getLast?

end Desk

end Playground
