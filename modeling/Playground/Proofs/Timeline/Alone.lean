import Playground.Proofs.Session.Persistence
import Playground.Proofs.Timeline.Indicator

/-!
# A state that is left alone

A desk whose state is changed once, at the start, and then left alone asks the services about that
state and shows what they answer.  Each of them is asked once at most:

    compile: no answer                            nothing
    compile: error                                the error
    compile: output, parse: no answer             nothing
    compile: output, parse: error or entries      what `Shows` says

`Alone` is the invariant of such a timeline.  All of its timers and exchanges are those of the
newest cycle, and the parse service has been asked once for each output of the compile service.  At
rest a cycle with an answer to its first request has had it (`Alone.compile_mem`).  So the answers
of the services decide what has been asked (`Alone.logs_eq_logs`) and what is shown.
-/

namespace Playground

/-! ## What the services make of a state -/

namespace Services

/-- What is shown of a state in the end, if all that is asked about it is answered. -/
def rendering? (sv : Services) (s : State) : Option Rendering :=
  (sv.compile s.compileRequest).bind fun x =>
    match x.answer with
    | .error e => some (.ofError e)
    | .ok o => (sv.parse (s.parseRequest o.stderr)).map fun y =>
      match y.answer with
      | .error e => .ofError e
      | .ok es => .ofOutput s o es

/-- What the parse service is asked about a state. -/
def logs (sv : Services) (s : State) : List ParseRequest :=
  ((sv.compile s.compileRequest).bind fun x => x.answer.toOption).toList.map fun o =>
    s.parseRequest o.stderr

variable {sv : Services} {s : State}

theorem isSome_rendering? : (sv.rendering? s).isSome = (sv.latency? s).isSome := by
  rw [rendering?, latency?]
  cases sv.compile s.compileRequest with
  | none => rfl
  | some x =>
    obtain ⟨delay, answer⟩ := x
    cases answer with
    | error e => rfl
    | ok o => simp only [Option.bind_some, Option.isSome_map]

end Services

/-- The answers to what is asked about a state decide what is to be seen of it. -/
theorem Shows.eq_rendering? {log : List Exchange} {g : Nat} {s : State} {r : Rendering}
    {sv : Services} (hlog : ∀ e ∈ log, e.slot.1 = g → e.IsFrom sv s) (h : Shows log g s r) :
    sv.rendering? s = some r := by
  cases h with
  | compileError hc =>
    obtain ⟨delay, hcompile⟩ := hlog _ hc rfl
    rw [Services.rendering?, hcompile, Option.bind_some]
  | parseError hc hp =>
    obtain ⟨delay, hcompile⟩ := hlog _ hc rfl
    obtain ⟨delay', hparse⟩ := hlog _ hp rfl
    simp only [Services.rendering?, hcompile, Option.bind_some, State.parseRequest_eq, hparse,
      Option.map_some]
  | entries hc hp =>
    obtain ⟨delay, hcompile⟩ := hlog _ hc rfl
    obtain ⟨delay', hparse⟩ := hlog _ hp rfl
    simp only [Services.rendering?, hcompile, Option.bind_some, State.parseRequest_eq, hparse,
      Option.map_some]

/-- What the parse service is asked about a state behind an exchange. -/
def Exchange.log? (s : State) : Exchange → Option ParseRequest
  | .compile _ _ (.ok o) => some (s.parseRequest o.stderr)
  | _ => none

theorem Exchange.slot_eq_of_log? {s : State} {e : Exchange} (h : (e.log? s).isSome) :
    e.slot.2 = .compile := by
  cases e with
  | compile _ _ _ => rfl
  | parse _ _ _ => cases h

/-- Nothing that happens by itself changes what is stored. -/
theorem Desk.Driven.store_eq {d : Desk} {as : List Action} (h : d.Driven as) :
    (d.run as).store = d.store := by
  induction as generalizing d with
  | nil => rfl
  | cons a as ih =>
    have hpersist : ∀ on, a ≠ .persist on := by
      rintro on rfl
      cases h.1
    exact (ih h.2).trans (unchanged_act (isEdit_of_drives h.1) hpersist).2.2

namespace Timeline

open Desk (Tracks Course)

variable {sv : Services} {timing : Timing} {t u : Timeline} {as : List Desk.Action} {g opened : Nat}
  {s : State} {log : List Exchange} {sent : List (Nat × CompileRequest)}

/-- The exchange of a timer is that of its cycle. -/
theorem generation_of_exchange? {d : Desk} {a : Alarm} {e : Exchange}
    (h : d.exchange? a.action = some e) : e.slot.1 = a.generation := by
  cases a with
  | debounce k => cases h
  | spinner k => cases h
  | compiled k answer =>
    simp only [Alarm.action, Desk.exchange?] at h
    repeat' split at h
    all_goals cases h
    rfl
  | parsed k answer =>
    simp only [Alarm.action, Desk.exchange?] at h
    repeat' split at h
    all_goals cases h
    rfl

/-- A timer asks the parse service for the exchange that it completes. -/
theorem Timely.log?_exchange? (h : Timely sv timing g s opened t) (hw : Wound t) {x : Timer}
    (hx : x ∈ t.timers) (hg : x.alarm.generation = g) :
    (t.desk.exchange? x.alarm.action).bind (Exchange.log? s) = x.alarm.asks? t.desk := by
  have hawaited := hw.awaited x hx
  obtain ⟨due, alarm⟩ := x
  cases alarm with
  | debounce k => rfl
  | spinner k => rfl
  | parsed k answer =>
    simp only [Alarm.action, Desk.exchange?, Alarm.asks?]
    repeat' split
    all_goals rfl
  | compiled k answer =>
    cases hc : t.desk.cycle? k with
    | none => simp [Alarm.action, Desk.exchange?, Alarm.asks?, hc]
    | some c =>
      obtain ⟨hmem, hcg⟩ := Desk.cycle?_eq_some hc
      have hstage : c.stage = .compiling := by
        simpa [Cycle.awaits, Alarm.kind] using hawaited (fun hne => by cases hne) c hmem hcg
      have hsnap : c.snapshot = s := h.snapshot c hmem (hcg.trans hg)
      cases answer <;>
        simp [Alarm.action, Desk.exchange?, Alarm.asks?, hc, hstage, hsnap, Exchange.log?,
          Except.toOption]

/-! ## A timeline that is left alone -/

/-- Only the newest cycle has timers and exchanges, and the parse service has been asked for
these. -/
structure Alone (sv : Services) (timing : Timing) (g : Nat) (s : State) (opened : Nat)
    (log : List Exchange) (t : Timeline) : Prop extends Timely sv timing g s opened t where
  tracks : Tracks log t.desk
  exchange : ∀ e ∈ log, e.slot.1 = g
  isFrom : ∀ e ∈ log, e.slot.1 = g → e.IsFrom sv s
  own : ∀ x ∈ t.timers, x.alarm.generation = g
  logs_eq : t.logs = log.filterMap (Exchange.log? s)

namespace Alone

theorem own_ticks (h : Alone sv timing g s opened log t) (hw : Wound t)
    (hticks : Ticks sv timing t as u) : ∀ x ∈ u.timers, x.alarm.generation = g := by
  cases hticks with
  | begin =>
    intro x hx
    rcases List.mem_append.mp hx with hx | hx
    · exact h.own x (List.mem_filter.mp hx).1
    · obtain ⟨c, hc, rfl⟩ := List.mem_map.mp hx
      obtain ⟨hmem, hnew⟩ := List.mem_filter.mp hc
      have hs : c.stage = .waiting := by
        rw [Bool.and_eq_true] at hnew
        exact of_decide_eq_true hnew.1
      obtain ⟨-, hgen, -, -⟩ := hw.reached.of_waiting hmem hs
      exact hgen.trans h.generation
  | ring hring =>
    cases hring with
    | @mk x before after ha htimers hmin hnow =>
      intro y hy
      rcases mem_rung_iff.mp hy with hy | ⟨p, hp, rfl⟩
      · exact h.own y ((mem_timers_iff htimers).mpr (.inr hy))
      · exact (Alarm.of_mem_sets hp).1.trans (h.own x ((mem_timers_iff htimers).mpr (.inl rfl)))
  | clock _ _ _ => exact h.own
  | handle => exact h.own

theorem logs_ticks (h : Alone sv timing g s opened log t) (hw : Wound t)
    (hticks : Ticks sv timing t as u) :
    u.logs = (log ++ t.desk.exchanges as).filterMap (Exchange.log? s) := by
  cases hticks with
  | begin =>
    rw [exchanges_begin, List.append_nil]
    exact h.logs_eq
  | ring hring =>
    cases hring with
    | @mk x before after ha htimers hmin hnow =>
      have hx : x ∈ t.timers := (mem_timers_iff htimers).mpr (.inl rfl)
      have hone : ∀ o : Option Exchange,
          o.toList.filterMap (Exchange.log? s) = (o.bind (Exchange.log? s)).toList := by
        intro o
        cases o with
        | none => rfl
        | some e => cases he : e.log? s <;> simp [he]
      rw [exchanges_ring, List.filterMap_append, hone, h.toTimely.log?_exchange? hw hx (h.own x hx),
        ← h.logs_eq]
      rfl
  | clock _ _ _ => exact h.logs_eq.trans (by simp [Desk.exchanges, Desk.exchange?])
  | handle => exact h.logs_eq.trans (by simp [Desk.exchanges, Desk.exchange?])

theorem ticks (h : Alone sv timing g s opened log t) (hw : Wound t)
    (hp : Pausing timing.debounce sent opened t) (hticks : Ticks sv timing t as u) :
    Alone sv timing g s opened (log ++ t.desk.exchanges as) u where
  toTimely := h.toTimely.ticks hp hticks
  tracks := hticks.desk_eq ▸ h.tracks.run as
  exchange := by
    intro e he
    rcases List.mem_append.mp he with he | he
    · exact h.exchange e he
    · obtain ⟨x, hx, he⟩ := hticks.exists_of_mem_exchanges he
      exact (generation_of_exchange? he).trans (h.own x hx)
  isFrom := h.toTimely.isFrom_ticks h.tracks h.isFrom hticks
  own := h.own_ticks hw hticks
  logs_eq := h.logs_ticks hw hticks

/-- A timeline stays alone, and a service that answers what is asked about its state gives a timer
for its answer. -/
theorem passes (h : Alone sv timing g s opened log t) (hw : Wound t)
    (hp : Pausing timing.debounce sent opened t) (hpasses : Passes sv timing t as u) :
    (∃ log, Alone sv timing g s opened log u) ∧
      ∀ k, sv.AnswersAbout s k → t.ArmedAt g k → u.ArmedAt g k := by
  induction hpasses generalizing log with
  | refl => exact ⟨⟨log, h⟩, fun _ _ harmed => harmed⟩
  | tick hticks _ ih =>
    obtain ⟨halone, hkeeps⟩ := ih (h.ticks hw hp hticks) (hw.ticks hticks) (hp.ticks hw hticks)
    refine ⟨halone, fun k hk harmed => hkeeps k hk ?_⟩
    exact harmed.ticks hw (fun x hx hg => h.toTimely.isAnswered hx hg hk) hticks

/-! ### The end -/

/-- What is rendered is what the services make of the state. -/
theorem rendering?_eq (h : Alone sv timing g s opened log t) (hs : t.desk.state = s)
    (hphase : t.desk.phases.current = .rendered) :
    ∃ r, t.desk.rendering = some r ∧ sv.rendering? s = some r := by
  obtain ⟨r, hr, -, hshows⟩ := h.tracks.shown hphase
  rw [h.generation, hs] at hshows
  exact ⟨r, hr, hshows.eq_rendering? h.isFrom⟩

/-- In the end the output of the compile service has come. -/
theorem compile_mem (h : Alone sv timing g s opened log t) (hw : Wound t) (hs : t.desk.state = s)
    (hend : t.desk.phases.current = .rendered ∨ t.AtRest) (harmed : t.ArmedAt g .compile)
    {delay : Nat} {o : CompileOutput}
    (hcompile : sv.compile s.compileRequest = some ⟨delay, .ok o⟩) :
    ∃ r, .compile g r (.ok o) ∈ log := by
  have houtput : ∀ {k r o'}, Exchange.compile k r (.ok o') ∈ log → o' = o ∧ k = g := by
    intro k r o' hmem
    obtain ⟨delay', hfrom⟩ := h.isFrom _ hmem (h.exchange _ hmem)
    rw [hcompile] at hfrom
    cases hfrom
    exact ⟨rfl, h.exchange _ hmem⟩
  by_cases hphase : t.desk.phases.current = .rendered
  case pos =>
    obtain ⟨r, -, -, hshows⟩ := h.tracks.shown hphase
    rw [h.generation, hs] at hshows
    cases hshows with
    | compileError hc =>
      obtain ⟨delay', hfrom⟩ := h.isFrom _ hc rfl
      rw [hcompile] at hfrom
      cases hfrom
    | parseError hc _ => exact ⟨_, (houtput hc).1 ▸ hc⟩
    | entries hc _ => exact ⟨_, (houtput hc).1 ▸ hc⟩
  case neg =>
    have hrest := hend.resolve_left hphase
    obtain ⟨c, hc, hg, hawaits⟩ := hrest.awaits_answer hw hphase
    rw [h.generation] at hg
    rcases hawaits with hawaits | hawaits
    · exact absurd hawaits (hrest.not_awaits hc (hg ▸ harmed))
    · cases hstage : c.stage with
      | parsing o' =>
        have hmem := (h.tracks.parsing c hc o' hstage).1
        obtain ⟨rfl, -⟩ := houtput hmem
        exact ⟨_, hg ▸ hmem⟩
      | _ => simp [Cycle.awaits, Stage.isParsing, hstage] at hawaits

/-- A question for the parse service goes with output of the compile service. -/
theorem exists_output_of_log? (h : Alone sv timing g s opened log t) {e : Exchange} (he : e ∈ log)
    (hsome : (e.log? s).isSome) :
    ∃ delay o, sv.compile s.compileRequest = some ⟨delay, .ok o⟩ := by
  cases e with
  | parse _ _ _ => cases hsome
  | compile k r answer =>
    obtain ⟨delay, hfrom⟩ := h.isFrom _ he (h.exchange _ he)
    cases answer with
    | error _ => cases hsome
    | ok o => exact ⟨delay, o, hfrom⟩

/-- There is one question for the output of a cycle, since it has one exchange of each kind. -/
theorem filterMap_log? (h : Alone sv timing g s opened log t) {r : CompileRequest}
    {o : CompileOutput} (hr : .compile g r (.ok o) ∈ log) :
    log.filterMap (Exchange.log? s) = [s.parseRequest o.stderr] := by
  obtain ⟨before, after, rfl⟩ := List.append_of_mem hr
  have hslots := h.tracks.slots
  rw [List.map_append, List.map_cons, List.nodup_middle, List.nodup_cons, ← List.map_append]
    at hslots
  have hnone : ∀ e ∈ before ++ after, e.log? s = none := by
    intro e he
    rw [← Option.not_isSome_iff_eq_none]
    intro hsome
    have hmem : e ∈ before ++ Exchange.compile g r (.ok o) :: after := by
      rcases List.mem_append.mp he with he | he
      · exact List.mem_append_left _ he
      · exact List.mem_append_right _ (List.mem_cons_of_mem _ he)
    have hslot : e.slot = (g, .compile) :=
      Prod.ext (h.exchange e hmem) (Exchange.slot_eq_of_log? hsome)
    exact hslots.1 (List.mem_map.mpr ⟨e, he, hslot⟩)
  have hbefore : before.filterMap (Exchange.log? s) = [] :=
    List.filterMap_eq_nil_iff.mpr fun e he => hnone e (List.mem_append_left _ he)
  have hafter : after.filterMap (Exchange.log? s) = [] :=
    List.filterMap_eq_nil_iff.mpr fun e he => hnone e (List.mem_append_right _ he)
  have hone : (Exchange.compile g r (.ok o)).log? s = some (s.parseRequest o.stderr) := rfl
  rw [List.filterMap_append, hbefore, List.filterMap_cons_some hone, hafter]
  rfl

/-- In the end the parse service has been asked for the output, if there is one. -/
theorem logs_eq_logs (h : Alone sv timing g s opened log t)
    (hcompile : ∀ delay o, sv.compile s.compileRequest = some ⟨delay, .ok o⟩ →
      ∃ r, .compile g r (.ok o) ∈ log) : t.logs = sv.logs s := by
  rw [h.logs_eq, Services.logs]
  by_cases hok : ∃ delay o, sv.compile s.compileRequest = some ⟨delay, .ok o⟩
  case neg =>
    have hnone : log.filterMap (Exchange.log? s) = [] := by
      refine List.filterMap_eq_nil_iff.mpr fun e he => ?_
      rw [← Option.not_isSome_iff_eq_none]
      exact fun hsome => hok (h.exists_output_of_log? he hsome)
    rw [hnone]
    cases hx : sv.compile s.compileRequest with
    | none => rfl
    | some x =>
      obtain ⟨delay, answer⟩ := x
      cases answer with
      | error _ => rfl
      | ok o => exact absurd ⟨delay, o, hx⟩ hok
  case pos =>
    obtain ⟨delay, o, hx⟩ := hok
    obtain ⟨r, hr⟩ := hcompile delay o hx
    rw [h.filterMap_log? hr, hx]
    rfl

end Alone

/-! ## A change at the start -/

/-- The timeline of a desk that stores its changes or does not, and changes its state once. -/
def startWith (s : Store) (on : Bool) (e : Edit) : Timeline :=
  start ({ Desk.start s with persists := on }.edit e)

section Start

variable (s : Store) (on : Bool) (e : Edit)

theorem state_startWith : (startWith s on e).desk.state = e.apply .initial := by
  rw [startWith, start, Desk.state_edit, ← Desk.state_start s]

theorem wound_startWith : Wound (startWith s on e) :=
  ((Wound.start s).persist on).edit e

theorem opened_startWith (debounce : Nat) : Opened debounce (startWith s on e) :=
  opened_edit ((Wound.start s).persist on) debounce e

theorem pausing_startWith (debounce : Nat) : Pausing debounce [] 0 (startWith s on e) :=
  Pausing.edit ((Wound.start s).persist on) debounce e

theorem alone_startWith (sv : Services) (timing : Timing) :
    Alone sv timing (startWith s on e).desk.phases.generation (e.apply .initial) 0 []
      (startWith s on e) := by
  have hnow : (startWith s on e).now = 0 := Desk.now_act (a := .edit e) nofun
  have htimely := (opened_startWith s on e timing.debounce).timely (wound_startWith s on e) sv
    timing
  rw [hnow, state_startWith] at htimely
  exact ⟨htimely, Desk.tracks_run s [.persist on, .edit e], nofun, nofun, nofun, rfl⟩

/-- Nothing is shown at the start. -/
theorem filter_view_startWith : (startWith s on e).desk.view.filter (!·.isSync) = [] := by
  have hview : (startWith s on e).desk.view =
      [ViewCall.sync .initial] ++ ((Desk.start s).calls [.persist on, .edit e]).map Prod.snd :=
    (Desk.start s).view_run [.persist on, .edit e]
  have hcalled : Called [] (((Desk.start s).calls [.persist on, .edit e]).filter (!·.2.isSync)) :=
    (Desk.start s).called_run [.persist on, .edit e]
  generalize (Desk.start s).calls [.persist on, .edit e] = cs at hview hcalled
  generalize hnone : cs.filter (!·.2.isSync) = none at hcalled
  cases hcalled
  rw [hview, List.filter_append, List.filter_map]
  have hsync : cs.filter ((!ViewCall.isSync ·) ∘ Prod.snd) = [] := hnone
  rw [hsync]
  rfl

theorem store_startWith : (startWith s on e).desk.store =
    if on then (s.save (e.apply .initial)).1 else s := by
  simp only [startWith, start, Desk.store_edit, Desk.state_start, Desk.store_start]

/-! ## Left alone -/

/-- The timeline has asked about a state at the end of its pause, and shows what the services make
of it. -/
structure Settled (sv : Services) (timing : Timing) (s : State) (u : Timeline) : Prop where
  state_eq : u.desk.state = s
  requests_eq : u.requests = [(timing.debounce, s.compileRequest)]
  logs_eq : u.logs = sv.logs s
  rendered_iff : u.desk.phases.current = .rendered ↔ (sv.rendering? s).isSome
  rendering_eq : u.desk.phases.current = .rendered → u.desk.rendering = sv.rendering? s
  /-- The loading indicator is shown before if the services take longer than the spinner. -/
  view_eq : ∃ showed : Bool,
    u.desk.view.filter (!·.isSync) =
      (if showed then [.compiling] else []) ++ (sv.rendering? s).toList.map .render ∧
    ∀ latency, sv.latency? s = some latency →
      (latency < timing.spinner → showed = false) ∧ (timing.spinner < latency → showed = true)

variable (sv : Services) (timing : Timing)

/-- The timeline when nobody changes anything any more. -/
def leftAlone : Timeline := (startWith s on e).settle sv timing

theorem passes_leftAlone : ∃ as,
    Passes sv timing (startWith s on e) as (leftAlone s on e sv timing) ∧
      (startWith s on e).desk.Driven as :=
  passes_settleWith (wound_startWith s on e) _

theorem state_leftAlone : (leftAlone s on e sv timing).desk.state = e.apply .initial := by
  obtain ⟨as, hpasses, -⟩ := passes_leftAlone s on e sv timing
  exact hpasses.generation_eq.2.trans (state_startWith s on e)

theorem wound_leftAlone : Wound (leftAlone s on e sv timing) := by
  obtain ⟨as, hpasses, -⟩ := passes_leftAlone s on e sv timing
  exact (wound_startWith s on e).passes hpasses

theorem store_leftAlone :
    (leftAlone s on e sv timing).desk.store = (startWith s on e).desk.store := by
  obtain ⟨as, hpasses, hdriven⟩ := passes_leftAlone s on e sv timing
  rw [hpasses.desk_eq]
  exact hdriven.store_eq

theorem rendered_leftAlone_iff :
    (leftAlone s on e sv timing).desk.phases.current = .rendered ↔
      (sv.rendering? (e.apply .initial)).isSome := by
  obtain ⟨as, hpasses, -⟩ := passes_leftAlone s on e sv timing
  have hpausing := pausing_startWith s on e timing.debounce
  have halone := alone_startWith s on e sv timing
  constructor
  · intro hphase
    obtain ⟨⟨log, halone'⟩, -⟩ := halone.passes (wound_startWith s on e) hpausing hpasses
    obtain ⟨r, -, hr⟩ := halone'.rendering?_eq (state_leftAlone s on e sv timing) hphase
    rw [hr]
    rfl
  · intro hsome
    rw [Services.isSome_rendering?] at hsome
    exact settle_rendered (wound_startWith s on e)
      ⟨(opened_startWith s on e timing.debounce).served (wound_startWith s on e),
        .timely halone.toTimely hpausing hsome⟩

/-- The pause is over in the end. -/
theorem not_isPausing_leftAlone : ¬ (leftAlone s on e sv timing).desk.IsPausing := by
  have hw := wound_leftAlone s on e sv timing
  intro hp
  rcases settle_ends (wound_startWith s on e) sv timing with hphase | hrest
  · have hpending := (hw.reached.isPausing_iff.mp hp).1
    cases hphase.symm.trans hpending
  · obtain ⟨c, hc, hs⟩ := hp
    exact hrest.not_awaits (k := .debounce) hc (hrest.armed _) (by simpa [Cycle.awaits] using hs)

theorem requests_leftAlone : (leftAlone s on e sv timing).requests =
    [(timing.debounce, (e.apply .initial).compileRequest)] := by
  obtain ⟨as, hpasses, -⟩ := passes_leftAlone s on e sv timing
  have hpausing := (pausing_startWith s on e timing.debounce).passes
    (wound_startWith s on e) hpasses
  have hsent := (hpausing.ended (not_isPausing_leftAlone s on e sv timing)).2
  rw [state_leftAlone, Nat.zero_add] at hsent
  exact hsent

theorem rendering_leftAlone (h : (leftAlone s on e sv timing).desk.phases.current = .rendered) :
    (leftAlone s on e sv timing).desk.rendering = sv.rendering? (e.apply .initial) := by
  obtain ⟨as, hpasses, -⟩ := passes_leftAlone s on e sv timing
  obtain ⟨⟨log, halone⟩, -⟩ := (alone_startWith s on e sv timing).passes
    (wound_startWith s on e) (pausing_startWith s on e timing.debounce) hpasses
  obtain ⟨r, hr, hr'⟩ := halone.rendering?_eq (state_leftAlone s on e sv timing) h
  rw [hr, hr']

theorem logs_leftAlone :
    (leftAlone s on e sv timing).logs = sv.logs (e.apply .initial) := by
  obtain ⟨as, hpasses, -⟩ := passes_leftAlone s on e sv timing
  obtain ⟨⟨log, halone⟩, hkeeps⟩ := (alone_startWith s on e sv timing).passes
    (wound_startWith s on e) (pausing_startWith s on e timing.debounce) hpasses
  refine halone.logs_eq_logs fun delay o hcompile => ?_
  refine halone.compile_mem (wound_leftAlone s on e sv timing) (state_leftAlone s on e sv timing)
    (settle_ends (wound_startWith s on e) sv timing) (hkeeps .compile ?_ ?_) hcompile
  · rw [Services.AnswersAbout, hcompile]
    rfl
  · exact (opened_startWith s on e timing.debounce).served (wound_startWith s on e) .compile rfl

/-- The indicator is shown as often as it stands in the calls. -/
theorem count_indicator (showed : Bool) (rs : List Rendering) :
    ((if showed then [.compiling] else []) ++ rs.map .render : List ViewCall).count .compiling =
      if showed then 1 else 0 := by
  have hrs : (rs.map ViewCall.render).count .compiling = 0 := by
    apply List.count_eq_zero.mpr
    simp
  rw [List.count_append, hrs]
  cases showed <;> rfl

theorem view_leftAlone : ∃ showed : Bool,
    (leftAlone s on e sv timing).desk.view.filter (!·.isSync) =
      (if showed then [.compiling] else []) ++
        (sv.rendering? (e.apply .initial)).toList.map .render ∧
    ∀ latency, sv.latency? (e.apply .initial) = some latency →
      (latency < timing.spinner → showed = false) ∧ (timing.spinner < latency → showed = true) := by
  obtain ⟨as, hpasses, hdriven⟩ := passes_leftAlone s on e sv timing
  have hcourse : Course [] (startWith s on e).desk :=
    Desk.course_run s [.persist on, .edit e]
  have htracks : Tracks [] (startWith s on e).desk := Desk.tracks_run s [.persist on, .edit e]
  obtain ⟨showed, hcalls⟩ := hcourse.calls_eq htracks hdriven.isEdit_eq
  have hview : (leftAlone s on e sv timing).desk.view = (startWith s on e).desk.view ++
      ((startWith s on e).desk.calls as).map Prod.snd := by
    rw [hpasses.desk_eq, Desk.view_run]
  have hshown : (if (leftAlone s on e sv timing).desk.phases.current = .rendered then
      (leftAlone s on e sv timing).desk.rendering.toList.map ViewCall.render else []) =
      (sv.rendering? (e.apply .initial)).toList.map .render := by
    split
    · next hphase => rw [rendering_leftAlone s on e sv timing hphase]
    · next hphase =>
      rw [rendered_leftAlone_iff, Option.not_isSome_iff_eq_none] at hphase
      rw [hphase]
      rfl
  rw [← hpasses.desk_eq, hshown] at hcalls
  refine ⟨showed, ?_, fun latency hl => ?_⟩
  · rw [hview, List.filter_append, filter_view_startWith, List.filter_map]
    exact hcalls
  · have hlast : ∀ op ∈ ([.persist on, .edit e] : List Op).getLast?, op.isEdit := by
      simp [Op.isEdit]
    -- The calls that are counted are those since the start.
    obtain ⟨seen, sent, hpaced, -, hcount⟩ : ∃ seen sent,
        Paced sv timing (startWith s on e).desk.phases.generation (startWith s on e).desk.state
          (startWith s on e).now latency seen (leftAlone s on e sv timing) ∧ _ ∧
        ((leftAlone s on e sv timing).desk.view.drop (startWith s on e).desk.view.length).count
          .compiling = ((Notice.effects seen (startWith s on e).desk.phases.generation).filterMap
            Notice.tale?).count .long :=
      count_indicators s timing hlast sv [.settle] latency
        (by rw [← hl]; exact congrArg _ (state_startWith s on e))
    rw [hview, List.drop_left, ← Desk.count_compiling_filter, hcalls, count_indicator] at hcount
    refine ⟨fun hlt => ?_, fun hlt => ?_⟩
    · rw [hpaced.count_long_eq_zero hlt] at hcount
      simpa using hcount
    · have hphase : (leftAlone s on e sv timing).desk.phases.current = .rendered := by
        rw [rendered_leftAlone_iff, Services.isSome_rendering?, hl]
        rfl
      rw [hpaced.count_long_eq_one hlt hphase] at hcount
      simpa using hcount

/-- A state that is put in at the start and left alone settles. -/
theorem settled_leftAlone :
    Settled sv timing (e.apply .initial) (leftAlone s on e sv timing) where
  state_eq := state_leftAlone s on e sv timing
  requests_eq := requests_leftAlone s on e sv timing
  logs_eq := logs_leftAlone s on e sv timing
  rendered_iff := rendered_leftAlone_iff s on e sv timing
  rendering_eq := rendering_leftAlone s on e sv timing
  view_eq := view_leftAlone s on e sv timing

end Start

end Timeline

end Playground
