import Playground.Proofs.Desk.Tales
import Playground.Proofs.Timeline.Settling

/-!
# The loading indicator

A cycle that is not superseded shows the loading indicator if its services take longer
than the spinner, and does not if they take less, however late its events are handled.

The event that a cycle tells second decides it.  If the spinner is over first, the
indicator is shown, and if the outcome is told first, it is not.  `tales` is what the
newest cycle has told so far, in the notices and in the queue, and `Paced` says what its
second entry means for the two times.  The timers of the cycle are timely, so the one that goes
off first tells which of the two is shorter.
-/

namespace Playground

namespace Timeline

open Desk (Course Tracks Second Kept)

/-- What the second event of a cycle says about its times. -/
def Decides (timing : Timing) (latency : Nat) : Tale → Prop
  | .started => True
  | .long => timing.spinner ≤ latency
  | .through => latency ≤ timing.spinner

/-- The newest cycle keeps to its times. -/
structure Paced (sv : Services) (timing : Timing) (g : Nat) (s : State) (opened latency : Nat)
    (seen : List Notice) (t : Timeline) : Prop extends Timely sv timing g s opened t where
  course : Course seen t.desk
  served : t.Served g
  second : Second (Decides timing latency) seen t.desk g

namespace Paced

variable {sv : Services} {timing : Timing} {g opened latency : Nat} {s : State} {seen : List Notice}
  {sent : List (Nat × CompileRequest)} {t u : Timeline} {as : List Desk.Action}

/-- The timers of a cycle go off in the order of the times that its second event tells. -/
theorem decides (h : Paced sv timing g s opened latency seen t) (hw : Wound t)
    (hl : sv.latency? s = some latency) {x : Timer} (hx : x ∈ t.timers)
    (hfirst : ∀ y ∈ t.timers, x.due ≤ y.due) {c : Cycle} {f : Cycle → Cycle} {es : List Event}
    (hc : c ∈ t.desk.cycles) (hm : c.Moves x.alarm.action f es) (hg : c.generation = g)
    (hworking : c.stage.isWorking) (hrunning : c.spinner = .running) :
    ∀ e ∈ es, Decides timing latency e.tale := by
  have hxg := Alarm.generation_of_moves hm
  have htimely := h.timely x hx (hxg.trans hg)
  have hother : ∀ k, t.ArmedAt g k → c.awaits k → ∃ y : Timer, y.alarm.kind = k ∧ x.due ≤ y.due ∧
      y.IsTimely sv timing s (opened + timing.debounce) := by
    intro k hk hawaits
    obtain ⟨y, hy, hyk, hyg⟩ := hk c hc hg hawaits
    exact ⟨y, hyk, hfirst y hy, h.timely y hy hyg⟩
  -- The spinner has not gone off, so it is due no sooner than `x`, and neither is the answer
  -- that the cycle waits for.
  obtain ⟨y, hyk, hle, hy⟩ := hother .spinner (hw.armed g) (by simpa [Cycle.awaits] using hrunning)
  have hspinner := hy.of_spinner hyk
  obtain ⟨due, alarm⟩ := x
  cases alarm with
  | debounce k =>
    change c.Moves (.debounceElapsed k) f es at hm
    cases hm with
    | sends hs => simp [hs, Stage.isWorking] at hworking
  | compiled k answer =>
    change c.Moves (.compiled k answer) f es at hm
    cases hm with
    | compiled _ => simp
    | fails _ =>
      have hdue := htimely.of_error hl
      simp only [List.mem_singleton, forall_eq, Event.tale, Decides]
      simp only at hle
      omega
  | parsed k answer =>
    change c.Moves (.parsed k answer) f es at hm
    cases hm with
    | parsed _ =>
      have hdue := htimely.of_parse rfl hl
      simp only [List.mem_singleton, forall_eq, Event.tale, Decides]
      simp only at hle hdue
      omega
  | spinner k =>
    change c.Moves (.spinnerElapsed k) f es at hm
    cases hm with
    | spins _ =>
      have hdue := htimely.of_spinner rfl
      simp only [List.mem_singleton, forall_eq, Event.tale, Decides]
      cases hs : c.stage with
      | compiling =>
        obtain ⟨z, hzk, hzle, hz⟩ :=
          hother .compile (h.served .compile rfl) (by simp [Cycle.awaits, hs])
        have hzdue := hz.of_compile hzk hl
        simp only at hdue hzle
        omega
      | parsing o =>
        obtain ⟨z, hzk, hzle, hz⟩ :=
          hother .parse (h.served .parse rfl) (by simp [Cycle.awaits, hs, Stage.isParsing])
        have hzdue := hz.of_parse hzk hl
        simp only at hdue hzle
        omega
      | waiting => simp [hs, Stage.isWorking] at hworking
      | finished => simp [hs, Stage.isWorking] at hworking

theorem second_ring (h : Paced sv timing g s opened latency seen t) (hw : Wound t)
    (hl : sv.latency? s = some latency) (hring : Ring sv timing t as u) :
    Second (Decides timing latency) seen u.desk g := by
  obtain ⟨log, ht⟩ := hw.reached.tracks
  cases hring with
  | @mk x before after ha htimers hmin hnow =>
    have hx : x ∈ t.timers := (mem_timers_iff htimers).mpr (.inl rfl)
    have hfirst : ∀ y ∈ t.timers, x.due ≤ y.due := fun y hy => due_le_of_mem htimers hmin hy
    rcases rung_desk sv timing t x (before ++ after) with ⟨-, hdesk⟩ | ⟨c, f, es, hc, hm, hdesk⟩
    · rw [hdesk]
      exact h.second
    · rw [hdesk]
      exact h.second.moved h.course ht h.generation hc hm
        (h.decides hw hl hx hfirst (Desk.cycle?_eq_some hc).1 hm)

theorem ticks (h : Paced sv timing g s opened latency seen t) (hw : Wound t)
    (hl : sv.latency? s = some latency) (hp : Pausing timing.debounce sent opened t)
    (hticks : Ticks sv timing t as u) :
    Paced sv timing g s opened latency (seen ++ t.desk.notices as) u := by
  obtain ⟨log, ht⟩ := hw.reached.tracks
  have hcourse := h.course.run ht as
  rw [← hticks.desk_eq] at hcourse
  have hserved : u.Served g := h.served.ticks hw (fun x hx hg k =>
    h.toTimely.isAnswered hx hg (sv.answersAbout (hl ▸ rfl) k)) hticks
  refine ⟨h.toTimely.ticks hp hticks, hcourse, hserved, ?_⟩
  cases hticks with
  | begin =>
    obtain ⟨cs, hdesk, -⟩ := exists_desk_begin timing t
    rw [Desk.notices_of_isOwn (fun _ ha => Desk.isOwn_of_mem_stops ha), List.append_nil, hdesk]
    exact h.second
  | ring hring =>
    rw [Desk.notices_of_isOwn hring.isOwn, List.append_nil]
    exact h.second_ring hw hl hring
  | clock _ _ _ =>
    rw [Desk.notices_of_isOwn (by simp [Desk.Action.isOwn]), List.append_nil]
    exact h.second
  | handle =>
    have hnotices : t.desk.notices [.next] = (t.desk.notice? .next).toList := List.append_nil _
    rw [hnotices]
    exact h.second.next h.course ht h.generation

theorem passes (h : Paced sv timing g s opened latency seen t) (hw : Wound t)
    (hl : sv.latency? s = some latency)
    (hp : Pausing timing.debounce sent opened t) (hpasses : Passes sv timing t as u) :
    Paced sv timing g s opened latency (seen ++ t.desk.notices as) u := by
  induction hpasses generalizing seen with
  | refl => simpa [Desk.notices] using h
  | tick hticks _ ih =>
    have hrest := ih (h.ticks hw hl hp hticks) (hw.ticks hticks) (hp.ticks hw hticks)
    rw [hticks.desk_eq, List.append_assoc, ← Desk.notices_append] at hrest
    exact hrest

/-- Any row of waits keeps the newest cycle to its times. -/
theorem waits (h : Paced sv timing g s opened latency seen t) (hw : Wound t)
    (hl : sv.latency? s = some latency)
    (hp : Pausing timing.debounce sent opened t) (ws : List Wait) :
    ∃ as, (∀ a ∈ as, a.isEdit = false) ∧
      (t.run timing (ws.map (.wait sv))).desk = t.desk.run as ∧
      Pausing timing.debounce sent opened (t.run timing (ws.map (.wait sv))) ∧
      Paced sv timing g s opened latency (seen ++ t.desk.notices as)
        (t.run timing (ws.map (.wait sv))) := by
  induction ws generalizing t seen with
  | nil => exact ⟨[], nofun, rfl, hp, by simpa [Desk.notices, run] using h⟩
  | cons w ws ih =>
    obtain ⟨as, hpasses⟩ := passes_wait hw sv timing w
    obtain ⟨bs, hedits, hdesk, hpausing, hpaced⟩ :=
      ih (h.passes hw hl hp hpasses) (hw.passes hpasses) (hp.passes hw hpasses)
    refine ⟨as ++ bs, ?_, ?_, hpausing, ?_⟩
    · intro a ha
      rcases List.mem_append.mp ha with ha | ha
      · exact hpasses.isEdit_eq a ha
      · exact hedits a ha
    · rw [Desk.run_append, ← hpasses.desk_eq]
      exact hdesk
    · rw [hpasses.desk_eq, List.append_assoc, ← Desk.notices_append] at hpaced
      exact hpaced

/-- A cycle that keeps to its times gets its answers. -/
theorem attended (h : Paced sv timing g s opened latency seen t)
    (hp : Pausing timing.debounce sent opened t) (hl : sv.latency? s = some latency) :
    Attended sv timing t := by
  have htimely := h.toTimely
  have hserved := h.served
  rw [← h.generation] at htimely hserved
  exact ⟨hserved, .timely htimely hp (hl ▸ rfl)⟩

end Paced

variable {sv : Services} {timing : Timing} {t u : Timeline}

/-! ## A cycle that has just been opened -/

/-- The state has been changed by this operation. -/
def Op.isEdit : Op → Bool
  | .edit _ => true
  | _ => false

/-- The newest cycle waits, and has no timer yet. -/
structure Opened (debounce : Nat) (t : Timeline) : Prop where
  pausing : t.desk.IsPausing
  timers : ∀ x ∈ t.timers, x.alarm.generation < t.desk.phases.generation
  sent : ∃ sent, Pausing debounce sent t.now t

theorem opened_edit (hw : Wound t) (debounce : Nat) (e : Edit) :
    Opened debounce (t.on (·.edit e)) := by
  have hnow : (t.on (·.edit e)).now = t.now := Desk.now_act (a := .edit e) nofun
  constructor
  case pausing => exact t.desk.isPausing_edit e
  case timers =>
    intro x hx
    have hle := hw.generation_le x hx
    have hgen : (t.on (·.edit e)).desk.phases.generation = _ := t.desk.generation_edit e
    omega
  case sent => exact ⟨t.requests, hnow ▸ Pausing.edit hw debounce e⟩

/-- A cycle is opened at the start and by every edit. -/
theorem opened_run (s : Store) (timing : Timing) {ops : List Op}
    (h : ∀ op ∈ ops.getLast?, op.isEdit) :
    Opened timing.debounce ((start (Desk.start s)).run timing ops) := by
  rcases List.eq_nil_or_concat ops with rfl | ⟨before, op, rfl⟩
  case inl =>
    exact {
      pausing := Desk.isPausing_start s
      timers := nofun
      sent := ⟨[], Pausing.start s timing.debounce⟩ }
  case inr =>
    rw [List.concat_eq_append] at h ⊢
    cases op with
    | edit e =>
      have hopened := opened_edit (wound_run s timing before) timing.debounce e
      rw [run, List.foldl_append]
      exact hopened
    | _ => simp [Op.isEdit] at h

/-- A cycle that has just been opened has told nothing. -/
theorem Opened.tales_eq_nil {seen : List Notice} {debounce : Nat} (h : Opened debounce t)
    (hw : Wound t) (hc : Course seen t.desk) :
    Desk.tales seen t.desk t.desk.phases.generation = [] := by
  obtain ⟨c, hmem, hs⟩ := h.pausing
  obtain ⟨hcycle, hgen, -, -⟩ := hw.reached.of_waiting hmem hs
  obtain ⟨told, htold, htales⟩ := hc.tales_eq (hc.waiting c hmem hs)
  rw [hcycle] at htold
  rw [← hgen, htales]
  rcases htold.waiting_or_started with ⟨rfl, -⟩ | ⟨-, hne⟩
  · rfl
  · exact absurd hs (hne c rfl)

theorem Opened.timely {debounce : Nat} (h : Opened debounce t) (hw : Wound t) (sv : Services)
    (timing : Timing) :
    Timely sv timing t.desk.phases.generation t.desk.state t.now t where
  generation := rfl
  snapshot := by
    obtain ⟨b, hb, hs⟩ := h.pausing
    obtain ⟨-, hgen, hsnap, -⟩ := hw.reached.of_waiting hb hs
    intro c hc hcg
    rw [Desk.eq_of_generation_eq hw.nodup hc hb (hcg.trans hgen.symm)]
    exact hsnap
  timely := by
    intro x hx hg
    have hlt := h.timers x hx
    omega

/-- A cycle that has just been opened waits for no answer. -/
theorem Opened.served {debounce : Nat} (h : Opened debounce t) (hw : Wound t) :
    t.Served t.desk.phases.generation := by
  obtain ⟨b, hb, hs⟩ := h.pausing
  obtain ⟨-, hgen, -, -⟩ := hw.reached.of_waiting hb hs
  intro k hk c hc hcg hawaits
  rw [Desk.eq_of_generation_eq hw.nodup hc hb (hcg.trans hgen.symm)] at hawaits
  cases k with
  | compile => simp [Cycle.awaits, hs] at hawaits
  | parse => simp [Cycle.awaits, hs, Stage.isParsing] at hawaits
  | _ => cases hk

theorem Opened.paced {seen : List Notice} (h : Opened timing.debounce t) (hw : Wound t)
    (hc : Course seen t.desk) (sv : Services) (latency : Nat) :
    Paced sv timing t.desk.phases.generation t.desk.state t.now latency seen t where
  toTimely := h.timely hw sv timing
  course := hc
  served := h.served hw
  second := by
    intro k hk
    rw [h.tales_eq_nil hw hc] at hk
    cases hk

/-! ## The indicator -/

/-- The events of a cycle, if it shows the indicator or does not. -/
theorem filterMap_word (g : Nat) (showed : Bool) (status : Status) :
    (Notice.word g showed status).filterMap Notice.tale? =
      .started :: if showed then [.long, .through] else [.through] := by
  cases showed <;> rfl

/-- The indicator is only shown if the services take as long as the spinner. -/
theorem Paced.count_long_eq_zero {g opened latency : Nat} {s : State} {seen : List Notice}
    (h : Paced sv timing g s opened latency seen t) (hlt : latency < timing.spinner) :
    ((Notice.effects seen g).filterMap Notice.tale?).count .long = 0 := by
  obtain ⟨showed, status, hword⟩ := h.course.grammar g
  have hprefix := hword.filterMap Notice.tale?
  rw [filterMap_word] at hprefix
  have hsecond := h.second .long
  rw [Desk.tales] at hsecond
  generalize (Notice.effects seen g).filterMap Notice.tale? = tales at hprefix hsecond
  apply List.count_eq_zero.mpr
  intro hmem
  rcases tales with - | ⟨a, - | ⟨b, rest⟩⟩
  · cases hmem
  · obtain ⟨rfl, -⟩ := List.cons_prefix_cons.mp hprefix
    simp at hmem
  · obtain ⟨rfl, hrest⟩ := List.cons_prefix_cons.mp hprefix
    cases showed with
    | true =>
      obtain ⟨rfl, -⟩ := List.cons_prefix_cons.mp hrest
      have hle : timing.spinner ≤ latency := hsecond rfl
      omega
    | false =>
      obtain ⟨rfl, hnil⟩ := List.cons_prefix_cons.mp hrest
      rw [List.prefix_nil.mp hnil] at hmem
      simp at hmem

/-- The indicator is shown once a cycle has rendered whose services take longer than the
spinner. -/
theorem Paced.count_long_eq_one {g opened latency : Nat} {s : State} {seen : List Notice}
    (h : Paced sv timing g s opened latency seen t) (hlt : timing.spinner < latency)
    (hphase : t.desk.phases.current = .rendered) :
    ((Notice.effects seen g).filterMap Notice.tale?).count .long = 1 := by
  have hnone : t.desk.current = none := by
    cases hcur : t.desk.current with
    | none => rfl
    | some k =>
      obtain ⟨handled, -, hhandled⟩ := h.course.underway k hcur
      rw [hphase] at hhandled
      cases hhandled
  obtain ⟨-, showed, status, hword⟩ := h.course.resting hnone
  rw [h.generation] at hword
  have hsecond := h.second .through
  rw [Desk.tales, hword, filterMap_word] at hsecond
  rw [hword, filterMap_word]
  cases showed with
  | true => rfl
  | false =>
    have hle : latency ≤ timing.spinner := hsecond rfl
    omega

/-- How often the indicator has been shown since a cycle was opened. -/
theorem count_indicators (s : Store) (timing : Timing) {ops : List Op}
    (h : ∀ op ∈ ops.getLast?, op.isEdit) (sv : Services) (ws : List Wait) (latency : Nat) :
    let t := (start (Desk.start s)).run timing ops
    let u := t.run timing (ws.map (.wait sv))
    sv.latency? t.desk.state = some latency →
    ∃ seen sent, Paced sv timing t.desk.phases.generation t.desk.state t.now latency seen u ∧
      Pausing timing.debounce sent t.now u ∧
      (u.desk.view.drop t.desk.view.length).count .compiling =
        ((Notice.effects seen t.desk.phases.generation).filterMap Notice.tale?).count .long := by
  intro t u hl
  have hw : Wound t := wound_run s timing ops
  have hopened : Opened timing.debounce t := opened_run s timing h
  obtain ⟨sent, hpausing⟩ := hopened.sent
  obtain ⟨log, ht⟩ := hw.reached.tracks
  obtain ⟨seen, hc⟩ := hw.reached.course
  obtain ⟨as, hedits, hdesk, hpausing, hpaced⟩ :=
    (hopened.paced hw hc sv latency).waits hw hl hpausing ws
  have hdesk : u.desk = t.desk.run as := hdesk
  have hview : u.desk.view.drop t.desk.view.length = (t.desk.calls as).map Prod.snd := by
    rw [hdesk, Desk.view_run, List.drop_left]
  -- Nothing has been told before, and nothing of another generation since.
  have hbefore := (List.append_eq_nil_iff.mp (hopened.tales_eq_nil hw hc)).1
  have hsince := Desk.filterMap_effects (ht.generation_notices hedits)
  refine ⟨_, sent, hpaced, hpausing, ?_⟩
  rw [hview, Desk.count_compiling_calls, Notice.effects_append, List.filterMap_append, hbefore,
    hsince, List.nil_append]

/-- The cycles of a desk tell their events in turn.  What the events of a generation do is a
beginning of: the request is sent, the indicator is shown or not, and its outcome is rendered.
The generations never go back, and an event of a generation that is not the newest one does
nothing but leave the queue.  So each generation shows the indicator at most once and then a
rendering at most once.

On a timeline, a cycle that no edit takes the place of, and whose requests are answered, shows the
indicator once if its services take longer than the spinner, and never if they take less, however
one waits for its events; and it renders in the end. -/
theorem events_in_turn (s : Store) :
    (∀ as,
      let d := (Desk.start s).run as
      let ns := (Desk.start s).notices as
      let calls := (Desk.start s).calls as
      (∀ g, ∃ showed status, Notice.effects ns g <+: Notice.word g showed status) ∧
      (ns.filter Notice.isActive).Pairwise (·.generation ≤ ·.generation) ∧
      (∀ e es, d.queue = e :: es → e.generation < d.phases.generation →
        d.next? = some (.stale e.generation, { d with queue := es })) ∧
      d.view = (Desk.start s).view ++ calls.map Prod.snd ∧
      ∀ g, ∃ (showed : Bool) (r : Rendering),
        (calls.filter fun c => c.1 = g && !c.2.isSync).map Prod.snd <+:
          if showed then [.compiling, .render r] else [.render r]) ∧
    ∀ (timing : Timing) (ops : List Op) (sv : Services) (ws : List Wait),
      (∀ op ∈ ops.getLast?, op.isEdit) →
      let t := (start (Desk.start s)).run timing ops
      let u := t.run timing (ws.map (.wait sv))
      let indicators := (u.desk.view.drop t.desk.view.length).count .compiling
      ∀ latency, sv.latency? t.desk.state = some latency →
        (latency < timing.spinner → indicators = 0) ∧
        (timing.spinner < latency → u.desk.phases.current = .rendered → indicators = 1) ∧
        (u.settle sv timing).desk.phases.current = .rendered := by
  refine ⟨fun as => ?_, fun timing ops sv ws hops => ?_⟩
  case refine_1 =>
    intro d ns calls
    have htracks : Tracks ((Desk.start s).exchanges as) d := Desk.tracks_run s as
    have hcourse : Course ns d := Desk.course_run s as
    refine ⟨hcourse.grammar, hcourse.ordered, ?_, Desk.view_run (Desk.start s) as,
      Desk.calls_prefix s as⟩
    intro e es hq hlt
    have hne : d.current ≠ some e.generation := by
      intro hcur
      have hcurrent := htracks.current_eq _ hcur
      omega
    simp only [Desk.next?, hq]
    exact congrArg some (Desk.handle_of_ne hne)
  case refine_2 =>
    intro t u indicators latency hl
    obtain ⟨seen, sent, hpaced, hpausing, hcount⟩ := count_indicators s timing hops sv ws latency hl
    have hw : Wound u := (wound_run s timing ops).run timing _
    refine ⟨fun hlt => ?_, fun hlt hphase => ?_, settle_rendered hw (hpaced.attended hpausing hl)⟩
    · exact hcount.trans (hpaced.count_long_eq_zero hlt)
    · exact hcount.trans (hpaced.count_long_eq_one hlt hphase)

/-- Services that take longer. -/
def slowServices : Services where
  compile _ := some ⟨300, .ok ⟨0, []⟩⟩
  parse _ := some ⟨250, .ok []⟩

/-- An edit after the first cycle. -/
def editedRun : List Op := [.wait quietServices .settle, .edit (.code "x")]

/-- The events are handled long after they have been told. -/
def lateWaits : List Wait := [.sleep 2000, .next 0, .settle]

theorem indicators_editedRun :
    ((((start (Desk.start default)).run ⟨500, 400⟩ editedRun).run ⟨500, 400⟩
      (lateWaits.map (.wait slowServices))).desk.view.drop
        ((start (Desk.start default)).run ⟨500, 400⟩ editedRun).desk.view.length).count
          .compiling = 1 ∧
    ((((start (Desk.start default)).run ⟨500, 400⟩ editedRun).run ⟨500, 400⟩
      (lateWaits.map (.wait quietServices))).desk.view.drop
        ((start (Desk.start default)).run ⟨500, 400⟩ editedRun).desk.view.length).count
          .compiling = 0 := by
  have hlong : ∀ s, slowServices.latency? s = some 550 := fun _ => rfl
  have hshort : ∀ s, quietServices.latency? s = some 120 := fun _ => rfl
  have hslow := ((events_in_turn default).2 ⟨500, 400⟩ editedRun slowServices lateWaits
    (by simp [editedRun, Op.isEdit]) 550 (hlong _)).2.1
  have hquick := ((events_in_turn default).2 ⟨500, 400⟩ editedRun quietServices lateWaits
    (by simp [editedRun, Op.isEdit]) 120 (hshort _)).1
  exact ⟨hslow (by decide) (by decide +kernel), hquick (by decide)⟩

end Timeline

end Playground
