import Mathlib.Algebra.Ring.Nat
import Playground.Proofs.Timeline.Answers

/-!
# A timeline settles

A driver that handles events until the phase is `rendered` comes to its end, from every
state of a desk, if the answers come that the newest cycle waits for.

* On any desk: as long as the phase is not `rendered` there is a step to make, and `work`
  bounds the steps that can be made.
* On a timeline: `toDo` counts the events and the rings that are left with one event each.
  Handling an event takes one off, and a wait for the first timer another one, so `settle`
  has fuel for all of them.
-/

namespace Playground.Timeline

variable {sv : Services} {timing : Timing} {t u : Timeline}

/-- The events to handle, and the rings that are left when a wait begins with one event
each. -/
def toDo (timing : Timing) (t : Timeline) : Nat :=
  t.desk.queue.length + 2 * (t.begin timing).weight

theorem weight_begin (timing : Timing) (t : Timeline) :
    (t.begin timing).weight = (t.standing.map (·.alarm.weight)).sum + 4 * t.unset.length := by
  rw [weight_eq, begin_eq, List.map_append, List.sum_append, List.map_map]
  congr 1
  induction t.unset with
  | nil => rfl
  | cons c cs ih =>
    simp only [List.map_cons, List.sum_cons, List.length_cons, ih]
    simp [Alarm.weight]
    omega

theorem sum_filter_le {p q : Timer → Bool} (h : ∀ x, p x → q x) (xs : List Timer) :
    ((xs.filter p).map (·.alarm.weight)).sum ≤ ((xs.filter q).map (·.alarm.weight)).sum := by
  induction xs with
  | nil => exact Nat.le_refl _
  | cons x xs ih =>
    have hx := h x
    cases hp : p x <;> cases hq : q x <;> simp_all
    omega

/-- A wait that has begun before adds nothing. -/
theorem weight_begin_le (timing : Timing) (hw : Wound t) (ha : t.Armed .debounce) :
    (t.begin timing).weight ≤ t.weight := by
  have hle := sum_filter_le (p := fun x => x.alarm.isLive t.desk) (q := fun _ => true)
    (fun _ _ => rfl) t.timers
  rw [List.filter_true] at hle
  rw [weight_begin, hw.unset_eq_nil ha, weight_eq, standing]
  simpa using hle

/-- Handling an event leaves the cycles as they are, or none of them waits. -/
theorem cycles_next {d : Desk} (hr : d.Reached) :
    (d.act .next).cycles = d.cycles ∨ ¬ (d.act .next).IsPausing := by
  rw [hr.isPausing_next]
  have hsteps := Desk.steps_act d .next
  generalize d.notice? .next = n at hsteps
  generalize d.act .next = d' at hsteps
  cases hsteps with
  | move _ hm => cases hm
  | sent _ _ => rw [Desk.enter_eq]; exact .inl rfl
  | rendered hq hcur => exact .inr (hr.not_isPausing hq hcur)
  | _ => exact .inl rfl

/-- A timer that matters for cycles that are kept has mattered before. -/
theorem isLive_of_kept {d d' : Desk} (hnodup : (d.cycles.map Cycle.generation).Nodup)
    (hkept : Desk.Kept d.cycles d'.cycles) {a : Alarm} (h : a.isLive d') : a.isLive d := by
  have hback : ∀ c, d'.cycle? a.generation = some c → c.awaits a.kind → a.isLive d := by
    intro c hc hawaits
    obtain ⟨hmem, hg⟩ := Desk.cycle?_eq_some hc
    obtain ⟨b, hb, hbg, hb'⟩ := hkept.awaits hmem hawaits
    exact isLive_of_awaits hnodup hb (hg.symm.trans hbg) hb'
  cases a with
  | debounce g =>
    cases hc : d'.cycle? g with
    | none => simp [Alarm.isLive, hc] at h
    | some c => exact hback c hc (by simpa [Alarm.isLive, hc, Cycle.awaits, Alarm.kind] using h)
  | spinner g =>
    cases hc : d'.cycle? g with
    | none => simp [Alarm.isLive, hc] at h
    | some c => exact hback c hc (by simpa [Alarm.isLive, hc, Cycle.awaits, Alarm.kind] using h)
  | compiled _ _ => rfl
  | parsed _ _ => rfl

/-- Handling an event adds no timer to the next wait. -/
theorem weight_begin_handle_le (timing : Timing) (hw : Wound t) :
    ((t.on (·.act .next)).begin timing).weight ≤ (t.begin timing).weight := by
  rw [weight_begin, weight_begin]
  rcases cycles_next hw.reached with hsame | hnone
  · have hcycle : ∀ g, (t.desk.act .next).cycle? g = t.desk.cycle? g := by
      intro g
      rw [Desk.cycle?, hsame]
      rfl
    have hlive : ∀ a : Alarm, a.isLive (t.desk.act .next) = a.isLive t.desk := by
      intro a
      cases a <;> simp only [Alarm.isLive, hcycle]
    have hstanding : (t.on (·.act .next)).standing = t.standing := by
      simp only [standing, on, hlive]
    have hunset : (t.on (·.act .next)).unset = t.unset := by
      rw [unset, hstanding, show (t.on (·.act .next)).desk.cycles = _ from hsame]
      rfl
    exact Nat.le_of_eq (by rw [hstanding, hunset])
  · have hunset : (t.on (·.act .next)).unset = [] := by
      apply List.filter_eq_nil_iff.mpr
      intro c hc hnot
      simp only [Bool.and_eq_true, decide_eq_true_eq] at hnot
      exact hnone ⟨c, hc, hnot.1⟩
    have hle : ((t.on (·.act .next)).standing.map (·.alarm.weight)).sum ≤
        (t.standing.map (·.alarm.weight)).sum :=
      sum_filter_le (fun _ hx => isLive_of_kept hw.nodup (Desk.Kept.next t.desk) hx) t.timers
    rw [hunset]
    simpa using Nat.le_add_right_of_le hle

/-- Handling an event leaves less to do. -/
theorem toDo_handle_lt (timing : Timing) (hw : Wound t) (hq : t.desk.queue ≠ []) :
    (t.on (·.act .next)).toDo timing < t.toDo timing := by
  have hweight := weight_begin_handle_le timing hw
  have hlength : (t.desk.act .next).queue.length < t.desk.queue.length := by
    have hshorter : ∀ e es, t.desk.queue = e :: es → es.length < t.desk.queue.length := by
      intro e es hq
      simp [hq]
    have hsteps := Desk.steps_act t.desk .next
    generalize t.desk.notice? .next = n at hsteps
    generalize t.desk.act .next = d' at hsteps
    cases hsteps with
    | move _ hm => cases hm
    | idle _ hnil => exact absurd (hnil rfl) hq
    | sent hq _ => rw [Desk.enter_eq]; exact hshorter _ _ hq
    | stale hq _ => exact hshorter _ _ hq
    | early hq _ _ => exact hshorter _ _ hq
    | showed hq _ _ => exact hshorter _ _ hq
    | rendered hq _ => exact hshorter _ _ hq
  simp only [toDo, on] at hweight ⊢
  omega

/-! ## The end of a wait -/

/-- Nothing is left that could happen by itself. -/
structure AtRest (t : Timeline) : Prop where
  queue : t.desk.queue = []
  timers : t.timers = []
  armed : t.Armed .debounce

/-- With fuel for what is to do, a timeline settles or comes to rest. -/
theorem settleWith_ends (hw : Wound t) {fuel : Nat} (hfuel : t.toDo timing < fuel) :
    (settleWith sv timing fuel t).desk.phases.current = .rendered ∨
      (settleWith sv timing fuel t).AtRest := by
  induction fuel generalizing t with
  | zero => omega
  | succ fuel ih =>
    simp only [settleWith]
    split
    case isTrue hphase => exact .inl hphase
    case isFalse hphase =>
      split
      case h_1 n u hhandle =>
        have hq : t.desk.queue ≠ [] := by
          intro hnil
          simp [handle?, Desk.next?, hnil] at hhandle
        rw [handle?_eq_some hhandle]
        have hlt := toDo_handle_lt timing hw hq
        exact ih hw.handle (by omega)
      case h_2 hnone =>
        have hq : t.desk.queue = [] := by
          cases hq : t.desk.queue with
          | nil => rfl
          | cons e es => simp [handle?, Desk.next?, hq] at hnone
        have hwound := hw.begin timing
        have harmed := hw.armed_begin timing
        obtain ⟨cs, hdesk, -⟩ := exists_desk_begin timing t
        split
        case h_1 hdue =>
          refine .inr ⟨by rw [hdesk]; exact hq, ?_, harmed⟩
          exact earliest?_eq_none (Option.map_eq_none_iff.mp hdue)
        case h_2 due hdue =>
          obtain ⟨⟨x, others⟩, hfirst, rfl⟩ := Option.map_eq_some_iff.mp hdue
          -- The rings of this round take from the load, and the next wait begins with no more.
          have hload : (fireAll sv timing x.due (t.begin timing).weight (t.begin timing)).load <
              (t.begin timing).load := load_fireAll_lt harmed hwound hfirst (Nat.le_refl _)
          obtain ⟨as, hrings⟩ : ∃ as, Rings sv timing x.due _ as
              (fireAll sv timing x.due (t.begin timing).weight (t.begin timing)) :=
            rings_fireAll harmed hwound _
          have hweight := weight_begin_le timing (hrings.wound hwound)
            (hrings.armed hwound harmed)
          refine ih (hrings.wound hwound) ?_
          have hlength : (t.begin timing).desk.queue.length = t.desk.queue.length := by rw [hdesk]
          simp only [toDo, load] at hload hfuel ⊢
          omega

/-- A timeline settles or comes to rest. -/
theorem settle_ends (hw : Wound t) (sv : Services) (timing : Timing) :
    (t.settle sv timing).desk.phases.current = .rendered ∨ (t.settle sv timing).AtRest := by
  apply settleWith_ends hw
  simp only [toDo]
  omega

/-- At rest no cycle waits for the edits to stop, nor for an answer that comes. -/
theorem AtRest.not_awaits (h : AtRest t) {k : Alarm.Kind} {c : Cycle} (hc : c ∈ t.desk.cycles)
    (harmed : t.ArmedAt c.generation k) : ¬ c.awaits k := by
  intro hawaits
  obtain ⟨x, hx, -⟩ := harmed c hc rfl hawaits
  rw [h.timers] at hx
  cases hx

/-- If the phase is not `rendered` at rest, the newest cycle waits for an answer. -/
theorem AtRest.awaits_answer (h : AtRest t) (hw : Wound t)
    (hphase : t.desk.phases.current ≠ .rendered) : ∃ c ∈ t.desk.cycles,
      c.generation = t.desk.phases.generation ∧ (c.awaits .compile ∨ c.awaits .parse) := by
  obtain ⟨seen, hcourse⟩ := hw.reached.course
  obtain ⟨log, htracks⟩ := hw.reached.tracks
  rcases hcourse.exists_goesOn hphase with hnext | ⟨g, hcur, hgo⟩
  · simp [Desk.goesOn, h.queue] at hnext
  obtain rfl := htracks.current_eq g hcur
  rcases hgo with hgo | hgo | hgo
  · obtain ⟨c, -, hc, hs⟩ := Desk.exists_of_any hgo
    exact absurd hs (h.not_awaits (k := .debounce) (Desk.cycle?_eq_some hc).1 (h.armed _))
  · obtain ⟨c, hg, hc, hs⟩ := Desk.exists_of_any (hgo (.ok ⟨0, []⟩))
    exact ⟨c, (Desk.cycle?_eq_some hc).1, hg, .inl hs⟩
  · obtain ⟨c, hg, hc, hs⟩ := Desk.exists_of_any (hgo (.ok []))
    exact ⟨c, (Desk.cycle?_eq_some hc).1, hg, .inr hs⟩

/-- A timeline settles if the newest cycle gets its answers. -/
theorem settle_rendered (hw : Wound t) (hat : Attended sv timing t) :
    (t.settle sv timing).desk.phases.current = .rendered := by
  obtain ⟨as, hpasses⟩ := passes_wait hw sv timing .settle
  have hat' := hat.passes hw hpasses
  by_contra hphase
  have hrest := (settle_ends hw sv timing).resolve_left hphase
  obtain ⟨c, hc, hg, hawaits⟩ := hrest.awaits_answer (hw.passes hpasses) hphase
  rcases hawaits with hawaits | hawaits
  · exact hrest.not_awaits hc (hg ▸ hat'.served .compile rfl) hawaits
  · exact hrest.not_awaits hc (hg ▸ hat'.served .parse rfl) hawaits

/-- The desk never gets stuck.  As long as the phase is not `rendered`, the newest cycle waits
for the edits to stop, or has started, or compiles, and just one of these.

Handling events until the phase is `rendered`, with the cycles going on by themselves in any
order, takes `work` steps at most, and as long as the phase is not `rendered` there is one to
make, whatever the services answer.  Of the newest generation these steps handle each event
once at most, and render it once if the phase has not been `rendered` before; all other events
are stale ones of older generations.  In the end its rendering is on the screen.

On a timeline they come to that end if the services answer every request, with a result or an
error.  A service that fails itself, so that the task which asks it is lost, is one that never
answers. -/
theorem never_stuck (s : Store) :
    (∀ as,
      let d := (Desk.start s).run as
      let seen := (Desk.start s).notices as
      let g := d.phases.generation
      (d.phases.current ≠ .rendered →
        d.Waits g ∧ ¬ d.Starts g ∧ ¬ d.Compiles seen g ∨
        ¬ d.Waits g ∧ d.Starts g ∧ ¬ d.Compiles seen g ∨
        ¬ d.Waits g ∧ ¬ d.Starts g ∧ d.Compiles seen g) ∧
      ∀ bs, d.Driven bs →
        let e := d.run bs
        let ns := d.notices bs
        d.progress bs + e.work ≤ d.work ∧
        (e.phases.current ≠ .rendered → e.goesOn .next ∨ ∃ k, e.goesOn (.debounceElapsed k) ∨
          (∀ answer, e.goesOn (.compiled k answer)) ∨ ∀ answer, e.goesOn (.parsed k answer)) ∧
        (∀ n ∈ ns, if n.isActive then n.generation = g else n.generation < g) ∧
        ns.count (.requestSent g) ≤ 1 ∧ ns.count (.showedCompiling g) ≤ 1 ∧
        ns.countP Notice.isRendered = (if d.phases.current = .rendered then 0
          else if e.phases.current = .rendered then 1 else 0) ∧
        (e.phases.current = .rendered → ∃ r, e.rendering = some r ∧
          Shows ((Desk.start s).exchanges as ++ d.exchanges bs) g d.state r)) ∧
    ∀ timing ops sv,
      let t := (start (Desk.start s)).run timing ops
      let u := t.settle sv timing
      ((∀ op ∈ ops, op.Answers) → sv.Answers → u.desk.phases.current = .rendered) ∧
      ∃ as bs, t.desk = (Desk.start s).run as ∧ t.desk.Driven bs ∧ u.desk = t.desk.run bs := by
  refine ⟨fun as => ?_, fun timing ops sv => ?_⟩
  case refine_1 =>
    intro d seen g
    have htracks : Desk.Tracks ((Desk.start s).exchanges as) d := Desk.tracks_run s as
    have hcourse : Desk.Course seen d := Desk.course_run s as
    refine ⟨?_, fun bs hdriven => ?_⟩
    · intro hphase
      cases hcur : d.current with
      | none => exact absurd (hcourse.resting hcur).1 hphase
      | some k =>
        have hk : k = g := htracks.current_eq k hcur
        exact hk ▸ hcourse.waits_or_starts_or_compiles hcur
    · intro e ns
      have hafter : Desk.Course (seen ++ ns) e := hcourse.run htracks bs
      have htracks' := htracks.run bs
      obtain ⟨hgen, hstate⟩ := Desk.generation_run hdriven.isEdit_eq d
      have hcount : ∀ n : Notice, n.isActive → ns.count n ≤ 1 := by
        intro n hn
        have hle := hafter.count_le_one hn
        rw [List.count_append] at hle
        omega
      refine ⟨hdriven.progress_le htracks hcourse,
        fun hphase => (hafter.exists_goesOn hphase).imp_right fun ⟨k, _, hk⟩ => ⟨k, hk⟩,
        hdriven.generation_notices htracks hcourse, hcount _ rfl, hcount _ rfl,
        hdriven.countP_rendered htracks hcourse, ?_⟩
      intro hphase
      obtain ⟨r, hr, -, hshows⟩ := htracks'.shown hphase
      rw [hgen, hstate] at hshows
      exact ⟨r, hr, hshows⟩
  case refine_2 =>
    intro t u
    have hw : Wound t := wound_run s timing ops
    obtain ⟨as, hdesk⟩ := exists_run_eq (start (Desk.start s)) timing ops (Wound.start s)
    obtain ⟨bs, hpasses, hdriven⟩ : ∃ bs, Passes sv timing t bs u ∧ t.desk.Driven bs :=
      passes_settleWith hw _
    exact ⟨fun hops hanswers => settle_rendered hw ⟨served_run s timing hops _, .always hanswers⟩,
      as, bs, hdesk, hdriven, hpasses.desk_eq⟩

/-- The second cycle takes the place of the first one, which waits for an answer. -/
def replacedRun : List Desk.Action := [.debounceElapsed 1, .next, .edit (.code "x")]

/-- Both cycles are answered, the first one with an error. -/
def answeredRun : List Desk.Action :=
  [.compiled 1 (.error (.status "compiler" 500)), .next, .debounceElapsed 2, .next,
    .compiled 2 (.ok ⟨0, []⟩), .parsed 2 (.ok []), .next]

theorem never_stuck_replacedRun :
    (((Desk.start default).run replacedRun).Waits 2 ∨
      ((Desk.start default).run replacedRun).Starts 2 ∨
      ((Desk.start default).run replacedRun).Compiles ((Desk.start default).notices replacedRun) 2) ∧
    ∃ r, (((Desk.start default).run replacedRun).run answeredRun).rendering = some r ∧
      Shows ((Desk.start default).exchanges replacedRun ++
        ((Desk.start default).run replacedRun).exchanges answeredRun) 2
        { State.initial with code := "x" } r := by
  obtain ⟨hone, hdriven⟩ := (never_stuck default).1 replacedRun
  refine ⟨?_, (hdriven answeredRun ⟨rfl, rfl, rfl, rfl, rfl, rfl, rfl, trivial⟩).2.2.2.2.2.2 rfl⟩
  rcases hone (by decide) with ⟨hwaits, -⟩ | ⟨-, hstarts, -⟩ | ⟨-, -, hcompiles⟩
  · exact .inl hwaits
  · exact .inr (.inl hstarts)
  · exact .inr (.inr hcompiles)

end Playground.Timeline
