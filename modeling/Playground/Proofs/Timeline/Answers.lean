import Playground.Proofs.Timeline.Debounce

/-!
# The answers to the newest cycle

Services that answer all that is asked about a state do so in a fixed time, `latency?`.  The timers
of the newest cycle are due at fixed times from its request on and hold the answers of the services
(`Timer.IsTimely`), as long as one waits with the same services (`Timely`).  So what this cycle has
been told is what the services answer (`Timely.isFrom_ticks`).

`Attended` says that the newest cycle gets all answers that it waits for, now and from now on.
Either the services answer every request, or they answer those about its state.
-/

namespace Playground

namespace Services

/-- Every request is answered. -/
def Answers (sv : Services) : Prop :=
  (∀ r, (sv.compile r).isSome) ∧ ∀ r, (sv.parse r).isSome

/-- The time from the request for a state to the outcome of its cycle, if all that is asked on the
way is answered. -/
def latency? (sv : Services) (s : State) : Option Nat :=
  (sv.compile s.compileRequest).bind fun x =>
    match x.answer with
    | .error _ => some x.delay
    | .ok o => (sv.parse (s.parseRequest o.stderr)).map fun y => x.delay + y.delay

theorem latency?_of_error {sv : Services} {s : State} {delay : Nat} {e : PlaygroundError}
    (h : sv.compile s.compileRequest = some ⟨delay, .error e⟩) : sv.latency? s = some delay := by
  rw [latency?, h, Option.bind_some]

theorem latency?_of_ok {sv : Services} {s : State} {delay : Nat} {o : CompileOutput}
    (h : sv.compile s.compileRequest = some ⟨delay, .ok o⟩) : sv.latency? s =
      (sv.parse (s.parseRequest o.stderr)).map fun y => delay + y.delay := by
  rw [latency?, h, Option.bind_some]

theorem delay_le_latency {sv : Services} {s : State} {total : Nat}
    {x : Delayed (Except PlaygroundError CompileOutput)} (h : sv.compile s.compileRequest = some x)
    (ht : sv.latency? s = some total) : x.delay ≤ total := by
  obtain ⟨delay, answer⟩ := x
  cases answer with
  | error e =>
    rw [latency?_of_error h] at ht
    exact Nat.le_of_eq (Option.some.inj ht)
  | ok o =>
    rw [latency?_of_ok h] at ht
    obtain ⟨y, -, rfl⟩ := Option.map_eq_some_iff.mp ht
    exact Nat.le_add_right _ _

end Services

/-- What is asked about a state is answered, if a timer of this kind is for its answer. -/
def Services.AnswersAbout (sv : Services) (s : State) : Alarm.Kind → Prop
  | .compile => (sv.compile s.compileRequest).isSome
  | .parse => ∀ delay o, sv.compile s.compileRequest = some ⟨delay, .ok o⟩ →
      (sv.parse (s.parseRequest o.stderr)).isSome
  | .debounce | .spinner => True

/-- With an answer to all that is asked about a state, each service has answered. -/
theorem Services.answersAbout {sv : Services} {s : State} (h : (sv.latency? s).isSome)
    (k : Alarm.Kind) : sv.AnswersAbout s k := by
  cases k with
  | compile =>
    rw [AnswersAbout]
    cases hx : sv.compile s.compileRequest with
    | none => simp [latency?, hx] at h
    | some x => rfl
  | parse =>
    intro delay o hcompile
    rwa [sv.latency?_of_ok hcompile, Option.isSome_map] at h
  | _ => trivial

/-- The answer is that of the services to what is asked about the state `s`. -/
def Exchange.IsFrom (sv : Services) (s : State) : Exchange → Prop
  | .compile _ _ answer => ∃ delay, sv.compile s.compileRequest = some ⟨delay, answer⟩
  | .parse _ r answer => ∃ delay, sv.parse r = some ⟨delay, answer⟩

theorem Services.Answers.isAnswered {sv : Services} (h : sv.Answers) (d : Desk) (a : Alarm)
    (k : Alarm.Kind) : a.IsAnswered sv d k := by
  cases k with
  | compile => exact fun r _ => h.1 r
  | parse => exact fun r _ => h.2 r
  | _ => trivial

/-! ## Timers that are due in time -/

/-- The timer is due at a fixed time from the request for a state on, with the answer of the
services. -/
def Timer.IsTimely (sv : Services) (timing : Timing) (s : State) (sentAt : Nat)
    (x : Timer) : Prop :=
  match x.alarm with
  | .debounce _ => True
  | .compiled _ answer =>
    ∃ delay, sv.compile s.compileRequest = some ⟨delay, answer⟩ ∧ x.due = sentAt + delay
  | .parsed _ answer =>
    ∃ o delay delay', sv.compile s.compileRequest = some ⟨delay, .ok o⟩ ∧
      sv.parse (s.parseRequest o.stderr) = some ⟨delay', answer⟩ ∧
      x.due = sentAt + (delay + delay')
  | .spinner _ => x.due = sentAt + timing.spinner

namespace Timer.IsTimely

variable {sv : Services} {timing : Timing} {s : State} {sentAt total : Nat} {x : Timer}

theorem of_compile (h : x.IsTimely sv timing s sentAt) (hk : x.alarm.kind = .compile)
    (ht : sv.latency? s = some total) : x.due ≤ sentAt + total := by
  obtain ⟨due, alarm⟩ := x
  cases alarm with
  | compiled g answer =>
    obtain ⟨delay, hcompile, rfl⟩ := h
    exact Nat.add_le_add_left (sv.delay_le_latency hcompile ht) sentAt
  | _ => cases hk

theorem of_parse (h : x.IsTimely sv timing s sentAt) (hk : x.alarm.kind = .parse)
    (ht : sv.latency? s = some total) : x.due = sentAt + total := by
  obtain ⟨due, alarm⟩ := x
  cases alarm with
  | parsed g answer =>
    obtain ⟨o, delay, delay', hcompile, hparse, rfl⟩ := h
    rw [sv.latency?_of_ok hcompile, hparse] at ht
    rw [← Option.some.inj ht]
  | _ => cases hk

theorem of_spinner (h : x.IsTimely sv timing s sentAt) (hk : x.alarm.kind = .spinner) :
    x.due = sentAt + timing.spinner := by
  obtain ⟨due, alarm⟩ := x
  cases alarm with
  | spinner g => exact h
  | _ => cases hk

/-- An error of the compile service ends the cycle. -/
theorem of_error {due g : Nat} {e : PlaygroundError}
    (h : Timer.IsTimely sv timing s sentAt ⟨due, .compiled g (.error e)⟩)
    (ht : sv.latency? s = some total) : due = sentAt + total := by
  obtain ⟨delay, hcompile, hdue⟩ := h
  rw [sv.latency?_of_error hcompile] at ht
  cases ht
  exact hdue

/-- What a timer sets is due at its time, too. -/
theorem sets {d : Desk} (hx : x.IsTimely sv timing s sentAt)
    (hsent : x.alarm.kind = .debounce → x.due = sentAt)
    (hsnap : ∀ c, d.cycle? x.alarm.generation = some c → c.snapshot = s) {p : Nat × Alarm}
    (hp : p ∈ x.alarm.sets sv timing d) : Timer.IsTimely sv timing s sentAt ⟨x.due + p.1, p.2⟩ := by
  obtain ⟨due, alarm⟩ := x
  cases alarm with
  | debounce g =>
    cases hc : d.cycle? g with
    | none => simp [Alarm.sets, Alarm.sends?, Alarm.asks?, hc] at hp
    | some c =>
      rw [Alarm.sets_debounce hc, hsnap c hc] at hp
      obtain rfl : due = sentAt := hsent rfl
      rcases List.mem_cons.mp hp with rfl | hp
      · rfl
      · obtain ⟨y, hy, rfl⟩ := Option.map_eq_some_iff.mp (Option.mem_toList.mp hp)
        exact ⟨y.delay, hy, rfl⟩
  | compiled g answer =>
    cases hc : d.cycle? g with
    | none => simp [Alarm.sets, Alarm.sends?, Alarm.asks?, hc] at hp
    | some c =>
      cases answer with
      | error e => simp [Alarm.sets, Alarm.sends?, Alarm.asks?, Except.toOption] at hp
      | ok o =>
        rw [Alarm.sets_compiled hc, hsnap c hc] at hp
        obtain ⟨y, hy, rfl⟩ := Option.map_eq_some_iff.mp (Option.mem_toList.mp hp)
        obtain ⟨delay, hcompile, hdue⟩ := hx
        have hdue : due = _ := hdue
        exact ⟨o, delay, y.delay, hcompile, hy, by simp only [hdue, Nat.add_assoc]⟩
  | parsed g answer => simp [Alarm.sets, Alarm.sends?, Alarm.asks?] at hp
  | spinner g => simp [Alarm.sets, Alarm.sends?, Alarm.asks?] at hp

/-- A service that answers what is asked about a state answers what a timer of its cycle asks. -/
theorem isAnswered {d : Desk} (hx : x.IsTimely sv timing s sentAt)
    (hsnap : ∀ c, d.cycle? x.alarm.generation = some c → c.snapshot = s) {k : Alarm.Kind}
    (hk : sv.AnswersAbout s k) : x.alarm.IsAnswered sv d k := by
  obtain ⟨due, alarm⟩ := x
  cases k with
  | compile =>
    cases alarm with
    | debounce g =>
      intro r hr
      obtain ⟨c, hc, rfl⟩ := Option.map_eq_some_iff.mp hr
      rw [hsnap c hc]
      exact hk
    | _ => exact fun _ hr => by cases hr
  | parse =>
    cases alarm with
    | compiled g answer =>
      intro r hr
      obtain ⟨delay, hcompile, -⟩ := hx
      cases answer with
      | error e => cases hc : d.cycle? g <;> simp [Alarm.asks?, hc, Except.toOption] at hr
      | ok o =>
        obtain ⟨c, hc, hr⟩ := Option.bind_eq_some_iff.mp hr
        cases hr
        rw [hsnap c hc]
        exact hk delay o hcompile
    | _ => exact fun _ hr => by cases hr
  | _ => trivial

end Timer.IsTimely

namespace Timeline

open Desk (Tracks Kept)

variable {sv : Services} {timing : Timing} {t u : Timeline} {as : List Desk.Action} {g opened : Nat}
  {s : State} {sent : List (Nat × CompileRequest)}

/-! ## Exchanges -/

theorem exchanges_begin (d : Desk) : d.exchanges d.stops = [] := by
  have hnone : ∀ (cs : List Cycle) (d : Desk),
      d.exchanges (cs.map fun c => .spinnerStopped c.generation) = [] := by
    intro cs
    induction cs with
    | nil => exact fun _ => rfl
    | cons c cs ih => exact fun d => ih _
  exact hnone _ d

/-- The exchange of a ring is that of the timer. -/
theorem exchanges_ring (d : Desk) (ms : Nat) (a : Alarm) :
    d.exchanges [.wait ms, a.action] = (d.exchange? a.action).toList := by
  have hsame : (d.act (.wait ms)).exchange? a.action = d.exchange? a.action := by
    cases a <;> rfl
  rw [← hsame]
  exact List.append_nil _

/-- An exchange comes with a timer that goes off. -/
theorem Ticks.exists_of_mem_exchanges (hticks : Ticks sv timing t as u) {e : Exchange}
    (he : e ∈ t.desk.exchanges as) :
    ∃ x ∈ t.timers, t.desk.exchange? x.alarm.action = some e := by
  cases hticks with
  | begin =>
    rw [exchanges_begin] at he
    cases he
  | ring hring =>
    cases hring with
    | @mk x before after ha htimers hmin hnow =>
      rw [exchanges_ring] at he
      exact ⟨x, (mem_timers_iff htimers).mpr (.inl rfl), Option.mem_toList.mp he⟩
  | clock _ _ _ => cases he
  | handle => cases he

/-! ## The newest cycle -/

/-- The newest cycle is about this state, and its timers are timely. -/
structure Timely (sv : Services) (timing : Timing) (g : Nat) (s : State) (opened : Nat)
    (t : Timeline) : Prop where
  generation : t.desk.phases.generation = g
  snapshot : ∀ c ∈ t.desk.cycles, c.generation = g → c.snapshot = s
  timely : ∀ x ∈ t.timers, x.alarm.generation = g →
    x.IsTimely sv timing s (opened + timing.debounce)

namespace Timely

theorem snapshot_eq (h : Timely sv timing g s opened t) {c : Cycle}
    (hc : t.desk.cycle? g = some c) :
    c.snapshot = s := by
  obtain ⟨hmem, hcg⟩ := Desk.cycle?_eq_some hc
  exact h.snapshot c hmem hcg

theorem isAnswered (h : Timely sv timing g s opened t) {x : Timer} (hx : x ∈ t.timers)
    (hg : x.alarm.generation = g) {k : Alarm.Kind} (hk : sv.AnswersAbout s k) :
    x.alarm.IsAnswered sv t.desk k :=
  (h.timely x hx hg).isAnswered (fun _ hc => h.snapshot_eq (hg ▸ hc)) hk

theorem ring (h : Timely sv timing g s opened t) (hp : Pausing timing.debounce sent opened t)
    (hring : Ring sv timing t as u) : Timely sv timing g s opened u := by
  have hgen := (Ticks.ring hring).passes.generation_eq.1
  cases hring with
  | @mk x before after ha htimers hmin hnow =>
    have hx : x ∈ t.timers := (mem_timers_iff htimers).mpr (.inl rfl)
    constructor
    case generation => exact hgen.trans h.generation
    case snapshot =>
      rcases rung_desk sv timing t x (before ++ after) with ⟨-, hdesk⟩ | ⟨c, f, es, hc, hm, hdesk⟩
      · rw [hdesk]
        exact h.snapshot
      · rw [hdesk]
        intro b hb hbg
        obtain ⟨a, hmem, rfl⟩ := Desk.mem_change hb
        split at hbg
        case isTrue hac =>
          rw [if_pos hac, hm.snapshot_eq]
          exact h.snapshot a hmem ((hm.generation_eq a).symm.trans hbg)
        case isFalse hac =>
          rw [if_neg hac]
          exact h.snapshot a hmem hbg
    case timely =>
      intro y hy hg
      rcases mem_rung_iff.mp hy with hy | ⟨p, hps, rfl⟩
      · exact h.timely y ((mem_timers_iff htimers).mpr (.inr hy)) hg
      · have hxg : x.alarm.generation = g := (Alarm.of_mem_sets hps).1.symm.trans hg
        refine (h.timely x hx hxg).sets ?_ (fun c hc => h.snapshot_eq (hxg ▸ hc)) hps
        exact fun hk => hp.due_eq x hx hk (hxg.trans h.generation.symm)

theorem begin (h : Timely sv timing g s opened t) :
    Timely sv timing g s opened (t.begin timing) := by
  obtain ⟨cs, hdesk, hkept⟩ := exists_desk_begin timing t
  constructor
  case generation => rw [hdesk]; exact h.generation
  case snapshot =>
    rw [hdesk]
    intro c hc hcg
    obtain ⟨b, hb, hbg, hsnap, -⟩ := hkept c hc
    exact hsnap.trans (h.snapshot b hb (hbg.symm.trans hcg))
  case timely =>
    intro x hx hxg
    rcases List.mem_append.mp hx with hx | hx
    · exact h.timely x (List.mem_filter.mp hx).1 hxg
    · obtain ⟨c, -, rfl⟩ := List.mem_map.mp hx
      trivial

theorem handle (h : Timely sv timing g s opened t) :
    Timely sv timing g s opened (t.on (·.act .next)) where
  generation := (Desk.generation_act (a := .next) rfl).1.trans h.generation
  snapshot := by
    intro c hc hcg
    obtain ⟨b, hb, hbg, hsnap, -⟩ := Kept.next t.desk c hc
    exact hsnap.trans (h.snapshot b hb (hbg.symm.trans hcg))
  timely := h.timely

theorem ticks (h : Timely sv timing g s opened t) (hp : Pausing timing.debounce sent opened t)
    (hticks : Ticks sv timing t as u) : Timely sv timing g s opened u := by
  cases hticks with
  | begin => exact h.begin
  | ring hring => exact h.ring hp hring
  | clock _ _ _ => exact ⟨h.generation, h.snapshot, h.timely⟩
  | handle => exact h.handle

/-- What the newest cycle is told is what the services answer. -/
theorem isFrom_exchange? (h : Timely sv timing g s opened t) {log : List Exchange}
    (ht : Tracks log t.desk) (hlog : ∀ e ∈ log, e.slot.1 = g → e.IsFrom sv s) {x : Timer}
    (hx : x ∈ t.timers) {e : Exchange} (he : t.desk.exchange? x.alarm.action = some e)
    (hg : e.slot.1 = g) : e.IsFrom sv s := by
  have htimely := h.timely x hx
  obtain ⟨due, alarm⟩ := x
  cases alarm with
  | debounce k => cases he
  | spinner k => cases he
  | compiled k answer =>
    simp only [Alarm.action, Desk.exchange?] at he
    split at he
    · next c hc =>
      split at he
      · cases he
        obtain rfl : k = g := hg
        obtain ⟨delay, hcompile, -⟩ := htimely rfl
        exact ⟨delay, hcompile⟩
      · cases he
    · cases he
  | parsed k answer =>
    simp only [Alarm.action, Desk.exchange?] at he
    split at he
    · next c hc =>
      split at he
      · next o hs =>
        cases he
        obtain rfl : k = g := hg
        obtain ⟨hmem, hcg⟩ := Desk.cycle?_eq_some hc
        -- The output that the cycle has is the one that the timer has been set for.
        obtain ⟨delay, hold⟩ := hlog _ (ht.parsing c hmem o hs).1 hcg
        obtain ⟨o', delay', delay'', hcompile, hparse, -⟩ := htimely rfl
        rw [hcompile] at hold
        cases hold
        rw [← h.snapshot_eq hc] at hparse
        exact ⟨delay'', hparse⟩
      · cases he
    · cases he

theorem isFrom_ticks (h : Timely sv timing g s opened t) {log : List Exchange}
    (ht : Tracks log t.desk) (hlog : ∀ e ∈ log, e.slot.1 = g → e.IsFrom sv s)
    (hticks : Ticks sv timing t as u) :
    ∀ e ∈ log ++ t.desk.exchanges as, e.slot.1 = g → e.IsFrom sv s := by
  intro e he hg
  rcases List.mem_append.mp he with he | he
  · exact hlog e he hg
  · obtain ⟨x, hx, he⟩ := hticks.exists_of_mem_exchanges he
    exact h.isFrom_exchange? ht hlog hx he hg

end Timely

/-! ## Cycles that get their answers -/

/-- What the newest cycle asks from now on is answered. -/
inductive Replies (sv : Services) (timing : Timing) (t : Timeline) : Prop where
  /-- The services answer every request. -/
  | always (answers : sv.Answers)
  /-- They answer the requests about the state of the cycle. -/
  | timely {s : State} {opened : Nat} {sent : List (Nat × CompileRequest)}
      (timely : Timely sv timing t.desk.phases.generation s opened t)
      (pausing : Pausing timing.debounce sent opened t) (answers : (sv.latency? s).isSome)

/-- The newest cycle gets all answers that it waits for, now and from now on. -/
structure Attended (sv : Services) (timing : Timing) (t : Timeline) : Prop where
  served : t.Served t.desk.phases.generation
  replies : Replies sv timing t

theorem Replies.isAnswered (h : Replies sv timing t) {x : Timer} (hx : x ∈ t.timers)
    (hg : x.alarm.generation = t.desk.phases.generation) (k : Alarm.Kind) :
    x.alarm.IsAnswered sv t.desk k := by
  cases h with
  | always answers => exact answers.isAnswered t.desk x.alarm k
  | timely htimely _ answers => exact htimely.isAnswered hx hg (sv.answersAbout answers k)

namespace Attended

theorem ticks (h : Attended sv timing t) (hw : Wound t) (hticks : Ticks sv timing t as u) :
    Attended sv timing u := by
  have hgen := hticks.passes.generation_eq.1
  constructor
  case served =>
    rw [hgen]
    exact h.served.ticks hw (fun x hx hg => h.replies.isAnswered hx hg) hticks
  case replies =>
    cases h.replies with
    | always answers => exact .always answers
    | timely htimely hp answers =>
      exact .timely (hgen ▸ htimely.ticks hp hticks) (hp.ticks hw hticks) answers

theorem passes (h : Attended sv timing t) (hw : Wound t) (hpasses : Passes sv timing t as u) :
    Attended sv timing u := by
  induction hpasses with
  | refl => exact h
  | tick hticks _ ih => exact ih (h.ticks hw hticks) (hw.ticks hticks)

end Attended

/-- What is waited for at the operation is answered. -/
def Op.Answers : Op → Prop
  | .wait sv _ => sv.Answers
  | _ => True

theorem Served.passes (h : ∀ g, t.Served g) (hw : Wound t) (hanswers : sv.Answers)
    (hpasses : Passes sv timing t as u) : ∀ g, u.Served g := by
  induction hpasses with
  | refl => exact h
  | tick hticks _ ih =>
    exact ih (fun g => (h g).ticks hw (fun x _ _ => hanswers.isAnswered _ _) hticks)
      (hw.ticks hticks)

/-- After a run with services that answer every request, every cycle gets the answer that it waits
for. -/
theorem served_run (s : Store) (timing : Timing) {ops : List Op} (h : ∀ op ∈ ops, op.Answers)
    (g : Nat) : ((start (Desk.start s)).run timing ops).Served g := by
  have hstart : ∀ g, (Timeline.start (Desk.start s)).Served g := by
    intro g k hk c hc _ hawaits
    rw [List.mem_singleton.mp hc] at hawaits
    cases k with
    | compile => cases hawaits
    | parse => cases hawaits
    | _ => cases hk
  suffices hall : ∀ t : Timeline, Wound t → (∀ g, t.Served g) →
      ∀ g, (t.run timing ops).Served g from
    hall _ (Wound.start s) hstart g
  induction ops with
  | nil => exact fun t _ hserved => hserved
  | cons op ops ih =>
    intro t hw hserved
    refine ih (fun b hb => h b (List.mem_cons_of_mem op hb)) (t.perform timing op)
      (hw.perform timing op) ?_
    have hop := h op (List.mem_cons_self ..)
    cases op with
    | edit e =>
      intro g k hk
      exact (hserved g k hk).edit (by rintro rfl; cases hk) e
    | persist on => exact fun g k hk => (hserved g k hk).kept (Kept.refl _)
    | wait sv w =>
      obtain ⟨as, hpasses⟩ := passes_wait hw sv timing w
      exact Served.passes hserved hw hop hpasses

end Timeline

end Playground
