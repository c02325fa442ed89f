import Playground.Proofs.Timeline.Timers

/-!
# Waiting is a row of ticks

The operations of a timeline loop over the timers.  Here each of them is shown to be a
row of ticks.

`fire` goes on at once with an answer that takes no time, which is one more ring.  Every
ring takes more from the weight of the timers than it gives back, so no loop runs out of
fuel before the timers are done that are due.
-/

namespace Playground.Timeline

variable {sv : Services} {timing : Timing} {t u v : Timeline} {as bs : List Desk.Action}
  {deadline : Nat}

/-! ## Rows of rings -/

/-- Timers that are due by a time go off. -/
inductive Rings (sv : Services) (timing : Timing) (deadline : Nat) :
    Timeline → List Desk.Action → Timeline → Prop where
  | refl (t : Timeline) : Rings sv timing deadline t [] t
  | ring {t u v : Timeline} {as bs : List Desk.Action} :
      Ring sv timing t as u → u.now ≤ deadline → Rings sv timing deadline u bs v →
      Rings sv timing deadline t (as ++ bs) v

/-- The events to handle, and the rings that are left with one event each. -/
def load (t : Timeline) : Nat := t.desk.queue.length + 2 * t.weight

theorem weight_eq (t : Timeline) : t.weight = (t.timers.map (·.alarm.weight)).sum := by
  unfold weight
  induction t.timers with
  | nil => rfl
  | cons x xs ih => simp [ih]

/-- What a timer sets weighs less than the timer. -/
theorem weight_sets_lt (a : Alarm) (sv : Services) (timing : Timing)
    (d : Desk) : ((a.sets sv timing d).map (·.2.weight)).sum < a.weight := by
  cases a with
  | debounce g =>
    cases h : d.cycle? g with
    | none => simp [Alarm.sets, Alarm.sends?, Alarm.asks?, h, Alarm.weight]
    | some c =>
      rw [Alarm.sets_debounce h]
      cases sv.compile c.snapshot.compileRequest <;> simp [Alarm.weight]
  | compiled g answer =>
    cases h : (Alarm.compiled g answer).asks? d with
    | none => simp [Alarm.sets, Alarm.sends?, h, Alarm.weight]
    | some r => cases hx : sv.parse r <;> simp [Alarm.sets, Alarm.sends?, h, hx, Alarm.weight]
  | parsed g answer => simp [Alarm.sets, Alarm.sends?, Alarm.asks?, Alarm.weight]
  | spinner g => simp [Alarm.sets, Alarm.sends?, Alarm.asks?, Alarm.weight]

theorem Ring.weight_lt (h : Ring sv timing t as u) : u.weight < t.weight := by
  cases h with
  | @mk x before after _ htimers _ _ =>
    have hlt := weight_sets_lt x.alarm sv timing t.desk
    rw [weight_eq, weight_eq, htimers, rung]
    simp only [List.map_append, List.map_cons, List.sum_append, List.sum_cons, List.map_map,
      Function.comp_def]
    omega

theorem Ring.length_queue_le (h : Ring sv timing t as u) :
    u.desk.queue.length ≤ t.desk.queue.length + 1 := by
  cases h with
  | @mk x before after _ _ _ _ =>
    rcases rung_desk sv timing t x (before ++ after) with
      ⟨-, hdesk⟩ | ⟨c, f, es, hc, hm, hdesk⟩
    · rw [hdesk]
      exact Nat.le_succ _
    · have hlen := hm.length_le_one
      rw [hdesk]
      simpa [Desk.moved, goTo, on] using hlen

/-- A ring leaves less to do. -/
theorem Ring.load_lt (h : Ring sv timing t as u) : u.load < t.load := by
  have hweight := h.weight_lt
  have hqueue := h.length_queue_le
  simp only [load]
  omega

theorem Ring.isOwn (h : Ring sv timing t as u) : ∀ a ∈ as, a.isOwn := by
  cases h with
  | @mk x _ _ _ _ _ _ =>
    simp only [List.mem_cons, List.not_mem_nil, or_false]
    rintro a (rfl | rfl)
    · rfl
    · cases x.alarm <;> rfl

namespace Rings

theorem append (h : Rings sv timing deadline t as u) (h' : Rings sv timing deadline u bs v) :
    Rings sv timing deadline t (as ++ bs) v := by
  induction h with
  | refl => exact h'
  | ring hring hnow _ ih =>
    rw [List.append_assoc]
    exact .ring hring hnow (ih h')

theorem wound (h : Rings sv timing deadline t as u) (hw : Wound t) : Wound u := by
  induction h with
  | refl => exact hw
  | ring hring _ _ ih => exact ih (hw.ring hring)

theorem armed (h : Rings sv timing deadline t as u) (hw : Wound t) (ha : t.Armed .debounce) :
    u.Armed .debounce := by
  induction h with
  | refl => exact ha
  | ring hring _ _ ih => exact ih (hw.ring hring) (hring.armed hw.nodup rfl ha)

theorem now_le (h : Rings sv timing deadline t as u) (hnow : t.now ≤ deadline) :
    u.now ≤ deadline := by
  induction h with
  | refl => exact hnow
  | ring _ hle _ ih => exact ih hle

theorem mono (h : Rings sv timing deadline t as u) {later : Nat} (hle : deadline ≤ later) :
    Rings sv timing later t as u := by
  induction h with
  | refl => exact .refl _
  | ring hring hnow _ ih => exact .ring hring (Nat.le_trans hnow hle) ih

theorem weight_le (h : Rings sv timing deadline t as u) : u.weight ≤ t.weight := by
  induction h with
  | refl => exact Nat.le_refl _
  | ring hring _ _ ih => exact Nat.le_trans ih (Nat.le_of_lt hring.weight_lt)

theorem load_le (h : Rings sv timing deadline t as u) : u.load ≤ t.load := by
  induction h with
  | refl => exact Nat.le_refl _
  | ring hring _ _ ih => exact Nat.le_trans ih (Nat.le_of_lt hring.load_lt)

theorem passes (h : Rings sv timing deadline t as u) : Passes sv timing t as u := by
  induction h with
  | refl => exact .refl _
  | ring hring _ _ ih => exact .tick (.ring hring) ih

theorem isOwn (h : Rings sv timing deadline t as u) : ∀ a ∈ as, a.isOwn := by
  induction h with
  | refl => nofun
  | ring hring _ _ ih =>
    intro a ha
    rcases List.mem_append.mp ha with ha | ha
    · exact hring.isOwn a ha
    · exact ih a ha

end Rings

/-- A timer goes off by a time, and those that it sets without a delay after it. -/
def Fires (sv : Services) (timing : Timing) (deadline : Nat) (t v : Timeline) : Prop :=
  ∃ as u bs, Ring sv timing t as u ∧ u.now ≤ deadline ∧ Rings sv timing deadline u bs v

theorem Ring.fires (h : Ring sv timing t as u) (hle : u.now ≤ deadline) :
    Fires sv timing deadline t u :=
  ⟨as, u, [], h, hle, .refl u⟩

theorem Ring.fires_of (h : Ring sv timing t as u) (hle : u.now ≤ deadline)
    (h' : Fires sv timing deadline u v) : Fires sv timing deadline t v := by
  obtain ⟨bs, w, cs, hring, hle', hrings⟩ := h'
  exact ⟨as, u, bs ++ cs, h, hle, .ring hring hle' hrings⟩

/-- A timer that is due first goes off. -/
theorem Wound.ring_first (hw : Wound t) (ha : t.Armed .debounce) {x : Timer}
    {before after : List Timer} (htimers : t.timers = before ++ x :: after)
    (hmin : ∀ y ∈ before ++ after, x.due ≤ y.due) :
    Ring sv timing t [.wait (x.due - t.now), x.alarm.action]
      (t.rung sv timing x (before ++ after)) :=
  .mk ha htimers hmin (hw.due_ge x ((mem_timers_iff htimers).mpr (.inl rfl)))

/-- The timer that has been set last goes off at once. -/
theorem Ring.last (ha : t.Armed .debounce) (hw : Wound t) {a : Alarm} {others : List Timer}
    (htimers : t.timers = others ++ [⟨t.now, a⟩]) :
    Ring sv timing t [.wait (t.now - t.now), a.action] (t.rung sv timing ⟨t.now, a⟩ others) := by
  have hring : Ring sv timing t _ (t.rung sv timing ⟨t.now, a⟩ (others ++ [])) :=
    .mk ha htimers (fun y hy => hw.due_ge y (by simp_all)) (Nat.le_refl _)
  rwa [List.append_nil] at hring

/-! ## One timer -/

theorem goTo_self (t : Timeline) : t.goTo t.now = t := rfl

/-- An answer of the parse service that takes no time. -/
theorem fires_parsed (ha : t.Armed .debounce) (hw : Wound t) {g : Nat}
    {answer : Except PlaygroundError (List Entry)} {others : List Timer}
    (htimers : t.timers = others ++ [⟨t.now, .parsed g answer⟩]) (hle : t.now ≤ deadline) :
    Fires sv timing deadline t
      { t with desk := t.desk.parsed g answer, timers := others } := by
  have hfires : Fires sv timing deadline t (t.rung sv timing ⟨t.now, .parsed g answer⟩ others) :=
    (Ring.last ha hw htimers).fires (by rwa [now_rung])
  simpa [rung, Alarm.sets, Alarm.sends?, Alarm.asks?, Alarm.action, goTo_self, Desk.act]
    using hfires

section Answers

variable {g : Nat} {answer : Except PlaygroundError CompileOutput}

/-- An answer that ends the cycle. -/
theorem compiled_of_none (h : (Alarm.compiled g answer).asks? t.desk = none) :
    t.compiled sv g answer = t.on (·.compiled g answer) := by
  simp only [Alarm.asks?] at h
  simp only [compiled, h]

/-- Output that the parse service takes its time for, or does not answer. -/
theorem compiled_of_ne {r : ParseRequest} (h : (Alarm.compiled g answer).asks? t.desk = some r)
    (hdelay : ∀ x, sv.parse r = some x → x.delay ≠ 0) : t.compiled sv g answer = { t with
      desk := t.desk.compiled g answer
      timers := t.timers ++
        ((sv.parse r).map fun x => ⟨t.now + x.delay, .parsed g x.answer⟩).toList
      logs := t.logs ++ [r] } := by
  have hnow : (t.desk.compiled g answer).now = t.desk.now :=
    Desk.now_act (a := .compiled g answer) nofun
  simp only [Alarm.asks?] at h
  cases hx : sv.parse r with
  | none => simp only [compiled, h, hx, on, Option.map_none, Option.toList_none, List.append_nil]
  | some x =>
    simp only [compiled, h, hx, hdelay x hx, if_false, set, on, now, hnow, Option.map_some,
      Option.toList_some]

/-- Output that the parse service answers at once. -/
theorem compiled_of_eq {r : ParseRequest} {x : Delayed (Except PlaygroundError (List Entry))}
    (h : (Alarm.compiled g answer).asks? t.desk = some r) (hx : sv.parse r = some x)
    (hdelay : x.delay = 0) : t.compiled sv g answer = { t with
      desk := (t.desk.compiled g answer).parsed g x.answer
      logs := t.logs ++ [r] } := by
  simp only [Alarm.asks?] at h
  simp only [compiled, h, hx, hdelay, if_true, on]

theorem rung_compiled (sv : Services) (timing : Timing) (t : Timeline) (g due : Nat)
    (answer : Except PlaygroundError CompileOutput) (others : List Timer) :
    t.rung sv timing ⟨due, .compiled g answer⟩ others = {
      desk := (t.goTo due).desk.compiled g answer
      timers := others ++ (((Alarm.compiled g answer).asks? t.desk).bind fun r =>
        (sv.parse r).map fun x => ⟨due + x.delay, .parsed g x.answer⟩).toList
      requests := t.requests
      logs := t.logs ++ ((Alarm.compiled g answer).asks? t.desk).toList } := by
  cases h : (Alarm.compiled g answer).asks? t.desk with
  | none => simp [rung, Alarm.sets, Alarm.sends?, Alarm.action, h, Desk.act]
  | some r =>
    cases hx : sv.parse r <;>
      simp [rung, Alarm.sets, Alarm.sends?, Alarm.action, Alarm.generation, h, hx, Desk.act]

/-- An answer of the compile service, and the one of the parse service if it takes no time. -/
theorem fires_compiled (ha : t.Armed .debounce) (hw : Wound t) {due : Nat}
    {before after : List Timer}
    (htimers : t.timers = before ++ ⟨due, .compiled g answer⟩ :: after)
    (hmin : ∀ y ∈ before ++ after, due ≤ y.due) (hdue : due ≤ deadline) :
    Fires sv timing deadline t
      (({ t with timers := before ++ after }.goTo due).compiled sv g answer) := by
  have hring : Ring sv timing t _
      (t.rung sv timing ⟨due, .compiled g answer⟩ (before ++ after)) :=
    hw.ring_first ha htimers hmin
  have hnow := now_rung sv timing t ⟨due, .compiled g answer⟩ (before ++ after)
  have hle := Nat.le_trans (Nat.le_of_eq hnow) hdue
  have hwound := hw.ring hring
  have harmed := hring.armed hw.nodup rfl ha
  have hrung := rung_compiled sv timing t g due answer (before ++ after)
  cases hasks : (Alarm.compiled g answer).asks? t.desk with
  | none =>
    have heq : ({ t with timers := before ++ after }.goTo due).compiled sv g answer = _ :=
      compiled_of_none hasks
    rw [hasks, Option.bind_none, Option.toList_none, Option.toList_none, List.append_nil,
      List.append_nil] at hrung
    have hfires := hring.fires hle
    rw [hrung] at hfires
    exact heq ▸ hfires
  | some r =>
    rw [hasks, Option.bind_some, Option.toList_some] at hrung
    by_cases hatOnce : ∃ x, sv.parse r = some x ∧ x.delay = 0
    case neg =>
      have heq : ({ t with timers := before ++ after }.goTo due).compiled sv g answer = _ :=
        compiled_of_ne hasks fun x hx hdelay => hatOnce ⟨x, hx, hdelay⟩
      have hfires := hring.fires hle
      rw [hrung] at hfires
      exact heq ▸ hfires
    case pos =>
      -- The answer of the parse service is a second ring at the same time.
      obtain ⟨x, hx, hdelay⟩ := hatOnce
      have heq : ({ t with timers := before ++ after }.goTo due).compiled sv g answer = _ :=
        compiled_of_eq hasks hx hdelay
      rw [hx, Option.map_some, Option.toList_some, hdelay, Nat.add_zero] at hrung
      have hfires : Fires sv timing deadline (t.rung sv timing _ (before ++ after)) _ :=
        fires_parsed harmed hwound (by rw [hnow, hrung]) hle
      rw [hrung] at hfires
      exact heq ▸ hring.fires_of hle (hrung ▸ hfires)

/-- An answer of the compile service that takes no time. -/
theorem fires_compiled_last (ha : t.Armed .debounce) (hw : Wound t) {others : List Timer}
    (htimers : t.timers = others ++ [⟨t.now, .compiled g answer⟩]) (hle : t.now ≤ deadline) :
    Fires sv timing deadline t ({ t with timers := others }.compiled sv g answer) := by
  have hmin : ∀ y ∈ others ++ [], t.now ≤ y.due := fun y hy => hw.due_ge y (by simp_all)
  have hfires : Fires sv timing deadline t _ := fires_compiled ha hw htimers hmin hle
  rwa [List.append_nil] at hfires

end Answers

section Pauses

variable {g : Nat} {c : Cycle}

theorem send_of_none (h : t.desk.cycle? g = none) : t.send sv timing g = t := by
  simp only [send, h]

/-- A request that the compile service takes its time for, or does not answer. -/
theorem send_of_ne (h : t.desk.cycle? g = some c)
    (hdelay : ∀ x, sv.compile c.snapshot.compileRequest = some x → x.delay ≠ 0) :
    t.send sv timing g = { t with
      desk := t.desk.debounceElapsed g
      timers := t.timers ++ ⟨t.now + timing.spinner, .spinner g⟩ ::
        ((sv.compile c.snapshot.compileRequest).map fun x =>
          ⟨t.now + x.delay, .compiled g x.answer⟩).toList
      requests := t.requests ++ [(t.now, c.snapshot.compileRequest)] } := by
  have hnow : (t.desk.debounceElapsed g).now = t.desk.now :=
    Desk.now_act (a := .debounceElapsed g) nofun
  cases hx : sv.compile c.snapshot.compileRequest with
  | none => simp [send, h, hx, set, on, now, hnow]
  | some x => simp [send, h, hx, hdelay x hx, set, on, now, hnow]

/-- A request that the compile service answers at once. -/
theorem send_of_eq {x : Delayed (Except PlaygroundError CompileOutput)}
    (h : t.desk.cycle? g = some c) (hx : sv.compile c.snapshot.compileRequest = some x)
    (hdelay : x.delay = 0) : t.send sv timing g =
      ({ t with
        desk := t.desk.debounceElapsed g
        timers := t.timers ++ [⟨t.now + timing.spinner, .spinner g⟩]
        requests := t.requests ++ [(t.now, c.snapshot.compileRequest)] } : Timeline).compiled sv g
        x.answer := by
  have hnow : (t.desk.debounceElapsed g).now = t.desk.now :=
    Desk.now_act (a := .debounceElapsed g) nofun
  simp [send, h, hx, hdelay, set, on, now, hnow]

theorem rung_debounce (sv : Services) (timing : Timing) (h : t.desk.cycle? g = some c) (due : Nat)
    (others : List Timer) : t.rung sv timing ⟨due, .debounce g⟩ others = {
      desk := (t.goTo due).desk.debounceElapsed g
      timers := others ++ ⟨due + timing.spinner, .spinner g⟩ ::
        ((sv.compile c.snapshot.compileRequest).map fun x =>
          ⟨due + x.delay, .compiled g x.answer⟩).toList
      requests := t.requests ++ [(due, c.snapshot.compileRequest)]
      logs := t.logs } := by
  cases hx : sv.compile c.snapshot.compileRequest <;>
    simp [rung, Alarm.sets_debounce h, Alarm.sends?, Alarm.asks?, Alarm.action, h, hx, Desk.act]

/-- The end of a pause, and the answers that take no time. -/
theorem fires_send (ha : t.Armed .debounce) (hw : Wound t) {due : Nat} {before after : List Timer}
    (htimers : t.timers = before ++ ⟨due, .debounce g⟩ :: after)
    (hmin : ∀ y ∈ before ++ after, due ≤ y.due) (hdue : due ≤ deadline) :
    Fires sv timing deadline t
      (({ t with timers := before ++ after }.goTo due).send sv timing g) := by
  have hring : Ring sv timing t _ (t.rung sv timing ⟨due, .debounce g⟩ (before ++ after)) :=
    hw.ring_first ha htimers hmin
  have hnow : (t.rung sv timing ⟨due, .debounce g⟩ (before ++ after)).now = due := now_rung ..
  have hle := Nat.le_trans (Nat.le_of_eq hnow) hdue
  have hwound := hw.ring hring
  have harmed := hring.armed hw.nodup rfl ha
  have hfires := hring.fires hle
  cases hc : t.desk.cycle? g with
  | none =>
    have heq : ({ t with timers := before ++ after }.goTo due).send sv timing g = _ :=
      send_of_none hc
    have hidle : (t.goTo due).desk.debounceElapsed g = (t.goTo due).desk := by
      simp only [Desk.debounceElapsed, show (t.goTo due).desk.cycle? g = none from hc]
    have hrung : t.rung sv timing ⟨due, .debounce g⟩ (before ++ after) = { t with
        desk := (t.goTo due).desk.debounceElapsed g
        timers := before ++ after } := by
      simp [rung, Alarm.sets, Alarm.sends?, Alarm.asks?, Alarm.action, hc, Desk.act]
    rw [hrung, hidle] at hfires
    rw [heq]
    exact hfires
  | some c =>
    have hrung := rung_debounce sv timing hc due (before ++ after)
    by_cases hatOnce : ∃ x, sv.compile c.snapshot.compileRequest = some x ∧ x.delay = 0
    case neg =>
      have heq : ({ t with timers := before ++ after }.goTo due).send sv timing g = _ :=
        send_of_ne hc fun x hx hdelay => hatOnce ⟨x, hx, hdelay⟩
      rw [hrung] at hfires
      rw [heq]
      exact hfires
    case pos =>
      obtain ⟨x, hx, hdelay⟩ := hatOnce
      have heq : ({ t with timers := before ++ after }.goTo due).send sv timing g = _ :=
        send_of_eq hc hx hdelay
      -- The timer of the answer has been set last, and rings at the same time.
      rw [hx, Option.map_some, Option.toList_some, hdelay, Nat.add_zero] at hrung
      have hsplit : (t.rung sv timing ⟨due, .debounce g⟩ (before ++ after)).timers =
          (before ++ after ++ [⟨due + timing.spinner, .spinner g⟩]) ++
            [⟨(t.rung sv timing ⟨due, .debounce g⟩ (before ++ after)).now,
              .compiled g x.answer⟩] := by
        rw [hnow, hrung]
        simp
      have hlast : Fires sv timing deadline _ _ := fires_compiled_last harmed hwound hsplit hle
      rw [hrung] at hlast
      rw [heq]
      exact hring.fires_of hle (hrung ▸ hlast)

end Pauses

/-- A timer that is due first goes off, and the answers after it that take no time. -/
theorem fires_fire (ha : t.Armed .debounce) (hw : Wound t) {x : Timer} {before after : List Timer}
    (htimers : t.timers = before ++ x :: after) (hmin : ∀ y ∈ before ++ after, x.due ≤ y.due)
    (hdue : x.due ≤ deadline) :
    Fires sv timing deadline t ({ t with timers := before ++ after }.fire sv timing x) := by
  have hring : Ring sv timing t _ (t.rung sv timing x (before ++ after)) :=
    hw.ring_first ha htimers hmin
  have hfires := hring.fires (Nat.le_trans (Nat.le_of_eq (now_rung ..)) hdue)
  obtain ⟨due, alarm⟩ := x
  cases alarm with
  | debounce g => exact fires_send ha hw htimers hmin hdue
  | compiled g answer => exact fires_compiled ha hw htimers hmin hdue
  | parsed g answer =>
    simpa [rung, Alarm.sets, Alarm.sends?, Alarm.asks?, fire, on, goTo, Alarm.action, Desk.act]
      using hfires
  | spinner g =>
    simpa [rung, Alarm.sets, Alarm.sends?, Alarm.asks?, fire, on, goTo, Alarm.action, Desk.act]
      using hfires

/-! ## Timers that are due -/

theorem earliest?_eq_none {xs : List Timer} (h : earliest? xs = none) : xs = [] := by
  cases xs with
  | nil => rfl
  | cons x xs =>
    simp only [earliest?] at h
    split at h
    · cases h
    · split at h <;> cases h

/-- The first timer stands somewhere, and none of the others is due before it. -/
theorem earliest?_eq_some {xs others : List Timer} {x : Timer}
    (h : earliest? xs = some (x, others)) : ∃ before after, xs = before ++ x :: after ∧
      others = before ++ after ∧ ∀ y ∈ before ++ after, x.due ≤ y.due := by
  induction xs generalizing x others with
  | nil => cases h
  | cons z zs ih =>
    simp only [earliest?] at h
    split at h
    case h_1 hnone =>
      cases h
      obtain rfl := earliest?_eq_none hnone
      exact ⟨[], [], rfl, rfl, nofun⟩
    case h_2 y ys hsome =>
      obtain ⟨before, after, rfl, rfl, hmin⟩ := ih hsome
      split at h
      case isTrue hle =>
        cases h
        refine ⟨[], _, rfl, rfl, ?_⟩
        intro w hw
        simp only [List.nil_append, List.mem_append, List.mem_cons] at hw hmin
        rcases hw with hw | rfl | hw
        · exact Nat.le_trans hle (hmin w (.inl hw))
        · exact hle
        · exact Nat.le_trans hle (hmin w (.inr hw))
      case isFalse hlt =>
        cases h
        refine ⟨z :: before, after, rfl, rfl, ?_⟩
        intro w hw
        rcases List.mem_cons.mp hw with rfl | hw
        · omega
        · exact hmin w hw

/-- The first timer goes off, if there is one that is due. -/
theorem fires_of_fireBy? (ha : t.Armed .debounce) (hw : Wound t)
    (h : t.fireBy? sv timing deadline = some u) : Fires sv timing deadline t u := by
  simp only [fireBy?] at h
  split at h
  case h_1 => cases h
  case h_2 x others hfirst =>
    obtain ⟨before, after, htimers, rfl, hmin⟩ := earliest?_eq_some hfirst
    split at h <;> cases h
    next hdue => exact fires_fire ha hw htimers hmin hdue

/-- No timer is due, if none goes off. -/
theorem lt_due_of_fireBy? (h : t.fireBy? sv timing deadline = none) :
    ∀ x ∈ t.timers, deadline < x.due := by
  simp only [fireBy?] at h
  split at h
  case h_1 hnone =>
    rw [earliest?_eq_none hnone]
    nofun
  case h_2 x others hfirst =>
    obtain ⟨before, after, htimers, rfl, hmin⟩ := earliest?_eq_some hfirst
    split at h <;> cases h
    next hdue =>
      intro y hy
      exact Nat.lt_of_lt_of_le (Nat.lt_of_not_le hdue) (due_le_of_mem htimers hmin hy)

theorem Fires.rings (h : Fires sv timing deadline t u) :
    (∃ as, Rings sv timing deadline t as u) ∧ u.weight < t.weight ∧ u.load < t.load := by
  obtain ⟨as, v, bs, hring, hle, hrings⟩ := h
  exact ⟨⟨_, .ring hring hle hrings⟩, Nat.lt_of_le_of_lt hrings.weight_le hring.weight_lt,
    Nat.lt_of_le_of_lt hrings.load_le hring.load_lt⟩

theorem rings_fireAll (ha : t.Armed .debounce) (hw : Wound t) (fuel : Nat) :
    ∃ as, Rings sv timing deadline t as (fireAll sv timing deadline fuel t) := by
  induction fuel generalizing t with
  | zero => exact ⟨[], .refl t⟩
  | succ fuel ih =>
    simp only [fireAll]
    split
    case h_1 u hfire =>
      obtain ⟨⟨as, hrings⟩, -, -⟩ := (fires_of_fireBy? ha hw hfire).rings
      obtain ⟨bs, hrest⟩ := ih (hrings.armed hw ha) (hrings.wound hw)
      exact ⟨as ++ bs, hrings.append hrest⟩
    case h_2 => exact ⟨[], .refl t⟩

theorem weight_pos (a : Alarm) : 0 < a.weight := by
  cases a <;> simp [Alarm.weight]

/-- With as much fuel as the timers weigh, all of them go off that are due. -/
theorem lt_due_fireAll (ha : t.Armed .debounce) (hw : Wound t) {fuel : Nat}
    (hfuel : t.weight ≤ fuel) :
    ∀ x ∈ (fireAll sv timing deadline fuel t).timers, deadline < x.due := by
  induction fuel generalizing t with
  | zero =>
    have hnil : t.timers = [] := by
      cases htimers : t.timers with
      | nil => rfl
      | cons x xs =>
        have hpos := weight_pos x.alarm
        simp only [weight_eq, htimers, List.map_cons, List.sum_cons] at hfuel
        omega
    rw [fireAll, hnil]
    nofun
  | succ fuel ih =>
    simp only [fireAll]
    split
    case h_1 u hfire =>
      obtain ⟨⟨as, hrings⟩, hlt, -⟩ := (fires_of_fireBy? ha hw hfire).rings
      exact ih (hrings.armed hw ha) (hrings.wound hw) (by omega)
    case h_2 hnone => exact lt_due_of_fireBy? hnone

/-- A timer that is due goes off, and leaves less to do. -/
theorem load_fireAll_lt (ha : t.Armed .debounce) (hw : Wound t) {x : Timer} {others : List Timer}
    (hfirst : earliest? t.timers = some (x, others)) (hdue : x.due ≤ deadline) :
    (fireAll sv timing deadline t.weight t).load < t.load := by
  have hfire : t.fireBy? sv timing deadline =
      some ({ t with timers := others }.fire sv timing x) := by
    simp [fireBy?, hfirst, hdue]
  obtain ⟨⟨as, hrings⟩, hlt, hload⟩ := (fires_of_fireBy? ha hw hfire).rings
  cases hfuel : t.weight with
  | zero => omega
  | succ fuel =>
    obtain ⟨bs, hrest⟩ : ∃ bs, Rings sv timing deadline _ bs (fireAll sv timing deadline fuel _) :=
      rings_fireAll (hrings.armed hw ha) (hrings.wound hw) fuel
    simp only [fireAll, hfire]
    exact Nat.lt_of_le_of_lt hrest.load_le hload

/-! ## Waits -/

/-- Time passes, and no event is handled. -/
def Drifts (sv : Services) (timing : Timing) (t u : Timeline) : Prop :=
  ∃ as, Passes sv timing t as u ∧ ∀ a ∈ as, a.isOwn

namespace Drifts

theorem refl (t : Timeline) : Drifts sv timing t t := ⟨[], .refl t, nofun⟩

theorem trans (h : Drifts sv timing t u) (h' : Drifts sv timing u v) : Drifts sv timing t v := by
  obtain ⟨as, hpasses, hown⟩ := h
  obtain ⟨bs, hpasses', hown'⟩ := h'
  refine ⟨as ++ bs, hpasses.append hpasses', ?_⟩
  intro a ha
  rcases List.mem_append.mp ha with ha | ha
  · exact hown a ha
  · exact hown' a ha

end Drifts

theorem Rings.drifts (h : Rings sv timing deadline t as u) : Drifts sv timing t u :=
  ⟨as, h.passes, h.isOwn⟩

theorem drifts_begin (sv : Services) (timing : Timing) (t : Timeline) :
    Drifts sv timing t (t.begin timing) := by
  exact ⟨_, (Ticks.begin t).passes, fun _ ha => Desk.isOwn_of_mem_stops ha⟩

theorem drifts_goTo (ha : t.Armed .debounce) (hnow : t.now ≤ deadline)
    (hdue : ∀ x ∈ t.timers, deadline < x.due) : Drifts sv timing t (t.goTo deadline) := by
  refine ⟨_, (Ticks.clock ha hnow hdue).passes, ?_⟩
  intro a ha
  rw [List.mem_singleton.mp ha]
  rfl

theorem drifts_moveTo (ha : t.Armed .debounce) (hw : Wound t) (hnow : t.now ≤ deadline) :
    Drifts sv timing t (t.moveTo sv timing deadline) := by
  obtain ⟨as, hrings⟩ : ∃ as, Rings sv timing deadline t as _ := rings_fireAll ha hw t.weight
  exact hrings.drifts.trans
    (drifts_goTo (hrings.armed hw ha) (hrings.now_le hnow) (lt_due_fireAll ha hw (Nat.le_refl _)))

theorem drifts_sleep (hw : Wound t) (ms : Nat) : Drifts sv timing t (t.sleep sv timing ms) := by
  unfold sleep
  split
  · exact .refl t
  · refine (drifts_begin sv timing t).trans
      (drifts_moveTo (hw.armed_begin timing) (hw.begin timing) ?_)
    rw [now_begin]
    exact Nat.le_add_right _ _

/-- The timers that are due first go off, if they are due by the deadline. -/
theorem rings_of_fireFirst? (ha : t.Armed .debounce) (hw : Wound t)
    (h : t.fireFirst? sv timing deadline = some u) : ∃ as, Rings sv timing deadline t as u := by
  simp only [fireFirst?] at h
  split at h
  case h_1 => cases h
  case h_2 due _ =>
    split at h <;> cases h
    next hdue =>
      obtain ⟨as, hrings⟩ : ∃ as, Rings sv timing due t as _ := rings_fireAll ha hw t.weight
      exact ⟨as, hrings.mono hdue⟩

theorem lt_due_of_fireFirst? (h : t.fireFirst? sv timing deadline = none) :
    ∀ x ∈ t.timers, deadline < x.due := by
  have hnone : t.fireBy? sv timing deadline = none := by
    simp only [fireFirst?, firstDue?] at h
    simp only [fireBy?]
    cases hfirst : earliest? t.timers <;> simp_all
  exact lt_due_of_fireBy? hnone

theorem drifts_await (ha : t.Armed .debounce) (hw : Wound t) (hnow : t.now ≤ deadline)
    (fuel : Nat) : Drifts sv timing t (t.await sv timing deadline fuel) := by
  induction fuel generalizing t with
  | zero => exact .refl t
  | succ fuel ih =>
    simp only [await]
    split
    · exact .refl t
    · split
      case h_1 u hfirst =>
        obtain ⟨as, hrings⟩ := rings_of_fireFirst? ha hw hfirst
        exact hrings.drifts.trans (ih (hrings.armed hw ha) (hrings.wound hw) (hrings.now_le hnow))
      case h_2 hnone => exact drifts_goTo ha hnow (lt_due_of_fireFirst? hnone)

theorem handle?_eq_some {n : Notice} (h : t.handle? = some (n, u)) : u = t.on (·.act .next) := by
  obtain ⟨⟨m, d⟩, hnext, heq⟩ := Option.map_eq_some_iff.mp h
  cases heq
  simp [on, Desk.act, hnext]

/-- A wait for an event is a row of ticks. -/
theorem passes_next (hw : Wound t) (ms : Nat) :
    ∃ as, Passes sv timing t as (t.next sv timing ms).2 := by
  have hdrifts : Drifts sv timing t (if t.desk.queue.isEmpty && ms ≠ 0 then
      (t.begin timing).await sv timing (t.now + ms) ((t.begin timing).weight + 1) else t) := by
    split
    · refine (drifts_begin sv timing t).trans
        (drifts_await (hw.armed_begin timing) (hw.begin timing) ?_ _)
      rw [now_begin]
      exact Nat.le_add_right _ _
    · exact .refl t
  simp only [next]
  generalize (if t.desk.queue.isEmpty && ms ≠ 0 then _ else t) = u at hdrifts
  obtain ⟨as, hpasses, -⟩ := hdrifts
  split
  case h_1 n v hhandle =>
    rw [handle?_eq_some hhandle]
    exact ⟨_, hpasses.append (Ticks.handle u).passes⟩
  case h_2 => exact ⟨as, hpasses⟩

/-- A driver that handles events until the phase is `rendered` drives the desk. -/
theorem passes_settleWith (hw : Wound t) (fuel : Nat) :
    ∃ as, Passes sv timing t as (settleWith sv timing fuel t) ∧ t.desk.Driven as := by
  induction fuel generalizing t with
  | zero => exact ⟨[], .refl t, trivial⟩
  | succ fuel ih =>
    have hbegin := drifts_begin sv timing t
    obtain ⟨as, hpasses, hown⟩ := hbegin
    simp only [settleWith]
    split
    case isTrue => exact ⟨[], .refl t, trivial⟩
    case isFalse hphase =>
      split
      case h_1 n u hhandle =>
        rw [handle?_eq_some hhandle]
        obtain ⟨bs, hrest, hdriven⟩ := ih hw.handle
        exact ⟨_, .tick (.handle t) hrest, by simpa [Desk.drives] using hphase, hdriven⟩
      case h_2 =>
        split
        case h_1 => exact ⟨as, hpasses, Desk.driven_of_isOwn hown _⟩
        case h_2 due _ =>
          obtain ⟨bs, hrings⟩ : ∃ bs, Rings sv timing due _ bs _ :=
            rings_fireAll (hw.armed_begin timing) (hw.begin timing) (t.begin timing).weight
          obtain ⟨cs, hrest, hdriven⟩ := ih (hrings.wound (hw.begin timing))
          refine ⟨_, hpasses.append (hrings.passes.append hrest), ?_⟩
          refine (Desk.driven_of_isOwn hown _).append ?_
          rw [← hpasses.desk_eq]
          refine (Desk.driven_of_isOwn hrings.isOwn _).append ?_
          rw [← hrings.passes.desk_eq]
          exact hdriven

/-- Every wait is a row of ticks. -/
theorem passes_wait (hw : Wound t) (sv : Services) (timing : Timing) (w : Wait) :
    ∃ as, Passes sv timing t as (t.wait sv timing w) := by
  cases w with
  | sleep ms =>
    obtain ⟨as, hpasses, -⟩ : Drifts sv timing t _ := drifts_sleep hw ms
    exact ⟨as, hpasses⟩
  | next ms => exact passes_next hw ms
  | settle =>
    obtain ⟨as, hpasses, -⟩ := passes_settleWith (t := t) hw
      (t.desk.queue.length + 4 * (t.begin timing).weight + 1)
    exact ⟨as, hpasses⟩

/-! ## Runs -/

/-- Every operation keeps the timers fit. -/
theorem Wound.perform (hw : Wound t) (timing : Timing) (op : Op) : Wound (t.perform timing op) := by
  cases op with
  | edit e => exact hw.edit e
  | persist on => exact hw.persist on
  | wait sv w =>
    obtain ⟨as, hpasses⟩ := passes_wait hw sv timing w
    exact hw.passes hpasses

theorem Wound.run (hw : Wound t) (timing : Timing) (ops : List Op) : Wound (t.run timing ops) := by
  induction ops generalizing t with
  | nil => exact hw
  | cons op ops ih => exact ih (hw.perform timing op)

/-- The timers fit the desk after every run. -/
theorem wound_run (s : Store) (timing : Timing) (ops : List Op) :
    Wound ((start (Desk.start s)).run timing ops) :=
  (Wound.start s).run timing ops

/-- A run is steps of the desk. -/
theorem exists_run_eq (t : Timeline) (timing : Timing) (ops : List Op) (hw : Wound t) :
    ∃ as, (t.run timing ops).desk = t.desk.run as := by
  induction ops generalizing t with
  | nil => exact ⟨[], rfl⟩
  | cons op ops ih =>
    obtain ⟨bs, hrest⟩ := ih (t.perform timing op) (hw.perform timing op)
    have hstep : ∃ as, (t.perform timing op).desk = t.desk.run as := by
      cases op with
      | edit e => exact ⟨[.edit e], rfl⟩
      | persist on => exact ⟨[.persist on], rfl⟩
      | wait sv w =>
        obtain ⟨as, hpasses⟩ := passes_wait hw sv timing w
        exact ⟨as, hpasses.desk_eq⟩
    obtain ⟨as, hstep⟩ := hstep
    exact ⟨as ++ bs, by rw [Desk.run_append, ← hstep]; exact hrest⟩

end Playground.Timeline
