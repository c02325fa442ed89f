import Playground.Proofs.Timeline.Waiting

/-!
# Requests follow pauses

A request is sent for the edits that are followed by a pause longer than the debounce
time, and for no other ones:

    edit a, next edit b    a request for a at the end of its pause, if b comes later
    last edit a            a request for a at the end of its pause

`Pausing` is the invariant between two edits.  It knows when the newest cycle was opened
and what had been sent by then.  As long as that cycle waits, nothing has been added, and
the end of the pause is still to come.  Later on, one request has been added, for the
state as it is.
-/

namespace Playground

namespace Desk

/-! ## The cycle that waits -/

/-- A cycle waits for the edits to stop. -/
def IsPausing (d : Desk) : Prop := ∃ c ∈ d.cycles, c.stage = .waiting

theorem isPausing_start (s : Store) : (start s).IsPausing :=
  ⟨.start 1 .initial, List.mem_singleton_self _, rfl⟩

theorem isPausing_edit (d : Desk) (e : Edit) : (d.edit e).IsPausing := by
  refine ⟨.start (d.phases.generation + 1) (e.apply d.state), ?_, rfl⟩
  rw [cycles_edit]
  exact List.mem_cons_self ..

/-- A cycle that waits is the newest one, works on the state and has no spinner. -/
theorem Reached.of_waiting {d : Desk} (hr : d.Reached) {c : Cycle} (hc : c ∈ d.cycles)
    (hs : c.stage = .waiting) : d.cycle? c.generation = some c ∧
      c.generation = d.phases.generation ∧ c.snapshot = d.state ∧ c.spinner = .off := by
  obtain ⟨log, ht⟩ := hr.tracks
  obtain ⟨seen, hcourse⟩ := hr.course
  have hcur := hcourse.waiting c hc hs
  have hcycle : d.cycle? c.generation = some c := (cycle?_eq_some_iff ht.nodup).mpr ⟨hc, rfl⟩
  refine ⟨hcycle, ht.current_eq _ hcur, ht.snapshot_eq c hc hcur, ?_⟩
  obtain ⟨handled, htold, -⟩ := hcourse.underway _ hcur
  rw [hcycle] at htold
  generalize handled ++ d.eventsOf c.generation = told at htold
  cases htold with
  | waiting _ hoff => exact hoff
  | sent hw _ => simp [hs, Stage.isWorking] at hw
  | overdue _ hoff => exact hoff
  | done hs' _ => simp [hs] at hs'

/-- A cycle waits as long as it has told nothing. -/
theorem Reached.isPausing_iff {d : Desk} (hr : d.Reached) : d.IsPausing ↔
    d.phases.current = .pendingCompile ∧ d.eventsOf d.phases.generation = [] := by
  obtain ⟨log, ht⟩ := hr.tracks
  obtain ⟨seen, hcourse⟩ := hr.course
  constructor
  · rintro ⟨c, hc, hs⟩
    obtain ⟨hcycle, hgen, -, -⟩ := hr.of_waiting hc hs
    obtain ⟨handled, htold, hhandled⟩ := hcourse.underway _ (hcourse.waiting c hc hs)
    rw [hcycle] at htold
    rcases htold.waiting_or_started with ⟨hnil, -⟩ | ⟨-, hne⟩
    · obtain ⟨rfl, hevents⟩ := List.append_eq_nil_iff.mp hnil
      refine ⟨?_, hgen ▸ hevents⟩
      rcases hhandled.phase_eq with hphase | hphase
      · exact hphase
      · exact absurd rfl (Handled.ne_nil (hphase ▸ hhandled))
    · exact absurd hs (hne c rfl)
  · rintro ⟨hphase, hevents⟩
    cases hcur : d.current with
    | none =>
      have hrendered := (hcourse.resting hcur).1
      rw [hphase] at hrendered
      cases hrendered
    | some g =>
      obtain ⟨handled, htold, hhandled⟩ := hcourse.underway g hcur
      rw [hphase] at hhandled
      rw [hhandled.eq_nil, List.nil_append, ht.current_eq g hcur, hevents] at htold
      rcases htold.waiting_or_started with ⟨-, c, hc, hs⟩ | ⟨⟨rest, hcons⟩, -⟩
      · exact ⟨c, (cycle?_eq_some hc).1, hs⟩
      · cases hcons

/-- A cycle that waits has no event in the queue. -/
theorem Reached.not_isPausing {d : Desk} (hr : d.Reached) {e : Event} {es : List Event}
    (hq : d.queue = e :: es) (hcur : d.current = some e.generation) : ¬ d.IsPausing := by
  intro h
  obtain ⟨log, ht⟩ := hr.tracks
  have hevents := (hr.isPausing_iff.mp h).2
  rw [← ht.current_eq _ hcur] at hevents
  simp [eventsOf, hq] at hevents

/-- Handling an event does not end a pause. -/
theorem Reached.isPausing_next {d : Desk} (hr : d.Reached) :
    (d.act .next).IsPausing ↔ d.IsPausing := by
  constructor
  · rintro ⟨c, hc, hs⟩
    obtain ⟨b, hb, -, -, hbs, -⟩ := Kept.next d c hc
    exact ⟨b, hb, hbs.symm.trans hs⟩
  · intro h
    have hsteps := steps_act d .next
    generalize d.notice? .next = n at hsteps
    generalize d.act .next = d' at hsteps
    cases hsteps with
    | move _ hm => cases hm
    | sent _ _ => rw [enter_eq]; exact h
    | rendered hq hcur => exact absurd h (hr.not_isPausing hq hcur)
    | _ => exact h

/-- Only the end of its pause moves a cycle on that waits. -/
theorem isPausing_moved {d : Desk} (hr : d.Reached) {c : Cycle} {a : Alarm} {f : Cycle → Cycle}
    {es : List Event} (hc : d.cycle? c.generation = some c) (hm : c.Moves a.action f es)
    (ha : a.kind ≠ .debounce) : (d.moved c.generation f es).IsPausing ↔ d.IsPausing := by
  obtain ⟨seen, hcourse⟩ := hr.course
  constructor
  · rintro ⟨b, hb, hs⟩
    obtain ⟨a, ha, rfl⟩ := mem_change hb
    refine ⟨a, ha, ?_⟩
    split at hs
    case isTrue hac =>
      have heq : a = c := eq_of_generation_eq hr.nodup ha (cycle?_eq_some hc).1 hac
      subst heq
      exact (hm.stage_ne_waiting hs).1
    case isFalse => exact hs
  · rintro ⟨b, hb, hs⟩
    obtain ⟨hcycle, -, -, hoff⟩ := hr.of_waiting hb hs
    by_cases hbc : b.generation = c.generation
    case neg =>
      have hkept : (d.moved c.generation f es).cycle? b.generation = some b :=
        (cycle?_change_of_ne hcourse.live hm.generation_eq hbc).trans hcycle
      exact ⟨b, (cycle?_eq_some hkept).1, hs⟩
    case pos =>
      have heq : b = c := eq_of_generation_eq hr.nodup hb (cycle?_eq_some hc).1 hbc
      subst heq
      exact absurd hoff (Alarm.spinner_ne_off_of_moves hm ha hs)

/-- The end of its pause moves on the one cycle that waits. -/
theorem not_isPausing_sent {d : Desk} (hr : d.Reached) {c : Cycle}
    (hc : d.cycle? c.generation = some c) (hs : c.stage = .waiting) (es : List Event) :
    ¬ (d.moved c.generation Cycle.send es).IsPausing := by
  rintro ⟨b, hb, hbs⟩
  obtain ⟨a, ha, rfl⟩ := mem_change hb
  split at hbs
  case isTrue => cases hbs
  case isFalse hac =>
    have hgen := (hr.of_waiting (cycle?_eq_some hc).1 hs).2.1
    exact hac ((hr.of_waiting ha hbs).2.1.trans hgen.symm)

end Desk

namespace Timeline

variable {sv : Services} {timing : Timing} {t u : Timeline} {as : List Desk.Action}

/-! ## What a tick sends -/

theorem Ticks.isEdit_eq (h : Ticks sv timing t as u) : ∀ a ∈ as, a.isEdit = false := by
  cases h with
  | begin => exact fun a ha => Desk.isEdit_of_isOwn (Desk.isOwn_of_mem_stops ha)
  | ring hring => exact fun a ha => Desk.isEdit_of_isOwn (hring.isOwn a ha)
  | clock => simp [Desk.Action.isEdit]
  | handle => simp [Desk.Action.isEdit]

theorem Passes.isEdit_eq (h : Passes sv timing t as u) : ∀ a ∈ as, a.isEdit = false := by
  induction h with
  | refl => nofun
  | tick hticks _ ih =>
    intro a ha
    rcases List.mem_append.mp ha with ha | ha
    · exact hticks.isEdit_eq a ha
    · exact ih a ha

theorem Passes.generation_eq (h : Passes sv timing t as u) :
    u.desk.phases.generation = t.desk.phases.generation ∧ u.desk.state = t.desk.state :=
  h.desk_eq ▸ Desk.generation_run h.isEdit_eq t.desk

/-- A request is sent for the cycle that waits, and so for the state. -/
theorem Wound.sends?_eq (hw : Wound t) {x : Timer} (hx : x ∈ t.timers) {r : CompileRequest}
    (h : x.alarm.sends? t.desk = some r) : x.alarm.kind = .debounce ∧
      ∃ c, t.desk.cycle? c.generation = some c ∧ x.alarm.generation = c.generation ∧
        c.stage = .waiting ∧ r = t.desk.state.compileRequest := by
  have hwaiting := hw.waiting x hx
  generalize x.alarm = a at h hwaiting
  cases a with
  | debounce g =>
    obtain ⟨c, hc, rfl⟩ := Option.map_eq_some_iff.mp h
    obtain ⟨hmem, rfl⟩ := Desk.cycle?_eq_some hc
    have hs := hwaiting rfl c hmem rfl
    exact ⟨rfl, c, hc, rfl, hs, by rw [(hw.reached.of_waiting hmem hs).2.2.1]⟩
  | _ => cases h

/-- What is sent while time passes is a request for the state. -/
theorem Ticks.requests_eq (h : Ticks sv timing t as u) (hw : Wound t) :
    t.now ≤ u.now ∧ ∃ new, u.requests = t.requests ++ new ∧
      ∀ r ∈ new, t.now ≤ r.1 ∧ r.1 ≤ u.now ∧ r.2 = t.desk.state.compileRequest := by
  cases h with
  | begin => exact ⟨Nat.le_of_eq (now_begin timing t).symm, [], by simp [begin_eq], by simp⟩
  | clock _ hnow _ => exact ⟨hnow, [], by simp [goTo, on], by simp⟩
  | handle =>
    have hnow : (t.on (·.act .next)).now = t.now := Desk.now_act (a := .next) (by simp)
    exact ⟨Nat.le_of_eq hnow.symm, [], by simp [on], by simp⟩
  | ring hring =>
    cases hring with
    | @mk x before after _ htimers _ hnow =>
      rw [now_rung]
      refine ⟨hnow, ((x.alarm.sends? t.desk).map (x.due, ·)).toList, rfl, ?_⟩
      intro r hr
      obtain ⟨q, hq, rfl⟩ := Option.map_eq_some_iff.mp (Option.mem_toList.mp hr)
      obtain ⟨-, c, -, -, -, rfl⟩ := hw.sends?_eq ((mem_timers_iff htimers).mpr (.inl rfl)) hq
      exact ⟨hnow, Nat.le_refl _, rfl⟩

theorem Passes.requests_eq (h : Passes sv timing t as u) (hw : Wound t) :
    t.now ≤ u.now ∧ ∃ new, u.requests = t.requests ++ new ∧
      ∀ r ∈ new, t.now ≤ r.1 ∧ r.1 ≤ u.now ∧ r.2 = t.desk.state.compileRequest := by
  induction h with
  | refl t => exact ⟨Nat.le_refl _, [], by simp, nofun⟩
  | @tick t u v as bs hticks _ ih =>
    obtain ⟨hnow, new, hnew, hsent⟩ := hticks.requests_eq hw
    obtain ⟨hnow', new', hnew', hsent'⟩ := ih (hw.ticks hticks)
    refine ⟨Nat.le_trans hnow hnow', new ++ new', by rw [hnew', hnew, List.append_assoc], ?_⟩
    intro r hr
    rcases List.mem_append.mp hr with hr | hr
    · obtain ⟨hge, hle, heq⟩ := hsent r hr
      exact ⟨hge, Nat.le_trans hle hnow', heq⟩
    · obtain ⟨hge, hle, heq⟩ := hsent' r hr
      exact ⟨Nat.le_trans hnow hge, hle, hticks.passes.generation_eq.2 ▸ heq⟩

/-! ## Between two edits -/

/-- The newest cycle was opened at a time, and some requests had been sent by then. -/
structure Pausing (debounce : Nat) (sent : List (Nat × CompileRequest)) (opened : Nat)
    (t : Timeline) : Prop where
  opened_le : opened ≤ t.now
  /-- The pause of the newest cycle ends when it has lasted for the debounce time. -/
  due_eq : ∀ x ∈ t.timers, x.alarm.kind = .debounce →
    x.alarm.generation = t.desk.phases.generation → x.due = opened + debounce
  /-- Time has not passed before the first wait begins. -/
  unset : ¬ t.Armed .debounce → t.now = opened
  pausing : t.desk.IsPausing → t.requests = sent ∧ t.now ≤ opened + debounce
  ended : ¬ t.desk.IsPausing → opened + debounce ≤ t.now ∧
    t.requests = sent ++ [(opened + debounce, t.desk.state.compileRequest)]

/-- No pause is left without a timer if all of them have one. -/
theorem Wound.unset_eq_nil (hw : Wound t) (ha : t.Armed .debounce) : t.unset = [] := by
  apply List.filter_eq_nil_iff.mpr
  intro c hc hnot
  simp only [Bool.and_eq_true, decide_eq_true_eq, Bool.not_eq_true', List.any_eq_false] at hnot
  obtain ⟨hs, hnone⟩ := hnot
  have hawaits : c.awaits .debounce := by simpa [Cycle.awaits] using hs
  obtain ⟨x, hx, hk, hg⟩ := ha c.generation c hc rfl hawaits
  have hstanding : x ∈ t.standing :=
    List.mem_filter.mpr ⟨hx, isLive_of_awaits hw.nodup hc hg (hk ▸ hawaits)⟩
  exact hnone x hstanding ((isDebounceOf_iff _ _).mpr ⟨hk, hg⟩)

namespace Pausing

variable {sent : List (Nat × CompileRequest)} {opened : Nat}

theorem begin (h : Pausing timing.debounce sent opened t) (hw : Wound t) :
    Pausing timing.debounce sent opened (t.begin timing) := by
  have hnow := now_begin timing t
  have hreached := (hw.begin timing).reached
  have harmed := hw.armed_begin timing
  obtain ⟨cs, hdesk, -⟩ := exists_desk_begin timing t
  have hpausing : (t.begin timing).desk.IsPausing ↔ t.desk.IsPausing := by
    rw [hreached.isPausing_iff, hw.reached.isPausing_iff, hdesk]
    rfl
  constructor
  case opened_le => rw [hnow]; exact h.opened_le
  case due_eq =>
    intro x hx hk hg
    rw [hdesk] at hg
    rcases List.mem_append.mp hx with hx | hx
    · exact h.due_eq x (List.mem_filter.mp hx).1 hk hg
    · obtain ⟨c, hc, rfl⟩ := List.mem_map.mp hx
      -- A timer is set here only for a pause that has had none, so it begins now.
      have hunset : ¬ t.Armed .debounce := by
        intro ha
        have hc : c ∈ t.unset := hc
        rw [hw.unset_eq_nil ha] at hc
        cases hc
      exact congrArg (· + timing.debounce) (h.unset hunset)
  case unset => exact fun hnot => absurd harmed hnot
  case pausing =>
    intro hp
    rw [hnow]
    exact h.pausing (hpausing.mp hp)
  case ended =>
    intro hp
    rw [hnow, hdesk]
    exact h.ended fun hp' => hp (hpausing.mpr hp')

/-- The clock does not pass the end of the pause. -/
theorem due_le (h : Pausing timing.debounce sent opened t) (hw : Wound t) (ha : t.Armed .debounce)
    (hp : t.desk.IsPausing) : ∃ x ∈ t.timers, x.alarm.kind = .debounce ∧
      x.due = opened + timing.debounce := by
  obtain ⟨c, hc, hs⟩ := hp
  obtain ⟨x, hx, hk, hg⟩ := ha c.generation c hc rfl (by simpa [Cycle.awaits] using hs)
  exact ⟨x, hx, hk, h.due_eq x hx hk (hg.trans (hw.reached.of_waiting hc hs).2.1)⟩

theorem clock (h : Pausing timing.debounce sent opened t) (hw : Wound t) {deadline : Nat}
    (ha : t.Armed .debounce) (hnow : t.now ≤ deadline) (hdue : ∀ x ∈ t.timers, deadline < x.due) :
    Pausing timing.debounce sent opened (t.goTo deadline) where
  opened_le := Nat.le_trans h.opened_le hnow
  due_eq := h.due_eq
  unset := fun hnot => absurd ha hnot
  pausing := by
    intro hp
    obtain ⟨x, hx, -, heq⟩ := h.due_le hw ha hp
    exact ⟨(h.pausing hp).1, heq ▸ Nat.le_of_lt (hdue x hx)⟩
  ended := fun hp => ⟨Nat.le_trans (h.ended hp).1 hnow, (h.ended hp).2⟩

theorem handle (h : Pausing timing.debounce sent opened t) (hw : Wound t) :
    Pausing timing.debounce sent opened (t.on (·.act .next)) := by
  have hnow : (t.on (·.act .next)).now = t.now := Desk.now_act (a := .next) nofun
  obtain ⟨hgen, hstate⟩ := Desk.generation_act (d := t.desk) (a := .next) rfl
  have hpausing := hw.reached.isPausing_next
  constructor
  case opened_le => rw [hnow]; exact h.opened_le
  case due_eq => exact fun x hx hk hg => h.due_eq x hx hk (hg.trans hgen)
  case unset =>
    intro hnot
    rw [hnow]
    apply h.unset
    exact fun ha => hnot fun g => (ha g).kept (Desk.Kept.next t.desk)
  case pausing =>
    intro hp
    rw [hnow]
    exact h.pausing (hpausing.mp hp)
  case ended =>
    intro hp
    have hended := h.ended fun hp' => hp (hpausing.mpr hp')
    rw [hnow]
    exact ⟨hended.1, hended.2.trans (by rw [← hstate]; rfl)⟩

/-- A ring that sends no request begins and ends no pause. -/
theorem isPausing_rung (hw : Wound t) {x : Timer} (others : List Timer)
    (h : x.alarm.sends? t.desk = none) :
    (t.rung sv timing x others).desk.IsPausing ↔ t.desk.IsPausing := by
  rcases rung_desk sv timing t x others with ⟨-, hdesk⟩ | ⟨c, f, es, hc, hm, hdesk⟩
  · rw [hdesk]
    rfl
  · have hkind : x.alarm.kind ≠ .debounce := by
      intro hk
      have hgen := Alarm.generation_of_moves hm
      generalize x.alarm = a at h hk hgen
      cases a with
      | debounce g =>
        obtain rfl : g = c.generation := hgen
        simp [Alarm.sends?, hc] at h
      | _ => cases hk
    rw [hdesk]
    exact Desk.isPausing_moved hw.reached hc hm hkind

/-- A ring that sends a request ends the pause. -/
theorem not_isPausing_rung (hw : Wound t) {x : Timer} (hx : x ∈ t.timers) (others : List Timer)
    {r : CompileRequest} (h : x.alarm.sends? t.desk = some r) :
    ¬ (t.rung sv timing x others).desk.IsPausing := by
  obtain ⟨hk, c, hc, hg, hs, -⟩ := hw.sends?_eq hx h
  obtain ⟨hmem, -⟩ := Desk.cycle?_eq_some hc
  rcases rung_desk sv timing t x others with ⟨hgo, -⟩ | ⟨b, f, es, hb, hm, hdesk⟩
  · have hgoes := Desk.goesOn_action hw.nodup hmem hg (hk ▸ by simpa [Cycle.awaits] using hs)
    rw [hgo] at hgoes
    cases hgoes
  · have hbc : b = c := Desk.eq_of_generation_eq hw.nodup (Desk.cycle?_eq_some hb).1 hmem
      ((Alarm.generation_of_moves hm).symm.trans hg)
    subst hbc
    rw [hdesk]
    generalize x.alarm = a at hm hk
    cases a with
    | debounce g =>
      simp only [Alarm.action] at hm
      cases hm
      exact Desk.not_isPausing_sent hw.reached hc hs [.started b.generation]
    | _ => cases hk

theorem ring (h : Pausing timing.debounce sent opened t) (hw : Wound t)
    (hring : Ring sv timing t as u) : Pausing timing.debounce sent opened u := by
  have harmed := hring.armed hw.nodup (k := .debounce) rfl
  obtain ⟨hgen, hstate⟩ := (Ticks.ring hring).passes.generation_eq
  cases hring with
  | @mk x before after ha htimers hmin hnow =>
    have hx : x ∈ t.timers := (mem_timers_iff htimers).mpr (.inl rfl)
    -- The pause of the newest cycle has a timer, and no other one is due before `x`.
    have hle : t.desk.IsPausing → x.due ≤ opened + timing.debounce := by
      intro hp
      obtain ⟨y, hy, -, heq⟩ := h.due_le hw ha hp
      exact heq ▸ due_le_of_mem htimers hmin hy
    constructor
    case opened_le => rw [now_rung]; exact Nat.le_trans h.opened_le hnow
    case due_eq =>
      intro y hy hk hg
      have hyo : y ∈ before ++ after := mem_others_of_debounce hy hk
      exact h.due_eq y ((mem_timers_iff htimers).mpr (.inr hyo)) hk (hg.trans hgen)
    case unset => exact fun hnot => absurd (harmed ha) hnot
    case pausing =>
      intro hp
      rw [now_rung]
      cases hsends : x.alarm.sends? t.desk with
      | some r => exact absurd hp (not_isPausing_rung hw hx _ hsends)
      | none =>
        have hp := (isPausing_rung hw _ hsends).mp hp
        exact ⟨by simpa [rung, hsends] using (h.pausing hp).1, hle hp⟩
    case ended =>
      intro hp
      rw [now_rung, hstate]
      cases hsends : x.alarm.sends? t.desk with
      | some r =>
        obtain ⟨hk, c, hc, hg, hs, rfl⟩ := hw.sends?_eq hx hsends
        obtain ⟨hmem, -⟩ := Desk.cycle?_eq_some hc
        have hdue := h.due_eq x hx hk (hg.trans (hw.reached.of_waiting hmem hs).2.1)
        refine ⟨Nat.le_of_eq hdue.symm, ?_⟩
        rw [← (h.pausing ⟨c, hmem, hs⟩).1, ← hdue]
        simp [rung, hsends]
      | none =>
        have hended := h.ended fun hp' => hp ((isPausing_rung hw _ hsends).mpr hp')
        exact ⟨Nat.le_trans hended.1 hnow, by simpa [rung, hsends] using hended.2⟩

theorem ticks (h : Pausing timing.debounce sent opened t) (hw : Wound t)
    (hticks : Ticks sv timing t as u) : Pausing timing.debounce sent opened u := by
  cases hticks with
  | begin => exact h.begin hw
  | ring hring => exact h.ring hw hring
  | clock ha hnow hdue => exact h.clock hw ha hnow hdue
  | handle => exact h.handle hw

theorem passes (h : Pausing timing.debounce sent opened t) (hw : Wound t)
    (hpasses : Passes sv timing t as u) : Pausing timing.debounce sent opened u := by
  induction hpasses with
  | refl => exact h
  | tick hticks _ ih => exact ih (h.ticks hw hticks) (hw.ticks hticks)

/-- An edit begins a pause. -/
theorem edit (hw : Wound t) (debounce : Nat) (e : Edit) :
    Pausing debounce t.requests t.now (t.on (·.edit e)) := by
  have hnow : (t.on (·.edit e)).now = t.now := Desk.now_act (a := .edit e) nofun
  have hp : (t.on (·.edit e)).desk.IsPausing := t.desk.isPausing_edit e
  constructor
  case opened_le => exact Nat.le_of_eq hnow.symm
  case due_eq =>
    intro x hx _ hg
    have hle := hw.generation_le x hx
    have hgen : (t.on (·.edit e)).desk.phases.generation = _ := t.desk.generation_edit e
    omega
  case unset => exact fun _ => hnow
  case pausing => exact fun _ => ⟨rfl, hnow ▸ Nat.le_add_right _ _⟩
  case ended => exact fun hnot => absurd hp hnot

theorem start (s : Store) (debounce : Nat) :
    Pausing debounce [] 0 (Timeline.start (Desk.start s)) := by
  have hp : (Timeline.start (Desk.start s)).desk.IsPausing := Desk.isPausing_start s
  constructor
  case opened_le => exact Nat.le_refl _
  case due_eq => nofun
  case unset => exact fun _ => rfl
  case pausing => exact fun _ => ⟨rfl, Nat.zero_le _⟩
  case ended => exact fun hnot => absurd hp hnot

end Pausing

/-! ## Runs -/

/-- The times of the edits of a run, each with the state right after it. -/
def edits (timing : Timing) (t : Timeline) : List Op → List (Nat × State)
  | [] => []
  | .edit e :: ops =>
    (t.now, e.apply t.desk.state) :: (t.perform timing (.edit e)).edits timing ops
  | op :: ops => (t.perform timing op).edits timing ops

/-- The request for an edit, at the end of its pause. -/
def requestAfter (debounce : Nat) (e : Nat × State) : Nat × CompileRequest :=
  (e.1 + debounce, e.2.compileQuestion)

/-- The requests for those edits that the next one comes late enough after, and for the last
one. -/
def requestsAfter (debounce : Nat) : List (Nat × State) → List (Nat × CompileRequest)
  | [] => []
  | [a] => [requestAfter debounce a]
  | a :: b :: es =>
    if a.1 + debounce < b.1 then requestAfter debounce a :: requestsAfter debounce (b :: es)
    else requestsAfter debounce (b :: es)

/-- What is sent from some time on goes with the edits from the last one before it on. -/
theorem Pausing.requests_run {sent : List (Nat × CompileRequest)} {opened : Nat}
    (h : Pausing timing.debounce sent opened t) (hw : Wound t) (ops : List Op)
    (hgaps : ((opened, t.desk.state) :: t.edits timing ops).IsChain
      fun a b => b.1 ≠ a.1 + timing.debounce)
    (hpassed : ∀ a ∈ ((opened, t.desk.state) :: t.edits timing ops).getLast?,
      a.1 + timing.debounce < (t.run timing ops).now) :
    (t.run timing ops).requests =
      sent ++ requestsAfter timing.debounce ((opened, t.desk.state) :: t.edits timing ops) := by
  induction ops generalizing t sent opened with
  | nil =>
    have hlast : opened + timing.debounce < t.now := hpassed (opened, t.desk.state) rfl
    have hended : ¬ t.desk.IsPausing := by
      intro hp
      have hle := (h.pausing hp).2
      omega
    change t.requests = sent ++ [(opened + timing.debounce, t.desk.state.compileQuestion)]
    rw [← State.compileRequest_eq]
    exact (h.ended hended).2
  | cons op ops ih =>
    cases op with
    | edit e =>
      have hstate : (t.on (·.edit e)).desk.state = e.apply t.desk.state := t.desk.state_edit e
      have hnow : (t.on (·.edit e)).now = t.now := Desk.now_act (a := .edit e) nofun
      have hedits : t.edits timing (.edit e :: ops) = (t.now, (t.on (·.edit e)).desk.state) ::
          (t.on (·.edit e)).edits timing ops := by
        rw [hstate]
        rfl
      rw [hedits] at hgaps hpassed ⊢
      obtain ⟨hgap, hgaps⟩ := List.isChain_cons_cons.mp hgaps
      rw [List.getLast?_cons_cons] at hpassed
      have hrun := ih (Pausing.edit hw timing.debounce e) (hw.edit e) hgaps hpassed
      change ((t.on (·.edit e)).run timing ops).requests = _
      rw [hrun]
      -- The pause of the edit before is still on, or it has ended with a request.
      by_cases hp : t.desk.IsPausing
      case pos =>
        have hpausing := h.pausing hp
        have hnot : ¬ opened + timing.debounce < t.now := by omega
        simp only [requestsAfter, hnot, if_false, hpausing.1]
      case neg =>
        have hended := h.ended hp
        have hlt : opened + timing.debounce < t.now := by
          have hle := hended.1
          have hne : t.now ≠ opened + timing.debounce := hgap
          omega
        simp only [requestsAfter, hlt, if_true, hended.2, requestAfter, State.compileRequest_eq]
        simp
    | persist on =>
      have hon : Pausing timing.debounce sent opened (t.on fun d => { d with persists := on }) :=
        ⟨h.opened_le, h.due_eq, h.unset, h.pausing, h.ended⟩
      exact ih hon (hw.persist on) hgaps hpassed
    | wait sv w =>
      obtain ⟨as, hpasses⟩ := passes_wait hw sv timing w
      have hrun := ih (h.passes hw hpasses) (hw.passes hpasses)
      rw [hpasses.generation_eq.2] at hrun
      exact hrun hgaps hpassed

/-- An operation sends requests for the state as it is, which does not change meanwhile. -/
theorem requests_perform (hw : Wound t) (timing : Timing) (op : Op) :
    ∃ new, (t.perform timing op).requests = t.requests ++ new ∧ ∀ r ∈ new,
      t.now ≤ r.1 ∧ r.1 ≤ (t.perform timing op).now ∧ r.2 = t.desk.state.compileQuestion ∧
        (t.perform timing op).desk.state = t.desk.state := by
  cases op with
  | edit e => exact ⟨[], (List.append_nil _).symm, nofun⟩
  | persist on => exact ⟨[], (List.append_nil _).symm, nofun⟩
  | wait sv w =>
    obtain ⟨as, hpasses⟩ := passes_wait hw sv timing w
    obtain ⟨-, new, hnew, hsent⟩ := hpasses.requests_eq hw
    refine ⟨new, hnew, ?_⟩
    intro r hr
    obtain ⟨hge, hle, heq⟩ := hsent r hr
    exact ⟨hge, hle, heq.trans (State.compileRequest_eq _), hpasses.generation_eq.2⟩

/-- If no edit falls on the very end of the pause before it, the compile service gets one
request for each edit that the next one comes later than the pause after, and for the last
one, and no other request.  They come in the order of the edits, each at the end of its pause
and for the state right after its edit, and whenever a request is sent it is for the state
as it is then. -/
theorem requests_follow_pauses (s : Store) (timing : Timing) (ops : List Op) :
    let t := (start (Desk.start s)).run timing ops
    let es := (0, State.initial) :: (start (Desk.start s)).edits timing ops
    ((es.IsChain fun a b => b.1 ≠ a.1 + timing.debounce) →
      (∀ a ∈ es.getLast?, a.1 + timing.debounce < t.now) →
      t.requests = requestsAfter timing.debounce es) ∧
    ∀ op, ∃ new, (t.perform timing op).requests = t.requests ++ new ∧ ∀ r ∈ new,
      t.now ≤ r.1 ∧ r.1 ≤ (t.perform timing op).now ∧ r.2 = t.desk.state.compileQuestion ∧
        (t.perform timing op).desk.state = t.desk.state := by
  intro t es
  refine ⟨fun hgaps hpassed => ?_, requests_perform (wound_run s timing ops) timing⟩
  exact (Pausing.start s timing.debounce).requests_run (Wound.start s) ops hgaps hpassed

/-- Services that take some time and find nothing. -/
def quietServices : Services where
  compile _ := some ⟨100, .ok ⟨0, []⟩⟩
  parse _ := some ⟨20, .ok []⟩

/-- One pause is long enough, the next one is not. -/
def pausedRun : List Op :=
  [.wait quietServices (.next 700), .wait quietServices (.sleep 100), .edit (.code "x"),
    .wait quietServices (.sleep 100), .edit (.code "y"), .wait quietServices .settle]

/-- The flags of a new state, and those that all compiles get. -/
def extendedFlags : String := "-fpermissive -std=c++17 -fno-diagnostics-color -fsyntax-only"

theorem compileQuestion_initial (code : String) :
    State.compileQuestion { State.initial with code } =
      ⟨defaultCompiler, (includeHeader code).2, extendedFlags⟩ := by
  have hflags : String.ofList (Text.trimStart (State.initial.compilerFlags ++
      " -fno-diagnostics-color -fsyntax-only").toList) = extendedFlags := by decide +kernel
  rw [State.compileQuestion]
  exact congrArg (CompileRequest.mk defaultCompiler (includeHeader code).2) hflags

theorem requests_pausedRun : ((start (Desk.start default)).run ⟨500, 400⟩ pausedRun).requests =
    [(500, ⟨defaultCompiler, (includeHeader exampleProgram).2, extendedFlags⟩),
      (1200, ⟨defaultCompiler, (includeHeader "y").2, extendedFlags⟩)] := by
  have h := (requests_follow_pauses default ⟨500, 400⟩ pausedRun).1
  have hedits : (start (Desk.start default)).edits ⟨500, 400⟩ pausedRun =
      [(600, { State.initial with code := "x" }), (700, { State.initial with code := "y" })] := rfl
  rw [hedits] at h
  have hgaps : [(0, State.initial), (600, { State.initial with code := "x" }),
      (700, { State.initial with code := "y" })].IsChain fun a b => b.1 ≠ a.1 + 500 := by
    simp
  have hpassed : ((start (Desk.start default)).run ⟨500, 400⟩ pausedRun).now = 1320 := rfl
  have hrequests := h hgaps (by simp [hpassed])
  simp only [requestsAfter, requestAfter] at hrequests
  rw [compileQuestion_initial] at hrequests
  exact hrequests

end Timeline

end Playground
