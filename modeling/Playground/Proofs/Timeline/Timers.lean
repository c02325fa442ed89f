import Playground.Proofs.Timeline.Passing

/-!
# The timers fit the desk

`Wound` holds of every timeline: no timer is late, and a spinner that runs has a timer.  The end
of the pause of a new cycle has none, as its timer starts with the next wait.  An answer that a
cycle waits for has one if the services answer all that this cycle asks (`Served`).

Every tick keeps both.  A cycle that a timer moves on waits for what that timer sets, and
all that it waits for beside has its timer already: `awaits_of_moves`.
-/

namespace Playground

namespace Desk

/-- A cycle that is kept has waited before for what it waits for. -/
theorem Kept.awaits {cs ds : List Cycle} (h : Kept cs ds) {c : Cycle} (hc : c ∈ ds)
    {k : Alarm.Kind} (hk : c.awaits k) : ∃ b ∈ cs, c.generation = b.generation ∧ b.awaits k := by
  obtain ⟨b, hb, hg, -, hs, hrun⟩ := h c hc
  refine ⟨b, hb, hg, ?_⟩
  cases k <;> simp_all [Cycle.awaits]

end Desk

/-- The two timers are not for one cycle, unless one of them is that of its spinner. -/
def Timer.Apart (x y : Timer) : Prop :=
  x.alarm.kind ≠ .spinner → y.alarm.kind ≠ .spinner → x.alarm.generation ≠ y.alarm.generation

theorem Timer.Apart.symm {x y : Timer} (h : x.Apart y) : y.Apart x :=
  fun hy hx heq => h hx hy heq.symm

/-- A cycle that a timer moves on waits for what that one sets, or for something that it has
waited for before. -/
theorem Alarm.awaits_of_moves {d : Desk} {c : Cycle} {a : Alarm} {f : Cycle → Cycle}
    {es : List Event} (hc : d.cycle? c.generation = some c) (hm : c.Moves a.action f es)
    {sv : Services} (timing : Timing) {k : Kind} (ha : a.IsAnswered sv d k)
    (hk : (f c).awaits k) :
    c.awaits k ∧ k ≠ a.kind ∨ ∃ p ∈ a.sets sv timing d, p.2.kind = k := by
  cases a with
  | debounce g =>
    change c.Moves (.debounceElapsed g) f es at hm
    cases hm with
    | sends _ =>
      right
      rw [sets_debounce hc]
      cases k with
      | compile =>
        have hanswer := ha c.snapshot.compileRequest (by simp [sends?, hc])
        obtain ⟨x, hx⟩ := Option.isSome_iff_exists.mp hanswer
        rw [hx]
        exact ⟨_, List.mem_cons_of_mem _ (List.mem_singleton_self _), rfl⟩
      | spinner => exact ⟨_, List.mem_cons_self .., rfl⟩
      | debounce => cases hk
      | parse => cases hk
  | compiled g answer =>
    change c.Moves (.compiled g answer) f es at hm
    cases hm with
    | @compiled o _ =>
      cases k with
      | parse =>
        right
        have hanswer := ha (c.snapshot.parseRequest o.stderr)
          (by simp [asks?, hc, Except.toOption])
        obtain ⟨x, hx⟩ := Option.isSome_iff_exists.mp hanswer
        rw [sets_compiled hc, hx]
        exact ⟨_, List.mem_singleton_self _, rfl⟩
      | spinner => exact .inl ⟨hk, fun hne => by cases hne⟩
      | debounce => cases hk
      | compile => cases hk
    | fails _ =>
      cases k with
      | spinner => exact .inl ⟨hk, fun hne => by cases hne⟩
      | _ => cases hk
  | parsed g answer =>
    change c.Moves (.parsed g answer) f es at hm
    cases hm with
    | parsed _ =>
      cases k with
      | spinner => exact .inl ⟨hk, fun hne => by cases hne⟩
      | _ => cases hk
  | spinner g =>
    change c.Moves (.spinnerElapsed g) f es at hm
    cases hm with
    | spins _ =>
      cases k with
      | spinner => cases hk
      | _ => exact .inl ⟨hk, fun hne => by cases hne⟩

/-- A cycle that a timer moves on waits for what that one sets, beside that of its spinner. -/
theorem Alarm.awaits_of_sets {d : Desk} {c : Cycle} {a : Alarm} {f : Cycle → Cycle}
    {es : List Event} (hc : d.cycle? c.generation = some c) (hm : c.Moves a.action f es)
    {sv : Services} {timing : Timing} {p : Nat × Alarm} (hp : p ∈ a.sets sv timing d)
    (hk : p.2.kind ≠ .spinner) : (f c).awaits p.2.kind := by
  cases a with
  | debounce g =>
    change c.Moves (.debounceElapsed g) f es at hm
    cases hm with
    | sends _ =>
      rw [sets_debounce hc] at hp
      rcases List.mem_cons.mp hp with rfl | hp
      · exact absurd rfl hk
      · obtain ⟨x, -, rfl⟩ := Option.map_eq_some_iff.mp (Option.mem_toList.mp hp)
        rfl
  | compiled g answer =>
    change c.Moves (.compiled g answer) f es at hm
    cases hm with
    | compiled _ =>
      rw [sets_compiled hc] at hp
      obtain ⟨x, -, rfl⟩ := Option.map_eq_some_iff.mp (Option.mem_toList.mp hp)
      rfl
    | fails _ => simp [sets, sends?, asks?, Except.toOption] at hp
  | parsed g answer => simp [sets, sends?, asks?] at hp
  | spinner g => simp [sets, sends?, asks?] at hp

/-- Only its spinner moves a cycle on before the timer that it waits for. -/
theorem Alarm.stage_of_moves_spinner {c : Cycle} {a : Alarm} {f : Cycle → Cycle} {es : List Event}
    (hm : c.Moves a.action f es) (ha : a.kind = .spinner) : (f c).stage = c.stage := by
  cases a with
  | spinner g =>
    simp only [action] at hm
    cases hm
    rfl
  | _ => cases ha

/-- Only its spinner moves a cycle that waits on before the end of its pause. -/
theorem Alarm.spinner_ne_off_of_moves {c : Cycle} {a : Alarm} {f : Cycle → Cycle} {es : List Event}
    (hm : c.Moves a.action f es) (ha : a.kind ≠ .debounce) (hs : c.stage = .waiting) :
    c.spinner ≠ .off := by
  cases a with
  | debounce _ => exact absurd rfl ha
  | compiled _ _ =>
    simp only [action] at hm
    cases hm with
    | compiled hs' => simp [hs] at hs'
    | fails hs' => simp [hs] at hs'
  | parsed _ _ =>
    simp only [action] at hm
    cases hm with
    | parsed hs' => simp [hs] at hs'
  | spinner _ =>
    simp only [action] at hm
    cases hm with
    | spins hon => exact hon

namespace Timeline

open Desk (Kept)

/-! ## The invariant -/

/-- The timers fit the desk. -/
structure Wound (t : Timeline) : Prop where
  reached : t.desk.Reached
  /-- No timer is late. -/
  due_ge : ∀ x ∈ t.timers, t.now ≤ x.due
  /-- No timer is newer than the newest generation. -/
  generation_le : ∀ x ∈ t.timers, x.alarm.generation ≤ t.desk.phases.generation
  /-- A spinner that runs has a timer. -/
  armed : t.Armed .spinner
  /-- A timer comes to a cycle that waits for it, unless it is that of a spinner. -/
  awaited : ∀ x ∈ t.timers, x.alarm.kind ≠ .spinner →
    ∀ c ∈ t.desk.cycles, c.generation = x.alarm.generation → c.awaits x.alarm.kind
  /-- A cycle has one timer, beside that of its spinner. -/
  apart : t.timers.Pairwise Timer.Apart

variable {sv : Services} {timing : Timing} {t u : Timeline} {as : List Desk.Action}

/-! ## Rings -/

/-- The desk when a timer goes off: the clock is set, and a cycle may move on. -/
theorem rung_desk (sv : Services) (timing : Timing) (t : Timeline) (x : Timer)
    (others : List Timer) :
    t.desk.goesOn x.alarm.action = false ∧
      (t.rung sv timing x others).desk = (t.goTo x.due).desk ∨
    ∃ c f es, t.desk.cycle? c.generation = some c ∧ c.Moves x.alarm.action f es ∧
      (t.rung sv timing x others).desk = (t.goTo x.due).desk.moved c.generation f es := by
  have hsame : (t.goTo x.due).desk.goesOn x.alarm.action = t.desk.goesOn x.alarm.action := by
    cases x.alarm <;> rfl
  cases hgo : t.desk.goesOn x.alarm.action with
  | false =>
    exact .inl ⟨rfl, Desk.act_eq_self (Alarm.drives_action _ x.alarm) (hsame.trans hgo)
      x.alarm.action_ne_wait⟩
  | true =>
    obtain ⟨c, f, es, hc, hm⟩ := Desk.exists_moves (hsame.trans hgo) x.alarm.action_ne_next
    exact .inr ⟨c, f, es, hc, hm, Desk.act_of_moves hc hm⟩

/-- After a ring, what is waited for has a timer, as far as what is asked is answered. -/
theorem Ring.armedAt (hring : Ring sv timing t as u)
    (hnodup : (t.desk.cycles.map Cycle.generation).Nodup) {g : Nat} {k : Alarm.Kind}
    (hanswers : ∀ x ∈ t.timers, x.alarm.generation = g → x.alarm.IsAnswered sv t.desk k)
    (h : t.ArmedAt g k) : u.ArmedAt g k := by
  cases hring with
  | @mk x before after hbegun htimers hmin hnow =>
    have hother : ∀ c ∈ t.desk.cycles, c.generation = g → c.awaits k →
        (x.alarm.generation = g → k ≠ x.alarm.kind) →
        (t.rung sv timing x (before ++ after)).HasTimer k g := by
      intro c hc hcg hk hne
      obtain ⟨y, hy, hyk, hyg⟩ := h c hc hcg hk
      have hyx : y ≠ x := by
        rintro rfl
        exact hne hyg hyk.symm
      have hyo := ((mem_timers_iff htimers).mp hy).resolve_left hyx
      exact ⟨y, mem_rung_iff.mpr (.inl hyo), hyk, hyg⟩
    intro b hb hbg hk
    -- A timer that moves no cycle on is not waited for, so no cycle misses it.
    rcases rung_desk sv timing t x (before ++ after) with
      ⟨hgo, hdesk⟩ | ⟨c, f, es, hc, hm, hdesk⟩
    · rw [hdesk] at hb
      refine hother b hb hbg hk ?_
      rintro hg rfl
      simp [Desk.goesOn_action hnodup hb (hg.trans hbg.symm) hk] at hgo
    · have hgen := Alarm.generation_of_moves hm
      rw [hdesk] at hb
      obtain ⟨a, ha, rfl⟩ := Desk.mem_change hb
      by_cases hac : a.generation = c.generation
      case neg =>
        rw [if_neg hac] at hbg hk
        exact hother a ha hbg hk fun hg => absurd (hbg.trans (hg.symm.trans hgen)) hac
      case pos =>
        rw [if_pos hac] at hbg hk
        have heq : a = c := Desk.eq_of_generation_eq hnodup ha (Desk.cycle?_eq_some hc).1 hac
        subst heq
        rw [hm.generation_eq] at hbg
        have hx : x ∈ t.timers := (mem_timers_iff htimers).mpr (.inl rfl)
        rcases Alarm.awaits_of_moves hc hm timing (hanswers x hx (hgen.trans hbg)) hk with
          ⟨hold, hne⟩ | ⟨p, hp, hpk⟩
        · exact hother a ha hbg hold fun _ => hne
        · exact ⟨⟨x.due + p.1, p.2⟩, mem_rung_iff.mpr (.inr ⟨p, hp, rfl⟩), hpk,
            (Alarm.of_mem_sets hp).1.trans (hgen.trans hbg)⟩

theorem Ring.armed (hring : Ring sv timing t as u)
    (hnodup : (t.desk.cycles.map Cycle.generation).Nodup) {k : Alarm.Kind}
    (hk : k.isAnswer = false) (h : t.Armed k) : u.Armed k := by
  refine fun g => hring.armedAt hnodup (fun x _ _ => ?_) (h g)
  cases k with
  | debounce => trivial
  | spinner => trivial
  | _ => cases hk

/-! ## Cycles that are kept -/

theorem ArmedAt.kept {g : Nat} {k : Alarm.Kind} (h : t.ArmedAt g k) {d : Desk}
    (hkept : Kept t.desk.cycles d.cycles) : ArmedAt { t with desk := d } g k := by
  intro c hc hg hawaits
  obtain ⟨b, hb, hbg, hb'⟩ := hkept.awaits hc hawaits
  exact h b hb (hbg.symm.trans hg) hb'

/-- The cycle of an edit waits for the end of its pause only. -/
theorem ArmedAt.edit {g : Nat} {k : Alarm.Kind} (h : t.ArmedAt g k) (hk : k ≠ .debounce)
    (e : Edit) : (t.on (·.edit e)).ArmedAt g k := by
  intro c hc hg hawaits
  rw [show (t.on (·.edit e)).desk.cycles = _ from t.desk.cycles_edit e] at hc
  rcases List.mem_cons.mp hc with rfl | hc
  · cases k with
    | debounce => exact absurd rfl hk
    | _ => cases hawaits
  · obtain ⟨b, hb, hbg, hb'⟩ := (Kept.superseded t.desk).awaits hc hawaits
    exact h b hb (hbg.symm.trans hg) hb'

namespace Wound

theorem nodup (h : Wound t) : (t.desk.cycles.map Cycle.generation).Nodup := h.reached.nodup

/-- The end of a pause comes to a cycle that waits for it. -/
theorem waiting (h : Wound t) : ∀ x ∈ t.timers, x.alarm.kind = .debounce →
    ∀ c ∈ t.desk.cycles, c.generation = x.alarm.generation → c.stage = .waiting := by
  intro x hx hk c hc hg
  have hawaits := h.awaited x hx (by rw [hk]; nofun) c hc hg
  rw [hk] at hawaits
  simpa [Cycle.awaits] using hawaits

theorem ring (h : Wound t) (hring : Ring sv timing t as u) : Wound u := by
  have hreached : u.desk.Reached := hring.desk_eq ▸ h.reached.run as
  have harmed : u.Armed .spinner := hring.armed h.nodup rfl h.armed
  cases hring with
  | @mk x before after hbegun htimers hmin hnow =>
    have hx : x ∈ t.timers := (mem_timers_iff htimers).mpr (.inl rfl)
    have hothers : ∀ y ∈ before ++ after, y ∈ t.timers := fun y hy =>
      (mem_timers_iff htimers).mpr (.inr hy)
    have hgen : (t.rung sv timing x (before ++ after)).desk.phases.generation =
        t.desk.phases.generation := (Desk.generation_act x.alarm.action_isEdit).1
    have hapart := h.apart
    rw [htimers, List.pairwise_middle fun hxy => hxy.symm, List.pairwise_cons] at hapart
    constructor
    case reached => exact hreached
    case armed => exact harmed
    case due_ge =>
      intro y hy
      rw [now_rung]
      rcases mem_rung_iff.mp hy with hy | ⟨p, -, rfl⟩
      · exact hmin y hy
      · exact Nat.le_add_right _ _
    case generation_le =>
      intro y hy
      rw [hgen]
      rcases mem_rung_iff.mp hy with hy | ⟨p, hp, rfl⟩
      · exact h.generation_le y (hothers y hy)
      · exact (Alarm.of_mem_sets hp).1 ▸ h.generation_le x hx
    case awaited =>
      intro y hy hkind b hb hg
      rcases rung_desk sv timing t x (before ++ after) with
        ⟨hgo, hdesk⟩ | ⟨c, f, es, hc, hm, hdesk⟩
      · rw [hdesk] at hb
        rcases mem_rung_iff.mp hy with hy | ⟨p, hp, rfl⟩
        · exact h.awaited y (hothers y hy) hkind b hb hg
        · have hbg : b.generation = x.alarm.generation := hg.trans (Alarm.of_mem_sets hp).1
          have hawaits := h.awaited x hx (Alarm.kind_ne_spinner_of_mem_sets hp) b hb hbg
          simp [Desk.goesOn_action h.nodup hb hbg.symm hawaits] at hgo
      · have hxg := Alarm.generation_of_moves hm
        rw [hdesk] at hb
        obtain ⟨a, ha, rfl⟩ := Desk.mem_change hb
        by_cases hac : a.generation = c.generation
        case neg =>
          rw [if_neg hac] at hg ⊢
          rcases mem_rung_iff.mp hy with hy | ⟨p, hp, rfl⟩
          · exact h.awaited y (hothers y hy) hkind a ha hg
          · exact absurd (hg.trans ((Alarm.of_mem_sets hp).1.trans hxg)) hac
        case pos =>
          rw [if_pos hac] at hg ⊢
          rw [hm.generation_eq] at hg
          have heq : a = c := Desk.eq_of_generation_eq h.nodup ha (Desk.cycle?_eq_some hc).1 hac
          subst heq
          rcases mem_rung_iff.mp hy with hy | ⟨p, hp, rfl⟩
          · -- The cycle has one timer beside that of its spinner, and it is `y`.
            have hxk : x.alarm.kind = .spinner := by
              by_contra hne
              exact hapart.1 y hy hne hkind (hxg.trans hg)
            rw [Cycle.awaits_eq (Alarm.stage_of_moves_spinner hm hxk) hkind]
            exact h.awaited y (hothers y hy) hkind a ha hg
          · exact Alarm.awaits_of_sets hc hm hp hkind
    case apart =>
      refine List.pairwise_append.mpr ⟨hapart.2, ?_, ?_⟩
      · rw [List.pairwise_map]
        refine (Alarm.pairwise_sets sv timing t.desk x.alarm).imp ?_
        rintro p q (hp | hq) hp' hq'
        · exact absurd hp hp'
        · exact absurd hq hq'
      · intro y hy z hz hyk _
        obtain ⟨p, hp, rfl⟩ := List.mem_map.mp hz
        have hne := hapart.1 y hy (Alarm.kind_ne_spinner_of_mem_sets hp) hyk
        exact fun hg => hne ((Alarm.of_mem_sets hp).1.symm.trans hg.symm)

/-! ## Other ticks -/

/-- Another desk goes with the timers if its cycles are kept. -/
theorem kept (h : Wound t) {d : Desk} (hr : d.Reached) (hnow : d.now ≤ t.now)
    (hgen : t.desk.phases.generation ≤ d.phases.generation)
    (hkept : Kept t.desk.cycles d.cycles) : Wound { t with desk := d } where
  reached := hr
  due_ge := fun x hx => Nat.le_trans hnow (h.due_ge x hx)
  generation_le := fun x hx => Nat.le_trans (h.generation_le x hx) hgen
  armed := fun g => (h.armed g).kept hkept
  awaited := by
    intro x hx hkind c hc hg
    obtain ⟨b, hb, hbg, -, hs, -⟩ := hkept c hc
    rw [Cycle.awaits_eq hs hkind]
    exact h.awaited x hx hkind b hb (hbg.symm.trans hg)
  apart := h.apart

/-- An event that is handled leaves the timers as they are. -/
theorem handle (h : Wound t) : Wound (t.on (·.act .next)) :=
  h.kept (h.reached.act .next) (Nat.le_of_eq (Desk.now_act nofun))
    (Nat.le_of_eq (Desk.generation_act rfl).1.symm) (Kept.next t.desk)

theorem persist (h : Wound t) (on : Bool) : Wound (t.on fun d => { d with persists := on }) :=
  h.kept (h.reached.act (.persist on)) (Nat.le_refl _) (Nat.le_refl _) (Kept.refl _)

/-- The cycle of an edit waits for the end of its pause only. -/
theorem edit (h : Wound t) (e : Edit) : Wound (t.on (·.edit e)) := by
  have hreached := h.reached.act (.edit e)
  have hgen := t.desk.generation_edit e
  have hnow : (t.desk.edit e).now = t.now := Desk.now_act (a := .edit e) nofun
  have hcycles := t.desk.cycles_edit e
  have hkept := Kept.superseded t.desk
  constructor
  case reached => exact hreached
  case due_ge =>
    intro x hx
    rw [show (t.on (·.edit e)).now = t.now from hnow]
    exact h.due_ge x hx
  case generation_le =>
    intro x hx
    rw [show (t.on (·.edit e)).desk.phases.generation = _ from hgen]
    exact Nat.le_succ_of_le (h.generation_le x hx)
  case armed => exact fun g => (h.armed g).edit nofun e
  case awaited =>
    intro x hx hkind c hc hg
    rw [show (t.on (·.edit e)).desk.cycles = _ from hcycles] at hc
    rcases List.mem_cons.mp hc with rfl | hc
    · have hle := h.generation_le x hx
      simp only [Cycle.start] at hg
      omega
    · obtain ⟨b, hb, hbg, -, hs, -⟩ := hkept c hc
      rw [Cycle.awaits_eq hs hkind]
      exact h.awaited x hx hkind b hb (hbg.symm.trans hg)
  case apart => exact h.apart

theorem clock (h : Wound t) {deadline : Nat} (hnow : t.now ≤ deadline)
    (hdue : ∀ x ∈ t.timers, deadline < x.due) : Wound (t.goTo deadline) := by
  have hdesk : (t.goTo deadline).desk = t.desk.act (.wait (deadline - t.now)) := by
    have hsum := Nat.add_sub_cancel' hnow
    simp only [now] at hsum
    simp [goTo, on, Desk.act, now, hsum]
  exact {
    reached := hdesk ▸ h.reached.act _
    due_ge := fun x hx => Nat.le_of_lt (hdue x hx)
    generation_le := h.generation_le
    armed := h.armed
    awaited := h.awaited
    apart := h.apart }

theorem start (s : Store) : Wound (Timeline.start (Desk.start s)) where
  reached := .start s
  due_ge := nofun
  generation_le := nofun
  armed := by
    intro g c hc _ hawaits
    rw [List.mem_singleton.mp hc] at hawaits
    cases hawaits
  awaited := nofun
  apart := .nil

end Wound

/-! ## The beginning of a wait -/

/-- The timers that matter still. -/
def standing (t : Timeline) : List Timer := t.timers.filter fun x => x.alarm.isLive t.desk

/-- The cycles whose pause has no timer. -/
def unset (t : Timeline) : List Cycle :=
  t.desk.cycles.filter fun c => c.stage = .waiting &&
    !t.standing.any fun x => x.alarm.isDebounceOf c.generation

theorem begin_eq (timing : Timing) (t : Timeline) : t.begin timing = { t with
    desk := t.desk.endStopped
    timers := t.standing ++
      t.unset.map fun c => ⟨t.now + timing.debounce, .debounce c.generation⟩ } :=
  rfl

theorem isDebounceOf_iff (a : Alarm) (g : Nat) :
    a.isDebounceOf g ↔ a.kind = .debounce ∧ a.generation = g := by
  cases a <;> simp [Alarm.isDebounceOf, Alarm.kind, Alarm.generation, eq_comm]

/-- The beginning of a wait leaves the desk but for spinners that stop. -/
theorem exists_desk_begin (timing : Timing) (t : Timeline) :
    ∃ cs, (t.begin timing).desk = { t.desk with cycles := cs } ∧ Kept t.desk.cycles cs :=
  t.desk.exists_endStopped

theorem now_begin (timing : Timing) (t : Timeline) : (t.begin timing).now = t.now := by
  obtain ⟨cs, hdesk, -⟩ := exists_desk_begin timing t
  simp only [now, hdesk]

/-- A timer that a cycle waits for matters. -/
theorem isLive_of_awaits {d : Desk} (hnodup : (d.cycles.map Cycle.generation).Nodup) {c : Cycle}
    (hc : c ∈ d.cycles) {a : Alarm} (hg : a.generation = c.generation) (h : c.awaits a.kind) :
    a.isLive d := by
  have hcycle : d.cycle? c.generation = some c := (Desk.cycle?_eq_some_iff hnodup).mpr ⟨hc, rfl⟩
  cases a <;> simp only [Alarm.generation] at hg <;> subst hg <;>
    simp_all [Alarm.isLive, Cycle.awaits, Alarm.kind]

/-- When a wait has begun, cycles keep the timers that they wait for, and those of pauses have
started. -/
theorem Wound.armedAt_begin (hw : Wound t) (timing : Timing) {g : Nat} {k : Alarm.Kind}
    (h : k ≠ .debounce → t.ArmedAt g k) : (t.begin timing).ArmedAt g k := by
  obtain ⟨cs, hdesk, hkept⟩ := exists_desk_begin timing t
  intro c hc hg hawaits
  rw [hdesk] at hc
  obtain ⟨b, hb, hcb, hb'⟩ := hkept.awaits hc hawaits
  have hbg : b.generation = g := hcb.symm.trans hg
  by_cases hk : k = .debounce
  case neg =>
    obtain ⟨x, hx, hxk, hxg⟩ := h hk b hb hbg hb'
    have hlive := isLive_of_awaits hw.nodup hb (hxg.trans hbg.symm) (hxk ▸ hb')
    exact ⟨x, List.mem_append_left _ (List.mem_filter.mpr ⟨hx, hlive⟩), hxk, hxg⟩
  case pos =>
    subst hk
    cases hany : t.standing.any fun x => x.alarm.isDebounceOf b.generation with
    | true =>
      obtain ⟨x, hx, hdeb⟩ := List.any_eq_true.mp hany
      obtain ⟨hxk, hxg⟩ := (isDebounceOf_iff _ _).mp hdeb
      exact ⟨x, List.mem_append_left _ hx, hxk, hxg.trans hbg⟩
    | false =>
      have hunset : b ∈ t.unset := by
        refine List.mem_filter.mpr ⟨hb, ?_⟩
        rw [hany]
        simpa [Cycle.awaits] using hb'
      exact ⟨_, List.mem_append_right _ (List.mem_map_of_mem hunset), rfl, hbg⟩

theorem Wound.armed_begin (hw : Wound t) (timing : Timing) : (t.begin timing).Armed .debounce :=
  fun _ => hw.armedAt_begin timing fun h => absurd rfl h

theorem Wound.begin (h : Wound t) (timing : Timing) : Wound (t.begin timing) := by
  have hreached : (t.begin timing).desk.Reached := h.reached.run t.desk.stops
  obtain ⟨cs, hdesk, hkept⟩ := exists_desk_begin timing t
  obtain ⟨log, htracks⟩ := h.reached.tracks
  have hmem : ∀ x ∈ (t.begin timing).timers, x ∈ t.timers ∨
      ∃ c ∈ t.desk.cycles, c.stage = .waiting ∧
        x = ⟨t.now + timing.debounce, .debounce c.generation⟩ := by
    intro x hx
    rcases List.mem_append.mp hx with hx | hx
    · exact .inl (List.mem_filter.mp hx).1
    · obtain ⟨c, hc, rfl⟩ := List.mem_map.mp hx
      obtain ⟨hc, hs⟩ := List.mem_filter.mp hc
      exact .inr ⟨c, hc, by simp at hs; exact hs.1, rfl⟩
  constructor
  case reached => exact hreached
  case armed => exact fun g => h.armedAt_begin timing fun _ => h.armed g
  case due_ge =>
    intro x hx
    rw [now_begin]
    rcases hmem x hx with hx | ⟨c, -, -, rfl⟩
    · exact h.due_ge x hx
    · exact Nat.le_add_right _ _
  case generation_le =>
    intro x hx
    rw [hdesk]
    rcases hmem x hx with hx | ⟨c, hc, -, rfl⟩
    · exact h.generation_le x hx
    · exact htracks.cycle_le c hc
  case awaited =>
    intro x hx hkind b hb hg
    rw [hdesk] at hb
    obtain ⟨a, ha, hag, -, hs, -⟩ := hkept b hb
    rw [Cycle.awaits_eq hs hkind]
    rcases hmem x hx with hx | ⟨c, hc, hcs, rfl⟩
    · exact h.awaited x hx hkind a ha (hag.symm.trans hg)
    · rw [Desk.eq_of_generation_eq h.nodup ha hc (hag.symm.trans hg)]
      simpa [Cycle.awaits, Alarm.kind] using hcs
  case apart =>
    rw [begin_eq]
    refine List.pairwise_append.mpr ⟨h.apart.sublist List.filter_sublist, ?_, ?_⟩
    · rw [List.pairwise_map]
      have hne : t.unset.Pairwise fun b c => b.generation ≠ c.generation :=
        (List.pairwise_map.mp h.nodup).sublist List.filter_sublist
      exact hne.imp fun hbc _ _ => hbc
    · intro x hx y hy hkind _ hg
      obtain ⟨c, hc, rfl⟩ := List.mem_map.mp hy
      obtain ⟨hc, hnone⟩ := List.mem_filter.mp hc
      simp only [Bool.and_eq_true, decide_eq_true_eq, Bool.not_eq_true', List.any_eq_false] at hnone
      -- The cycle waits for the end of its pause, so any timer that it has is the one for that.
      have hawaits := h.awaited x (List.mem_filter.mp hx).1 hkind c hc hg.symm
      have hpause : c.awaits .debounce := by simpa [Cycle.awaits] using hnone.1
      have hdebounce : x.alarm.kind = .debounce :=
        Cycle.kind_eq_of_awaits hkind (by decide) hawaits hpause
      exact hnone.2 x hx ((isDebounceOf_iff _ _).mpr ⟨hdebounce, hg⟩)

/-- Every tick keeps the timers fit. -/
theorem Wound.ticks (h : Wound t) (hticks : Ticks sv timing t as u) : Wound u := by
  cases hticks with
  | begin => exact h.begin timing
  | ring hring => exact h.ring hring
  | clock _ hnow hdue => exact h.clock hnow hdue
  | handle => exact h.handle

theorem Wound.passes (h : Wound t) (hpasses : Passes sv timing t as u) : Wound u := by
  induction hpasses with
  | refl => exact h
  | tick hticks _ ih => exact ih (h.ticks hticks)

/-! ## Answers -/

/-- A tick leaves a timer for what a cycle waits for, if what it asks is answered. -/
theorem ArmedAt.ticks {g : Nat} {k : Alarm.Kind} (h : t.ArmedAt g k) (hw : Wound t)
    (hanswers : ∀ x ∈ t.timers, x.alarm.generation = g → x.alarm.IsAnswered sv t.desk k)
    (hticks : Ticks sv timing t as u) : u.ArmedAt g k := by
  cases hticks with
  | begin => exact hw.armedAt_begin timing fun _ => h
  | ring hring => exact hring.armedAt hw.nodup hanswers h
  | clock _ _ _ => exact h
  | handle => exact h.kept (Kept.next t.desk)

theorem Served.ticks {g : Nat} (h : t.Served g) (hw : Wound t)
    (hanswers : ∀ x ∈ t.timers, x.alarm.generation = g → ∀ k, x.alarm.IsAnswered sv t.desk k)
    (hticks : Ticks sv timing t as u) : u.Served g :=
  fun k hk => (h k hk).ticks hw (fun x hx hg => hanswers x hx hg k) hticks

end Timeline

end Playground
