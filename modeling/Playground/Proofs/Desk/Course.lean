import Playground.Proofs.Desk.Inversion
import Playground.Proofs.Desk.OnScreen

/-!
# The course of a cycle

What the current cycle has told, and how much of it has been handled.

`Told` gives the events that a cycle has told for how far it and its spinner have come.

    waiting                       nothing
    working, spinner running      started
    working, spinner over         started, still compiling
    finished, spinner running     started, finished
    finished, spinner over        started, then the other two in either order

`Handled` gives the events that have been handled for the phase.  What has been handled
and what is in the queue is together what has been told, so no event of the current
cycle can come out of turn.
-/

namespace Playground

/-- The cycle waits for a service. -/
def Stage.isWorking : Stage → Bool
  | .compiling | .parsing _ => true
  | .waiting | .finished => false

/-- The cycle, if it may still do something. -/
def Cycle.unlessOver (c : Cycle) : Option Cycle := if c.isLive then some c else none

theorem Cycle.unlessOver_of_isWorking {c : Cycle} (h : c.stage.isWorking) :
    c.unlessOver = some c := by
  have hlive : c.isLive := by
    unfold isLive
    cases hs : c.stage <;> simp [hs, Stage.isWorking] at h ⊢
  exact if_pos hlive

theorem Cycle.unlessOver_of_finished {c : Cycle} (h : c.stage = .finished) :
    c.unlessOver = if c.spinner = .off then none else some c := by
  simp [unlessOver, isLive, h]

namespace Notice

/-- The cycle whose event has been handled. -/
def generation : Notice → Nat
  | requestSent g | showedCompiling g | rendered g _ | stale g => g

/-- The event has done something. -/
def isActive : Notice → Bool
  | stale _ => false
  | _ => true

/-- The notices of a generation that are not stale. -/
def effects (ns : List Notice) (g : Nat) : List Notice :=
  ns.filter fun n => n.isActive && n.generation = g

/-- The notices of a cycle that has rendered. -/
def word (g : Nat) (showed : Bool) (status : Status) : List Notice :=
  .requestSent g :: if showed then [.showedCompiling g, .rendered g status] else [.rendered g status]

theorem effects_append (ns ms : List Notice) (g : Nat) :
    effects (ns ++ ms) g = effects ns g ++ effects ms g :=
  List.filter_append ..

@[simp] theorem effects_nil (g : Nat) : effects [] g = [] := rfl

theorem effects_singleton (n : Notice) (g : Nat) :
    effects [n] g = if n.isActive && n.generation = g then [n] else [] := by
  simp [effects, List.filter_singleton]

end Notice

namespace Desk

/-- The events of a generation that have not been handled, oldest first. -/
def eventsOf (d : Desk) (g : Nat) : List Event := d.queue.filter (·.generation = g)

/-- The events that the cycle of a generation has told.  A cycle that is over is not kept. -/
inductive Told (g : Nat) : Option Cycle → List Event → Prop where
  | waiting {c : Cycle} : c.stage = .waiting → c.spinner = .off → Told g (some c) []
  | sent {c : Cycle} : c.stage.isWorking → c.spinner = .running → Told g (some c) [.started g]
  | overdue {c : Cycle} : c.stage.isWorking → c.spinner = .off →
      Told g (some c) [.started g, .stillCompiling g]
  | done {c : Cycle} {result : Except PlaygroundError CompileOutcome} :
      c.stage = .finished → c.spinner = .running →
      Told g (some c) [.started g, .finished g result]
  | doneOverdue {result : Except PlaygroundError CompileOutcome} :
      Told g none [.started g, .stillCompiling g, .finished g result]
  | overdueDone {result : Except PlaygroundError CompileOutcome} :
      Told g none [.started g, .finished g result, .stillCompiling g]

/-- The events of the current cycle that have been handled, with their notices. -/
inductive Handled (g : Nat) : Phase → List Event → List Notice → Prop where
  | nothing : Handled g .pendingCompile [] []
  | sent : Handled g .compiling [.started g] [.requestSent g]
  | showed : Handled g .compiling [.started g, .stillCompiling g]
      [.requestSent g, .showedCompiling g]

/-- The cycles and the notices so far fit together. -/
structure Trail (seen : List Notice) (d : Desk) : Prop where
  /-- No cycle that is over is kept. -/
  live : ∀ c ∈ d.cycles, c.isLive
  /-- Only the current cycle waits for the edits to stop. -/
  waiting : ∀ c ∈ d.cycles, c.stage = .waiting → d.current = some c.generation
  /-- No notice is newer than the newest generation. -/
  seen_le : ∀ n ∈ seen, n.isActive → n.generation ≤ d.phases.generation
  /-- The generations never go back. -/
  ordered : (seen.filter Notice.isActive).Pairwise (·.generation ≤ ·.generation)
  /-- Each generation has a beginning of the notices of a cycle. -/
  grammar : ∀ g, ∃ showed status, Notice.effects seen g <+: Notice.word g showed status

/-- The current cycle is where the phase says. -/
structure Course (seen : List Notice) (d : Desk) : Prop extends Trail seen d where
  /-- What is told and has not been handled is in the queue. -/
  underway : ∀ g, d.current = some g → ∃ handled,
    Told g (d.cycle? g) (handled ++ d.eventsOf g) ∧
      Handled g d.phases.current handled (Notice.effects seen g)
  /-- Without a current cycle, the newest one has rendered. -/
  resting : d.current = none → d.phases.current = .rendered ∧ ∃ showed status,
    Notice.effects seen d.phases.generation = Notice.word d.phases.generation showed status

/-! ## Cycles by their generation -/

theorem cycle?_eq_some_iff {d : Desk} (h : (d.cycles.map Cycle.generation).Nodup) {g : Nat}
    {c : Cycle} : d.cycle? g = some c ↔ c ∈ d.cycles ∧ c.generation = g := by
  constructor
  · exact cycle?_eq_some
  · rintro ⟨hmem, hcg⟩
    cases hc : d.cycle? g with
    | none =>
      have hne := List.find?_eq_none.mp hc c hmem
      simp [hcg] at hne
    | some b =>
      obtain ⟨hb, hbg⟩ := cycle?_eq_some hc
      rw [eq_of_generation_eq h hb hmem (hbg.trans hcg.symm)]

/-- A change leaves the cycles of other generations as they are. -/
theorem kept_change (k : Nat) (f : Cycle → Cycle) {cs : List Cycle}
    (hlive : ∀ c ∈ cs, c.isLive) (hne : ∀ c ∈ cs, c.generation ≠ k) :
    (cs.map fun c => if c.generation = k then f c else c).filter Cycle.isLive = cs := by
  have hmap : (cs.map fun c => if c.generation = k then f c else c) = cs := by
    conv_rhs => rw [← List.map_id cs]
    apply List.map_congr_left
    intro c hc
    simp [hne c hc]
  rw [hmap]
  exact List.filter_eq_self.mpr hlive

/-- A change replaces the cycle of its generation where it stands, and drops it if it is
over. -/
theorem exists_change_eq {d : Desk} (hnodup : (d.cycles.map Cycle.generation).Nodup)
    (hlive : ∀ c ∈ d.cycles, c.isLive) {k : Nat} {c : Cycle} (hc : d.cycle? k = some c)
    (f : Cycle → Cycle) :
    ∃ before after, d.cycles = before ++ c :: after ∧
      (∀ b ∈ before ++ after, b.generation ≠ k) ∧
      (d.change k f).cycles =
        before ++ (f c).unlessOver.toList ++ after := by
  obtain ⟨hk, before, after, heq, hbefore⟩ := List.find?_eq_some_iff_append.mp hc
  have hck : c.generation = k := by simpa using hk
  have hne : ∀ b ∈ before ++ after, b.generation ≠ k := by
    intro b hb
    rcases List.mem_append.mp hb with hb | hb
    · simpa using hbefore b hb
    · rw [heq, List.map_append, List.map_cons, List.nodup_append, List.nodup_cons] at hnodup
      rintro rfl
      exact hnodup.2.1.1 (hck ▸ List.mem_map_of_mem hb)
  refine ⟨before, after, heq, hne, ?_⟩
  have hb := kept_change k f (fun b hb => hlive b (by simp [heq, hb]))
    fun b (hb : b ∈ before) => hne b (by simp [hb])
  have ha := kept_change k f (fun b hb => hlive b (by simp [heq, hb]))
    fun b (hb : b ∈ after) => hne b (by simp [hb])
  simp only [change, heq, List.map_append, List.map_cons, List.filter_append, List.filter_cons, hb,
    ha, hck, if_true]
  cases hl : (f c).isLive <;> simp [Cycle.unlessOver, hl]

theorem change_eq_self {d : Desk} (hlive : ∀ c ∈ d.cycles, c.isLive) {k : Nat}
    (hc : d.cycle? k = none) (f : Cycle → Cycle) : d.change k f = d := by
  have hne : ∀ c ∈ d.cycles, c.generation ≠ k := by
    simpa [cycle?] using hc
  simp [change, kept_change k f hlive hne]

theorem cycle?_change_self {d : Desk} (hnodup : (d.cycles.map Cycle.generation).Nodup)
    (hlive : ∀ c ∈ d.cycles, c.isLive) {k : Nat} {c : Cycle} (hc : d.cycle? k = some c)
    {f : Cycle → Cycle} (hf : (f c).generation = c.generation) :
    (d.change k f).cycle? k = (f c).unlessOver := by
  obtain ⟨before, after, -, hne, heq⟩ := exists_change_eq hnodup hlive hc f
  have hck := (cycle?_eq_some hc).2
  have hb : before.find? (·.generation = k) = none := by
    simpa using fun b hb => hne b (by simp [hb])
  have ha : after.find? (·.generation = k) = none := by
    simpa using fun b hb => hne b (by simp [hb])
  rw [cycle?, heq, List.find?_append, List.find?_append, hb, ha]
  cases hl : (f c).isLive <;> simp [Cycle.unlessOver, hl, hf, hck]

theorem cycle?_change_of_ne {d : Desk} (hlive : ∀ c ∈ d.cycles, c.isLive) {k : Nat}
    {f : Cycle → Cycle} (hf : ∀ c, (f c).generation = c.generation) {g : Nat} (hg : g ≠ k) :
    (d.change k f).cycle? g = d.cycle? g := by
  simp only [cycle?, change]
  generalize d.cycles = cs at hlive
  induction cs with
  | nil => rfl
  | cons c cs ih =>
    have hcs := ih fun b hb => hlive b (List.mem_cons_of_mem c hb)
    have hc := hlive c (List.mem_cons_self ..)
    by_cases hck : c.generation = k
    case pos =>
      have hkg : ¬ k = g := fun hkg => hg hkg.symm
      cases hl : (f c).isLive <;> simp [hck, hkg, hl, hf, hcs]
    case neg =>
      simp [hck, hc, hcs, List.find?_cons]

/-! ## What a cycle tells -/

theorem eventsOf_moved (d : Desk) (k g : Nat) (f : Cycle → Cycle) (es : List Event) :
    (d.moved k f es).eventsOf g = d.eventsOf g ++ es.filter (·.generation = g) :=
  List.filter_append ..

/-- The events that a cycle tells come after the ones it has told. -/
theorem Told.move {c : Cycle} {a : Action} {f : Cycle → Cycle} {es told : List Event}
    (h : Told c.generation (some c) told) (hlive : c.isLive) (hm : c.Moves a f es) :
    Told c.generation (f c).unlessOver (told ++ es) := by
  cases h with
  | waiting hs hoff =>
    cases hm with
    | sends _ =>
      have hnot : c.cancelled = false := by simpa [Cycle.isLive, hs] using hlive
      exact .sent rfl (by simp [Cycle.send, hnot])
    | compiled hs' => simp [hs] at hs'
    | fails hs' => simp [hs] at hs'
    | parsed hs' => simp [hs] at hs'
    | spins hon => exact absurd hoff hon
    | stops hon => simp [hoff] at hon
  | sent hw hrun =>
    have hdone : c.finish.unlessOver = some c.finish := by
      rw [Cycle.unlessOver_of_finished rfl]
      exact if_neg (by simp [Cycle.finish, hrun])
    cases hm with
    | sends hs => simp [hs, Stage.isWorking] at hw
    | compiled _ => exact .sent rfl hrun
    | fails _ => exact hdone ▸ .done rfl hrun
    | parsed _ => exact hdone ▸ .done rfl hrun
    | spins _ =>
      rw [Cycle.unlessOver_of_isWorking (c := c.endSpinner) hw]
      exact .overdue hw rfl
    | stops hon => simp [hrun] at hon
  | overdue hw hoff =>
    have hdone : c.finish.unlessOver = none := by
      rw [Cycle.unlessOver_of_finished rfl]
      exact if_pos hoff
    cases hm with
    | sends hs => simp [hs, Stage.isWorking] at hw
    | compiled _ => exact .overdue rfl hoff
    | fails _ => exact hdone ▸ .doneOverdue
    | parsed _ => exact hdone ▸ .doneOverdue
    | spins hon => exact absurd hoff hon
    | stops hon => simp [hoff] at hon
  | done hs hrun =>
    cases hm with
    | sends hs' => simp [hs] at hs'
    | compiled hs' => simp [hs] at hs'
    | fails hs' => simp [hs] at hs'
    | parsed hs' => simp [hs] at hs'
    | spins _ =>
      rw [Cycle.unlessOver_of_finished (c := c.endSpinner) hs]
      exact .overdueDone
    | stops hon => simp [hrun] at hon

namespace Handled

variable {g : Nat} {o : Option Cycle} {p : Phase} {handled rest : List Event} {ns : List Notice}

theorem phase_eq (h : Handled g p handled ns) : p = .pendingCompile ∨ p = .compiling := by
  cases h with
  | nothing => exact .inl rfl
  | sent => exact .inr rfl
  | showed => exact .inr rfl

/-- The first event of a cycle is handled first. -/
theorem of_started (h : Handled g p handled ns) (ht : Told g o (handled ++ .started g :: rest)) :
    p = .pendingCompile ∧ handled = [] ∧ ns = [] := by
  cases h with
  | nothing => exact ⟨rfl, rfl, rfl⟩
  | sent => cases ht
  | showed => cases ht

/-- The spinner is heard once, in the phase `compiling`. -/
theorem of_stillCompiling (h : Handled g p handled ns)
    (ht : Told g o (handled ++ .stillCompiling g :: rest)) :
    p = .compiling ∧ handled = [.started g] ∧ ns = [.requestSent g] := by
  cases h with
  | nothing => cases ht
  | sent => exact ⟨rfl, rfl, rfl⟩
  | showed => cases ht

/-- The outcome is heard in the phase `compiling`. -/
theorem of_finished {result : Except PlaygroundError CompileOutcome} (h : Handled g p handled ns)
    (ht : Told g o (handled ++ .finished g result :: rest)) (status : Status) :
    p = .compiling ∧ ∃ showed, ns ++ [.rendered g status] = Notice.word g showed status := by
  cases h with
  | nothing => cases ht
  | sent => exact ⟨rfl, false, rfl⟩
  | showed => exact ⟨rfl, true, rfl⟩

end Handled

/-- A cycle that has told its outcome is over or has finished. -/
theorem Told.stage_ne_waiting {g : Nat} {c : Cycle} {told : List Event}
    (h : Told g (some c) told) (hne : told ≠ []) : c.stage ≠ .waiting := by
  intro hs
  cases h with
  | waiting _ _ => exact hne rfl
  | sent hw _ => simp [hs, Stage.isWorking] at hw
  | overdue hw _ => simp [hs, Stage.isWorking] at hw
  | done hs' _ => simp [hs] at hs'

/-! ## A new generation -/

theorem live_change {d : Desk} {g : Nat} {f : Cycle → Cycle} {c : Cycle}
    (h : c ∈ (d.change g f).cycles) : c.isLive :=
  (List.mem_filter.mp h).2

namespace Trail

variable {seen : List Notice} {d : Desk}

/-- No cycle that has been superseded waits. -/
theorem superseded (h : Trail seen d) :
    ∀ c ∈ d.superseded, c.isLive ∧ c.stage ≠ .waiting := by
  intro c hc
  unfold Desk.superseded supersede at hc
  split at hc
  case h_1 g hcur =>
    have hlive := live_change (f := Cycle.cancel) hc
    refine ⟨hlive, fun hs => ?_⟩
    obtain ⟨b, hb, rfl⟩ := mem_change (f := Cycle.cancel) hc
    split at hs
    case isTrue hbg =>
      have hwaits : b.stage = .waiting := hs
      simp [hbg, Cycle.cancel, Cycle.isLive, hwaits] at hlive
    case isFalse hbg =>
      have hbcur := h.waiting b hb hs
      rw [hcur] at hbcur
      exact hbg (Option.some.inj hbcur).symm
  case h_2 hcur =>
    refine ⟨h.live c hc, fun hs => ?_⟩
    have hccur := h.waiting c hc hs
    rw [hcur] at hccur
    cases hccur

/-- The notices so far have nothing of a generation that has not been opened. -/
theorem effects_eq_nil (h : Trail seen d) {g : Nat} (hg : d.phases.generation < g) :
    Notice.effects seen g = [] := by
  apply List.filter_eq_nil_iff.mpr
  intro n hn
  simp only [Bool.and_eq_true, decide_eq_true_eq, not_and]
  intro hact hng
  have hle := h.seen_le n hn hact
  omega

/-- A new generation is at the beginning of its course. -/
theorem schedule (h : Trail seen d)
    (hevent : ∀ e ∈ d.queue, e.generation ≤ d.phases.generation) (reason : String) :
    Course seen (d.schedule reason) := by
  have hgen := generation_schedule d reason
  have hphase := current_schedule d reason
  rw [schedule_eq] at hgen hphase ⊢
  constructor
  case toTrail =>
    constructor
    case live =>
      intro c hc
      rcases List.mem_cons.mp hc with rfl | hc
      · rfl
      · exact (h.superseded c hc).1
    case waiting =>
      intro c hc hs
      rcases List.mem_cons.mp hc with rfl | hc
      · rfl
      · exact absurd hs (h.superseded c hc).2
    case seen_le =>
      intro n hn hact
      have hle := h.seen_le n hn hact
      rw [hgen]
      omega
    case ordered => exact h.ordered
    case grammar => exact h.grammar
  case underway =>
    rintro g ⟨rfl⟩
    have hevents : d.eventsOf (d.phases.generation + 1) = [] := by
      apply List.filter_eq_nil_iff.mpr
      intro e he
      have hle := hevent e he
      simp only [decide_eq_true_eq]
      omega
    refine ⟨[], ?_, ?_⟩
    · have hnew : ({ d with
          phases := (d.schedule reason).phases
          current := some (d.phases.generation + 1)
          cycles := .start (d.phases.generation + 1) d.state :: d.superseded } : Desk).cycle?
          (d.phases.generation + 1) = some (.start (d.phases.generation + 1) d.state) := by
        simp [cycle?, Cycle.start]
      rw [hnew]
      change Told _ _ ([] ++ d.eventsOf (d.phases.generation + 1))
      rw [hevents]
      exact .waiting rfl rfl
    · rw [hphase, h.effects_eq_nil (Nat.lt_succ_self _)]
      exact .nothing
  case resting => intro hnone; cases hnone

/-- A notice of the newest generation goes on with the notices of that one. -/
theorem notice (h : Trail seen d) {n : Notice} (hact : n.isActive)
    (hn : n.generation = d.phases.generation)
    (hword : ∃ showed status, Notice.effects seen d.phases.generation ++ [n] <+:
      Notice.word d.phases.generation showed status) :
    Trail (seen ++ [n]) d where
  live := h.live
  waiting := h.waiting
  seen_le := by
    intro m hm hmact
    rcases List.mem_append.mp hm with hm | hm
    · exact h.seen_le m hm hmact
    · exact Nat.le_of_eq (List.mem_singleton.mp hm ▸ hn)
  ordered := by
    rw [List.filter_append, List.pairwise_append]
    refine ⟨h.ordered, by simp [hact], ?_⟩
    intro m hm k hk
    obtain ⟨hmem, hmact⟩ := List.mem_filter.mp hm
    rw [List.mem_singleton.mp (List.mem_filter.mp hk).1, hn]
    exact h.seen_le m hmem hmact
  grammar := by
    intro g
    rw [Notice.effects_append, Notice.effects_singleton]
    by_cases hg : g = d.phases.generation
    case pos => simpa [hact, hn, hg] using hword
    case neg =>
      have hne : ¬ d.phases.generation = g := fun heq => hg heq.symm
      simpa [hact, hn, hne] using h.grammar g

theorem blank (s : Store) : Trail [] (Desk.blank s) := by
  constructor <;> simp [Desk.blank, Notice.effects_nil]

end Trail

namespace Course

variable {seen : List Notice} {d : Desk}

theorem start (s : Store) : Course [] (Desk.start s) :=
  Trail.schedule (d := (Desk.blank s).tell (.sync .initial)) { Trail.blank s with } (by
    intro e he
    cases he) _

theorem edit (h : Course seen d) (hevent : ∀ e ∈ d.queue, e.generation ≤ d.phases.generation)
    (e : Edit) : Course seen (d.edit e) := by
  rw [edit_eq_schedule]
  exact Trail.schedule (d := d.changed e) { h.toTrail with } hevent _

/-! ## Steps of a cycle -/

theorem move (h : Course seen d) (hnodup : (d.cycles.map Cycle.generation).Nodup) {c : Cycle}
    {a : Action} {f : Cycle → Cycle} {es : List Event} (hc : d.cycle? c.generation = some c)
    (hm : c.Moves a f es) : Course seen (d.moved c.generation f es) := by
  obtain ⟨hmem, -⟩ := cycle?_eq_some hc
  constructor
  case toTrail =>
    refine { h.toTrail with live := fun b hb => live_change hb, waiting := ?_ }
    intro b hb hs
    obtain ⟨b₀, hb₀, rfl⟩ := mem_change hb
    split at hs
    case isTrue hbc =>
      have hbc' : b₀ = c := eq_of_generation_eq hnodup hb₀ hmem hbc
      subst hbc'
      rw [if_pos rfl, hm.generation_eq]
      exact h.waiting b₀ hmem (hm.stage_ne_waiting hs).1
    case isFalse hbc =>
      rw [if_neg hbc]
      exact h.waiting b₀ hb₀ hs
  case underway =>
    intro g hg
    obtain ⟨handled, htold, hhandled⟩ := h.underway g hg
    refine ⟨handled, ?_, hhandled⟩
    rw [eventsOf_moved]
    by_cases hgc : g = c.generation
    case pos =>
      subst hgc
      have hes : es.filter (·.generation = c.generation) = es :=
        List.filter_eq_self.mpr fun e he => by simpa using hm.generation_of_mem he
      have hcycle : (d.moved c.generation f es).cycle? c.generation = (f c).unlessOver :=
        cycle?_change_self hnodup h.live hc (hm.generation_eq c)
      rw [hes, hcycle, ← List.append_assoc]
      exact (hc ▸ htold).move (h.live c hmem) hm
    case neg =>
      have hes : es.filter (·.generation = g) = [] :=
        List.filter_eq_nil_iff.mpr fun e he => by
          have heg := hm.generation_of_mem he
          simp only [decide_eq_true_eq]
          exact fun hge => hgc (hge.symm.trans heg)
      have hcycle : (d.moved c.generation f es).cycle? g = d.cycle? g :=
        cycle?_change_of_ne h.live hm.generation_eq hgc
      rw [hes, hcycle, List.append_nil]
      exact htold
  case resting => exact h.resting

/-! ## Events -/

theorem eventsOf_left {e : Event} {es : List Event} (hq : d.queue = e :: es) (g : Nat) :
    d.eventsOf g = if e.generation = g then e :: (d.left es).eventsOf g
      else (d.left es).eventsOf g := by
  simp only [eventsOf, left, hq, List.filter_cons, decide_eq_true_eq]

theorem stale (h : Course seen d) {e : Event} {es : List Event} (hq : d.queue = e :: es)
    (hcur : d.current ≠ some e.generation) :
    Course (seen ++ [.stale e.generation]) (d.left es) := by
  have heffects : ∀ g,
      Notice.effects (seen ++ [.stale e.generation]) g = Notice.effects seen g := by
    intro g
    simp [Notice.effects_append, Notice.effects_singleton, Notice.isActive]
  constructor
  case toTrail =>
    constructor
    case live => exact h.live
    case waiting => exact h.waiting
    case seen_le =>
      intro n hn hact
      rcases List.mem_append.mp hn with hn | hn
      · exact h.seen_le n hn hact
      · simp [List.mem_singleton.mp hn, Notice.isActive] at hact
    case ordered => simpa [Notice.isActive] using h.ordered
    case grammar => simpa only [heffects] using h.grammar
  case underway =>
    intro g hg
    obtain ⟨handled, htold, hhandled⟩ := h.underway g hg
    have hne : e.generation ≠ g := fun heg => hcur (heg ▸ hg)
    rw [eventsOf_left hq, if_neg hne] at htold
    exact ⟨handled, htold, (heffects g).symm ▸ hhandled⟩
  case resting => simpa [heffects] using h.resting

/-- What has been told and not handled, at the event that is handled. -/
theorem told_of_queue (h : Course seen d) {e : Event} {es : List Event} (hq : d.queue = e :: es)
    {g : Nat} (he : e.generation = g) (hcur : d.current = some g) : ∃ handled,
    Told g (d.cycle? g) (handled ++ e :: (d.left es).eventsOf g) ∧
      Handled g d.phases.current handled (Notice.effects seen g) := by
  obtain ⟨handled, htold, hhandled⟩ := h.underway g hcur
  rw [eventsOf_left hq, if_pos he] at htold
  exact ⟨handled, htold, hhandled⟩

theorem sent (h : Course seen d) {g : Nat} {es : List Event} (hq : d.queue = .started g :: es)
    (hcur : d.current = some g) (hg : g = d.phases.generation) (reason : String) :
    Course (seen ++ [.requestSent g]) ((d.left es).enter .compiling reason) := by
  obtain ⟨handled, htold, hhandled⟩ := h.told_of_queue (g := g) hq rfl hcur
  obtain ⟨hp, rfl, hns⟩ := hhandled.of_started htold
  have hgen := generation_enter (d.left es) .compiling reason
  have hphase : ((d.left es).enter .compiling reason).phases.current = .compiling := by
    rw [current_enter, left_phases, hp]
    rfl
  have heffects : Notice.effects (seen ++ [.requestSent g]) g = [.requestSent g] := by
    rw [Notice.effects_append, hns]
    simp [Notice.effects_singleton, Notice.isActive, Notice.generation]
  have htrail := h.toTrail.notice (n := .requestSent g) rfl hg
    ⟨true, .ok, by rw [← hg, hns]; simp [Notice.word]⟩
  rw [enter_eq]
  constructor
  case toTrail => exact { htrail with seen_le := hgen ▸ htrail.seen_le }
  case underway =>
    intro k hk
    cases hcur.symm.trans hk
    refine ⟨[.started g], htold, ?_⟩
    rw [hphase, heffects]
    exact .sent
  case resting =>
    intro hnone
    cases hcur.symm.trans hnone

theorem showed (h : Course seen d) {g : Nat} {es : List Event}
    (hq : d.queue = .stillCompiling g :: es) (hcur : d.current = some g)
    (hg : g = d.phases.generation) :
    Course (seen ++ [.showedCompiling g]) ((d.left es).tell .compiling) := by
  obtain ⟨handled, htold, hhandled⟩ := h.told_of_queue (g := g) hq rfl hcur
  obtain ⟨hp, rfl, hns⟩ := hhandled.of_stillCompiling htold
  have heffects : Notice.effects (seen ++ [.showedCompiling g]) g =
      [.requestSent g, .showedCompiling g] := by
    rw [Notice.effects_append, hns]
    simp [Notice.effects_singleton, Notice.isActive, Notice.generation]
  have htrail := h.toTrail.notice (n := .showedCompiling g) rfl hg
    ⟨true, .ok, by rw [← hg, hns]; simp [Notice.word]⟩
  constructor
  case toTrail => exact { htrail with }
  case underway =>
    intro k hk
    cases hcur.symm.trans hk
    refine ⟨[.started g, .stillCompiling g], htold, ?_⟩
    rw [heffects]
    exact hp ▸ .showed
  case resting =>
    intro hnone
    cases hcur.symm.trans hnone

theorem rendered (h : Course seen d) (hnodup : (d.cycles.map Cycle.generation).Nodup) {g : Nat}
    {result : Except PlaygroundError CompileOutcome} {es : List Event}
    (hq : d.queue = .finished g result :: es) (hcur : d.current = some g)
    (hg : g = d.phases.generation) :
    Course (seen ++ [.rendered g (renderingOf d.state result).status])
      ((d.left es).showing g result) := by
  obtain ⟨handled, htold, hhandled⟩ := h.told_of_queue (g := g) hq rfl hcur
  obtain ⟨hp, showed, hword⟩ := hhandled.of_finished htold (renderingOf d.state result).status
  have hgen := generation_enter (d.left es) .rendered (renderingOf d.state result).status.name
  have hphase : ((d.left es).enter .rendered
      (renderingOf d.state result).status.name).phases.current = .rendered := by
    rw [current_enter, left_phases, hp]
    rfl
  have heffects : Notice.effects (seen ++ [.rendered g (renderingOf d.state result).status]) g =
      Notice.word g showed (renderingOf d.state result).status := by
    rw [Notice.effects_append, ← hword]
    simp [Notice.effects_singleton, Notice.isActive, Notice.generation]
  have htrail := h.toTrail.notice (n := .rendered g (renderingOf d.state result).status) rfl hg
    ⟨showed, (renderingOf d.state result).status, by
      rw [← hg]
      exact hword ▸ List.prefix_rfl⟩
  constructor
  case toTrail =>
    refine { htrail with live := fun c hc => live_change hc, waiting := ?_, seen_le := ?_ }
    · intro c hc hs
      -- The one cycle that may wait is the current one, and that one has finished.
      obtain ⟨b, hb, -, -, hbs⟩ :=
        mem_change_kept (f := Cycle.stopSpinner) (fun _ => ⟨rfl, rfl, rfl⟩) hc
      rw [hs] at hbs
      have hbg := hcur.symm.trans (h.waiting b hb hbs.symm)
      have hbc : d.cycle? g = some b :=
        (cycle?_eq_some_iff hnodup).mpr ⟨hb, (Option.some.inj hbg).symm⟩
      exact absurd hbs.symm (Told.stage_ne_waiting (hbc ▸ htold) (by simp))
    · intro n hn hact
      exact Nat.le_trans (htrail.seen_le n hn hact) (Nat.le_of_eq hgen.symm)
  case underway =>
    intro k hk
    cases hk
  case resting =>
    intro _
    refine ⟨hphase, showed, (renderingOf d.state result).status, ?_⟩
    have hgen' : ((d.left es).showing g result).phases.generation = g := hgen.trans hg.symm
    rw [hgen']
    exact heffects

/-- The spinner of the current cycle is heard in the phase `compiling` only. -/
theorem phase_of_stillCompiling (h : Course seen d) {g : Nat} {es : List Event}
    (hq : d.queue = .stillCompiling g :: es) (hcur : d.current = some g) :
    d.phases.current = .compiling := by
  obtain ⟨handled, htold, hhandled⟩ := h.told_of_queue (g := g) hq rfl hcur
  exact (hhandled.of_stillCompiling htold).1

/-! ## Runs -/

theorem act {log : List Exchange} (h : Course seen d) (ht : Tracks log d) (a : Action) :
    Course (seen ++ (d.notice? a).toList) (d.act a) := by
  have hsteps := steps_act d a
  generalize d.notice? a = n at hsteps
  generalize d.act a = d' at hsteps
  cases hsteps with
  | edit e => simpa using h.edit ht.event_le e
  | persist on => simpa using ({ h with } : Course seen { d with persists := on })
  | wait ms => simpa using ({ h with } : Course seen { d with now := d.now + ms })
  | idle _ _ => simpa using h
  | move hc hm => simpa using h.move ht.nodup hc hm
  | stale hq hcur => exact h.stale hq hcur
  | early hq hcur hphase => exact absurd (h.phase_of_stillCompiling hq hcur) hphase
  | sent hq hcur => exact h.sent hq hcur (ht.current_eq _ hcur) _
  | showed hq hcur _ => exact h.showed hq hcur (ht.current_eq _ hcur)
  | rendered hq hcur => exact h.rendered ht.nodup hq hcur (ht.current_eq _ hcur)

theorem run {log : List Exchange} (h : Course seen d) (ht : Tracks log d) (as : List Action) :
    Course (seen ++ d.notices as) (d.run as) := by
  induction as generalizing log seen d with
  | nil => simpa [Desk.run, notices] using h
  | cons a as ih =>
    have hrun := ih (h.act ht a) (ht.act a)
    rw [List.append_assoc] at hrun
    exact hrun

end Course

/-- Every run tracks the state. -/
theorem tracks_run (s : Store) (as : List Action) :
    Tracks ((Desk.start s).exchanges as) ((Desk.start s).run as) :=
  (Tracks.start s).run as

/-- Every run keeps to the course of its cycles. -/
theorem course_run (s : Store) (as : List Action) :
    Course ((Desk.start s).notices as) ((Desk.start s).run as) :=
  (Course.start s).run (Tracks.start s) as

/-- A run leads to the desk. -/
def Reached (d : Desk) : Prop := ∃ s as, d = (Desk.start s).run as

namespace Reached

theorem start (s : Store) : (Desk.start s).Reached := ⟨s, [], rfl⟩

variable {d : Desk}

theorem run (h : d.Reached) (as : List Action) : (d.run as).Reached := by
  obtain ⟨s, bs, rfl⟩ := h
  exact ⟨s, bs ++ as, (List.foldl_append ..).symm⟩

theorem act (h : d.Reached) (a : Action) : (d.act a).Reached := h.run [a]

theorem tracks (h : d.Reached) : ∃ log, Tracks log d := by
  obtain ⟨s, as, rfl⟩ := h
  exact ⟨_, tracks_run s as⟩

theorem course (h : d.Reached) : ∃ seen, Course seen d := by
  obtain ⟨s, as, rfl⟩ := h
  exact ⟨_, course_run s as⟩

theorem nodup (h : d.Reached) : (d.cycles.map Cycle.generation).Nodup := by
  obtain ⟨log, ht⟩ := h.tracks
  exact ht.nodup

end Reached

end Desk

end Playground
