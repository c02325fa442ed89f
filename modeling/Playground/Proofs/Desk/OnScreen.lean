import Playground.Proofs.Desk.Exchange

/-!
# What is on the screen

Whenever the phase is `rendered`, the screen shows the current state: the rendering
is the one of the answers that the services have given to the questions of this very
state.

A cycle works on a snapshot, and its outcome is shown beside the state as it is then.
`Tracks` is the invariant that brings the two together.  As long as there is a current
cycle, its snapshot is the state, and an outcome of it in the queue is one of the
state's own questions.  An edit opens a generation that no cycle, no event and no
exchange has had before, so nothing that comes late can be taken for its own.

A step of a cycle tells some events, moves the cycle on and may complete an exchange.
`Tracks.move` is the one lemma for all of these.
-/

namespace Playground.Desk

/-- The cycles, events and exchanges of the desk `d` so far fit together. -/
structure Recorded (log : List Exchange) (d : Desk) : Prop where
  /-- No two cycles have one generation. -/
  nodup : (d.cycles.map Cycle.generation).Nodup
  /-- No cycle is newer than the newest generation. -/
  cycle_le : ∀ c ∈ d.cycles, c.generation ≤ d.phases.generation
  /-- No event is newer than the newest generation. -/
  event_le : ∀ e ∈ d.queue, e.generation ≤ d.phases.generation
  /-- No exchange is newer than the newest generation. -/
  exchange_le : ∀ x ∈ log, x.slot.1 ≤ d.phases.generation
  /-- Each service has answered a cycle once at most. -/
  slots : (log.map Exchange.slot).Nodup
  /-- A cycle that waits, or waits for the compile service, has had no answer. -/
  unanswered : ∀ c ∈ d.cycles, c.stage = .waiting ∨ c.stage = .compiling →
    ∀ x ∈ log, x.slot.1 ≠ c.generation
  /-- A cycle that waits for the parse service has had the other answer only. -/
  parsing : ∀ c ∈ d.cycles, ∀ o, c.stage = .parsing o →
    .compile c.generation c.snapshot.compileRequest (.ok o) ∈ log ∧
      (c.generation, .parse) ∉ log.map Exchange.slot

/-- The desk `d` and the exchanges so far agree about the state. -/
structure Tracks (log : List Exchange) (d : Desk) : Prop extends Recorded log d where
  /-- The current cycle is the newest one. -/
  current_eq : ∀ g, d.current = some g → g = d.phases.generation
  /-- A current cycle has not been rendered. -/
  phase_ne : d.current.isSome → d.phases.current ≠ .rendered
  /-- The current cycle works on the state. -/
  snapshot_eq : ∀ c ∈ d.cycles, d.current = some c.generation → c.snapshot = d.state
  /-- An outcome of the current cycle is one of the state. -/
  outcome : ∀ g result, d.current = some g → .finished g result ∈ d.queue →
    Shows log g d.state (renderingOf d.state result)
  /-- What is rendered is on the screen, and was the last thing to be shown. -/
  shown : d.phases.current = .rendered → ∃ r, d.rendering = some r ∧ d.lastRender? = some r ∧
    Shows log d.phases.generation d.state r

/-! ## A new generation -/

namespace Recorded

/-- Cycles that have asked the same as before go with the same exchanges. -/
theorem kept {log : List Exchange} {d : Desk} {cs : List Cycle} (h : Recorded log d)
    (hnodup : (cs.map Cycle.generation).Nodup)
    (hkept : ∀ c ∈ cs, ∃ b ∈ d.cycles,
      c.generation = b.generation ∧ c.snapshot = b.snapshot ∧ c.stage = b.stage) :
    Recorded log { d with cycles := cs } where
  nodup := hnodup
  cycle_le := by
    intro c hc
    obtain ⟨b, hb, hg, -, -⟩ := hkept c hc
    exact hg ▸ h.cycle_le b hb
  event_le := h.event_le
  exchange_le := h.exchange_le
  slots := h.slots
  unanswered := by
    intro c hc hstage x hx
    obtain ⟨b, hb, hg, -, hs⟩ := hkept c hc
    exact hg ▸ h.unanswered b hb (hs ▸ hstage) x hx
  parsing := by
    intro c hc o ho
    obtain ⟨b, hb, hg, hsnap, hs⟩ := hkept c hc
    rw [hg, hsnap]
    exact h.parsing b hb o (hs ▸ ho)

/-- A generation that is opened belongs to its own cycle alone. -/
theorem schedule {log : List Exchange} {d : Desk} (h : Recorded log d) (reason : String) :
    Tracks log (d.schedule reason) := by
  have hgen := generation_schedule d reason
  have hphase := current_schedule d reason
  have hold : Recorded log { d with cycles := d.superseded } :=
    h.kept (nodup_superseded h.nodup) fun _ hc => mem_superseded hc
  rw [schedule_eq] at hgen hphase ⊢
  constructor
  case toRecorded =>
    constructor
    case nodup =>
      rw [List.map_cons, List.nodup_cons]
      refine ⟨?_, hold.nodup⟩
      intro hmem
      obtain ⟨c, hc, hcg⟩ := List.mem_map.mp hmem
      have hle : c.generation ≤ d.phases.generation := hold.cycle_le c hc
      have heq : c.generation = d.phases.generation + 1 := hcg
      omega
    case cycle_le =>
      intro c hc
      rw [hgen]
      cases List.mem_cons.mp hc with
      | inl hnew => rw [hnew]; exact Nat.le_refl _
      | inr hc => exact Nat.le_succ_of_le (hold.cycle_le c hc)
    case event_le =>
      intro x hx
      rw [hgen]
      exact Nat.le_succ_of_le (h.event_le x hx)
    case exchange_le =>
      intro x hx
      rw [hgen]
      exact Nat.le_succ_of_le (h.exchange_le x hx)
    case slots => exact h.slots
    case unanswered =>
      intro c hc hstage x hx
      cases List.mem_cons.mp hc with
      | inl hnew =>
        have hle := h.exchange_le x hx
        have heq : c.generation = d.phases.generation + 1 := by rw [hnew]; rfl
        omega
      | inr hc => exact hold.unanswered c hc hstage x hx
    case parsing =>
      intro c hc o ho
      cases List.mem_cons.mp hc with
      | inl hnew => rw [hnew] at ho; cases ho
      | inr hc => exact hold.parsing c hc o ho
  case current_eq =>
    intro g hg
    rw [hgen]
    exact (Option.some.inj hg).symm
  case phase_ne =>
    intro _
    rw [hphase]
    exact Phase.noConfusion
  case snapshot_eq =>
    intro c hc hcur
    cases List.mem_cons.mp hc with
    | inl hnew => rw [hnew]; rfl
    | inr hc =>
      have hle : c.generation ≤ d.phases.generation := hold.cycle_le c hc
      have heq : d.phases.generation + 1 = c.generation := Option.some.inj hcur
      omega
  case outcome =>
    intro g result hg hmem
    have hle : g ≤ d.phases.generation := h.event_le _ hmem
    have heq : d.phases.generation + 1 = g := Option.some.inj hg
    omega
  case shown =>
    intro hr
    rw [hphase] at hr
    cases hr

theorem blank (s : Store) : Recorded [] (Desk.blank s) := by
  constructor <;> simp [Desk.blank]

end Recorded

namespace Tracks

theorem start (s : Store) : Tracks [] (Desk.start s) :=
  Recorded.schedule (d := (Desk.blank s).tell (.sync .initial)) { Recorded.blank s with } _

theorem edit {log : List Exchange} {d : Desk} (h : Tracks log d) (e : Edit) :
    Tracks log (d.edit e) := by
  rw [edit_eq_schedule]
  exact Recorded.schedule (d := d.changed e) { h.toRecorded with } _

/-! ## Steps of a cycle -/

/-- A cycle tells events, moves on and may complete an exchange. -/
theorem move {log : List Exchange} {d : Desk} (h : Tracks log d) {g : Nat} {c : Cycle}
    (f : Cycle → Cycle) (es : List Event) (new : List Exchange) (hc : d.cycle? g = some c)
    (hgen : ∀ b, (f b).generation = b.generation) (hsnap : ∀ b, (f b).snapshot = b.snapshot)
    (hes : ∀ e ∈ es, e.generation = g) (hnew : ∀ x ∈ new, x.slot.1 = g)
    (hslots : ((log ++ new).map Exchange.slot).Nodup)
    (hun : (f c).stage = .waiting ∨ (f c).stage = .compiling →
      new = [] ∧ (c.stage = .waiting ∨ c.stage = .compiling))
    (hparsing : ∀ o, (f c).stage = .parsing o →
      .compile g c.snapshot.compileRequest (.ok o) ∈ log ++ new ∧
        (g, .parse) ∉ (log ++ new).map Exchange.slot)
    (hout : ∀ result, .finished g result ∈ es → c.snapshot = d.state →
      Shows (log ++ new) g d.state (renderingOf d.state result)) :
    Tracks (log ++ new)
      { d with queue := d.queue ++ es, cycles := (d.change g f).cycles } := by
  obtain ⟨hmem, hcg⟩ := cycle?_eq_some hc
  have hsub : log ⊆ log ++ new := List.subset_append_left log new
  -- A cycle that is left is either `c`, moved on, or one of another generation.
  have hleft : ∀ b ∈ (d.change g f).cycles, b = f c ∨ b ∈ d.cycles ∧ b.generation ≠ g := by
    intro b hb
    obtain ⟨a, ha, rfl⟩ := mem_change hb
    split
    · next hag =>
      rw [eq_of_generation_eq h.nodup ha hmem (hag.trans hcg.symm)]
      exact Or.inl rfl
    · next hag => exact Or.inr ⟨ha, hag⟩
  have hfc : (f c).generation = g := (hgen c).trans hcg
  have hle : g ≤ d.phases.generation := hcg ▸ h.cycle_le c hmem
  constructor
  case toRecorded =>
    constructor
    case nodup => exact nodup_change hgen h.nodup
    case cycle_le =>
      intro b hb
      cases hleft b hb with
      | inl hfb => rw [hfb, hfc]; exact hle
      | inr hb => exact h.cycle_le b hb.1
    case event_le =>
      intro e he
      cases List.mem_append.mp he with
      | inl he => exact h.event_le e he
      | inr he => rw [hes e he]; exact hle
    case exchange_le =>
      intro x hx
      cases List.mem_append.mp hx with
      | inl hx => exact h.exchange_le x hx
      | inr hx => rw [hnew x hx]; exact hle
    case slots => exact hslots
    case unanswered =>
      intro b hb hstage x hx
      cases hleft b hb with
      | inl hfb =>
        rw [hfb] at hstage ⊢
        obtain ⟨hnil, hst⟩ := hun hstage
        rw [hnil, List.append_nil] at hx
        rw [hgen]
        exact h.unanswered c hmem hst x hx
      | inr hb =>
        cases List.mem_append.mp hx with
        | inl hx => exact h.unanswered b hb.1 hstage x hx
        | inr hx => rw [hnew x hx]; exact Ne.symm hb.2
    case parsing =>
      intro b hb o ho
      cases hleft b hb with
      | inl hfb =>
        rw [hfb] at ho ⊢
        rw [hfc, hsnap]
        exact hparsing o ho
      | inr hb =>
        obtain ⟨hcomp, hpar⟩ := h.parsing b hb.1 o ho
        refine ⟨hsub hcomp, ?_⟩
        rw [List.map_append, List.mem_append]
        intro hor
        cases hor with
        | inl hin => exact hpar hin
        | inr hin =>
          obtain ⟨x, hx, hxs⟩ := List.mem_map.mp hin
          have hxg := hnew x hx
          rw [hxs] at hxg
          exact hb.2 hxg
  case current_eq => exact h.current_eq
  case phase_ne => exact h.phase_ne
  case snapshot_eq =>
    intro b hb hcur
    cases hleft b hb with
    | inl hfb =>
      rw [hfb] at hcur ⊢
      rw [hsnap]
      exact h.snapshot_eq c hmem (hgen c ▸ hcur)
    | inr hb => exact h.snapshot_eq b hb.1 hcur
  case outcome =>
    intro k result hk hin
    cases List.mem_append.mp hin with
    | inl hold => exact (h.outcome k result hk hold).mono hsub
    | inr htold =>
      have hkg : k = g := hes _ htold
      subst hkg
      exact hout result htold (h.snapshot_eq c hmem (hcg ▸ hk))
  case shown =>
    intro hr
    obtain ⟨r, h1, h2, h3⟩ := h.shown hr
    exact ⟨r, h1, h2, h3.mono hsub⟩

/-- A move without an answer. -/
theorem advance {log : List Exchange} {d : Desk} (h : Tracks log d) {g : Nat} {c : Cycle}
    {f : Cycle → Cycle} {e : Event} (hc : d.cycle? g = some c)
    (hgen : ∀ b, (f b).generation = b.generation) (hsnap : ∀ b, (f b).snapshot = b.snapshot)
    (he : e.generation = g) (hfin : ∀ result, e ≠ .finished g result)
    (hun : (f c).stage = .waiting ∨ (f c).stage = .compiling →
      c.stage = .waiting ∨ c.stage = .compiling)
    (hparsing : ∀ o, (f c).stage = .parsing o → c.stage = .parsing o) :
    Tracks log { d with queue := d.queue ++ [e], cycles := (d.change g f).cycles } := by
  obtain ⟨hmem, hcg⟩ := cycle?_eq_some hc
  have hmove := h.move f [e] [] hc hgen hsnap
  rw [List.append_nil] at hmove
  apply hmove
  case hes =>
    intro x hx
    rw [List.mem_singleton.mp hx]
    exact he
  case hnew =>
    intro x hx
    cases hx
  case hslots => exact h.slots
  case hun => exact fun hst => ⟨rfl, hun hst⟩
  case hparsing => exact fun o ho => hcg ▸ h.parsing c hmem o (hparsing o ho)
  case hout =>
    intro result hin _
    exact absurd (List.mem_singleton.mp hin).symm (hfin result)

theorem debounceElapsed {log : List Exchange} {d : Desk} (h : Tracks log d) (g : Nat) :
    Tracks log (d.debounceElapsed g) := by
  unfold Desk.debounceElapsed
  cases hc : d.cycle? g with
  | none => exact h
  | some c =>
    simp only
    split
    · next hstage =>
      exact h.advance hc (fun _ => rfl) (fun _ => rfl) rfl (fun _ he => by cases he)
        (fun _ => Or.inl hstage) (fun _ ho => by cases ho)
    · exact h

theorem spinnerElapsed {log : List Exchange} {d : Desk} (h : Tracks log d) (g : Nat) :
    Tracks log (d.spinnerElapsed g) := by
  unfold Desk.spinnerElapsed
  cases hc : d.cycle? g with
  | none => exact h
  | some c =>
    simp only
    split
    · exact h
    · exact h.advance hc (fun _ => rfl) (fun _ => rfl) rfl (fun _ he => by cases he)
        (fun hst => hst) (fun _ ho => ho)

theorem spinnerStopped {log : List Exchange} {d : Desk} (h : Tracks log d) (g : Nat) :
    Tracks log (d.spinnerStopped g) := by
  unfold Desk.spinnerStopped
  cases hc : d.cycle? g with
  | none => exact h
  | some c =>
    obtain ⟨hmem, hcg⟩ := cycle?_eq_some hc
    simp only
    split
    · have hmove := h.move Cycle.endSpinner [] [] hc (fun _ => rfl) (fun _ => rfl)
      rw [List.append_nil, List.append_nil] at hmove
      exact hmove (by simp) (by simp) h.slots (fun hst => ⟨rfl, hst⟩)
        (fun o ho => hcg ▸ h.parsing c hmem o ho) (by simp)
    · exact h

/-- The slots stay distinct when a service answers a cycle for the first time. -/
theorem nodup_slots {log : List Exchange} {x : Exchange} (h : (log.map Exchange.slot).Nodup)
    (hx : x.slot ∉ log.map Exchange.slot) : ((log ++ [x]).map Exchange.slot).Nodup := by
  rw [List.map_append, List.nodup_append]
  refine ⟨h, by simp, ?_⟩
  intro a ha b hb
  rw [List.map_singleton, List.mem_singleton] at hb
  rw [hb]
  exact fun hax => hx (hax ▸ ha)

theorem compiled {log : List Exchange} {d : Desk} (h : Tracks log d) (g : Nat)
    (answer : Except PlaygroundError CompileOutput) :
    Tracks (log ++ (d.exchange? (.compiled g answer)).toList) (d.compiled g answer) := by
  cases hc : d.cycle? g with
  | none => simpa [Desk.compiled, exchange?, hc] using h
  | some c =>
    by_cases hstage : c.stage = .compiling
    case neg => simpa [Desk.compiled, exchange?, hc, hstage] using h
    case pos =>
      obtain ⟨hmem, hcg⟩ := cycle?_eq_some hc
      have hfresh : ∀ k, (g, k) ∉ log.map Exchange.slot := by
        intro k hk
        obtain ⟨x, hx, hxs⟩ := List.mem_map.mp hk
        apply h.unanswered c hmem (Or.inr hstage) x hx
        rw [hxs, hcg]
      simp only [Desk.compiled, exchange?, hc, hstage, if_true, Option.toList_some]
      cases answer with
      | error e =>
        apply h.move Cycle.finish [.finished g (.error e)] _ hc (fun _ => rfl) (fun _ => rfl)
        case hes => simp [Event.generation]
        case hnew => simp [Exchange.slot]
        case hslots => exact nodup_slots h.slots (hfresh _)
        case hun => intro hst; simp [Cycle.finish] at hst
        case hparsing => intro o ho; cases ho
        case hout =>
          intro result hin hs
          cases List.mem_singleton.mp hin
          rw [← hs]
          exact .compileError (.of_mem (List.mem_append_right _ (List.mem_singleton_self _)))
      | ok o =>
        have hmove := h.move (fun c => { c with stage := .parsing o }) []
          [.compile g c.snapshot.compileRequest (.ok o)] hc (fun _ => rfl) (fun _ => rfl)
        rw [List.append_nil] at hmove
        apply hmove
        case hes => simp
        case hnew => simp [Exchange.slot]
        case hslots => exact nodup_slots h.slots (hfresh _)
        case hun => intro hst; simp at hst
        case hparsing =>
          intro o' ho
          cases ho
          refine ⟨List.mem_append_right _ (List.mem_singleton_self _), ?_⟩
          rw [List.map_append, List.mem_append]
          intro hor
          cases hor with
          | inl hin => exact hfresh _ hin
          | inr hin => simp [Exchange.slot] at hin
        case hout => intro result hin; cases hin

theorem parsed {log : List Exchange} {d : Desk} (h : Tracks log d) (g : Nat)
    (answer : Except PlaygroundError (List Entry)) :
    Tracks (log ++ (d.exchange? (.parsed g answer)).toList) (d.parsed g answer) := by
  cases hc : d.cycle? g with
  | none => simpa [Desk.parsed, exchange?, hc] using h
  | some c =>
    obtain ⟨hmem, hcg⟩ := cycle?_eq_some hc
    cases hstage : c.stage with
    | waiting => simpa [Desk.parsed, exchange?, hc, hstage] using h
    | compiling => simpa [Desk.parsed, exchange?, hc, hstage] using h
    | finished => simpa [Desk.parsed, exchange?, hc, hstage] using h
    | parsing o =>
      obtain ⟨hcomp, hpar⟩ := h.parsing c hmem o hstage
      rw [hcg] at hcomp hpar
      simp only [Desk.parsed, exchange?, hc, hstage, Option.toList_some]
      apply h.move Cycle.finish
        [.finished g (answer.map fun entries => ⟨o.succeeded, entries⟩)] _ hc
        (fun _ => rfl) (fun _ => rfl)
      case hes => simp [Event.generation]
      case hnew => simp [Exchange.slot]
      case hslots => exact nodup_slots h.slots hpar
      case hun => intro hst; simp [Cycle.finish] at hst
      case hparsing => intro o ho; cases ho
      case hout =>
        intro result hin hs
        cases List.mem_singleton.mp hin
        rw [hs] at hcomp ⊢
        have hparse := List.mem_append_right log
          (List.mem_singleton_self (Exchange.parse g (d.state.parseRequest o.stderr) answer))
        cases answer with
        | error e => exact .parseError (.of_mem (List.mem_append_left _ hcomp)) hparse
        | ok es =>
          have hshows := Shows.entries (.of_mem (List.mem_append_left _ hcomp)) hparse
          rwa [← Rendering.ofEntries_eq] at hshows

/-! ## Events -/

/-- Taking the oldest event out of the queue. -/
theorem drop {log : List Exchange} {d : Desk} (h : Tracks log d) {e : Event} {es : List Event}
    (hq : d.queue = e :: es) : Tracks log { d with queue := es } := by
  have hsub : ∀ x ∈ es, x ∈ d.queue := fun x hx => hq ▸ List.mem_cons_of_mem e hx
  exact { h with
    event_le := fun x hx => h.event_le x (hsub x hx)
    outcome := fun g result hg hin => h.outcome g result hg (hsub _ hin) }

/-- Entering a phase other than `rendered` while there is a current cycle. -/
theorem enter {log : List Exchange} {d : Desk} (h : Tracks log d) {target : Phase}
    (ht : target ≠ .rendered) (hcur : d.current.isSome) (reason : String) :
    Tracks log (d.enter target reason) := by
  have hgen := generation_enter d target reason
  have hphase : (d.enter target reason).phases.current ≠ .rendered := by
    rw [current_enter]
    split
    · exact ht
    · exact h.phase_ne hcur
  rw [enter_eq]
  exact {
    nodup := h.nodup
    cycle_le := fun c hc => hgen ▸ h.cycle_le c hc
    event_le := fun e he => hgen ▸ h.event_le e he
    exchange_le := fun x hx => hgen ▸ h.exchange_le x hx
    slots := h.slots
    unanswered := h.unanswered
    parsing := h.parsing
    current_eq := fun g hg => hgen ▸ h.current_eq g hg
    phase_ne := fun _ => hphase
    snapshot_eq := h.snapshot_eq
    outcome := h.outcome
    shown := fun hr => absurd hr hphase }

/-- The indicator is shown over a rendering only while a cycle is current. -/
theorem tell_compiling {log : List Exchange} {d : Desk} (h : Tracks log d)
    (hphase : d.phases.current = .compiling) : Tracks log (d.tell .compiling) :=
  { h with
    shown := fun hr => by
      have hne : d.phases.current = .rendered := hr
      rw [hphase] at hne
      cases hne }

theorem lastRender?_tell (d : Desk) (r : Rendering) : (d.tell (.render r)).lastRender? = some r := by
  simp [lastRender?, tell]

/-- The outcome of the current cycle is shown, and no cycle is current any more. -/
theorem finished {log : List Exchange} {d : Desk} (h : Tracks log d) {g : Nat}
    {result : Except PlaygroundError CompileOutcome} (hcur : d.current = some g)
    (hshows : Shows log g d.state (renderingOf d.state result)) :
    Tracks log (d.handle (.finished g result)).2 := by
  have hgen := generation_enter { d.change g Cycle.stopSpinner with current := none } .rendered
    (renderingOf d.state result).status.name
  have hgd : ({ d.change g Cycle.stopSpinner with current := none } : Desk).phases.generation =
    d.phases.generation := rfl
  rw [hgd] at hgen
  simp only [Desk.handle, Event.generation, hcur, ne_eq, not_true_eq_false, if_false]
  rw [enter_eq]
  constructor
  case toRecorded =>
    have hleft : Recorded log { d with cycles := (d.change g Cycle.stopSpinner).cycles } :=
      h.toRecorded.kept (nodup_change (fun _ => rfl) h.nodup) fun _ hb =>
        mem_change_kept (f := Cycle.stopSpinner) (fun _ => ⟨rfl, rfl, rfl⟩) hb
    constructor
    case nodup => exact hleft.nodup
    case cycle_le => exact fun b hb => hgen ▸ hleft.cycle_le b hb
    case event_le => exact fun e he => hgen ▸ h.event_le e he
    case exchange_le => exact fun x hx => hgen ▸ h.exchange_le x hx
    case slots => exact h.slots
    case unanswered => exact hleft.unanswered
    case parsing => exact hleft.parsing
  case current_eq => intro k hk; cases hk
  case phase_ne => intro hk; cases hk
  case snapshot_eq => intro b _ hk; cases hk
  case outcome => intro k r hk; cases hk
  case shown =>
    intro _
    refine ⟨renderingOf d.state result, rfl, lastRender?_tell _ _, ?_⟩
    have hg := h.current_eq g hcur
    have hto : Shows log d.phases.generation d.state (renderingOf d.state result) := hg ▸ hshows
    exact hgen ▸ hto

theorem next {log : List Exchange} {d : Desk} (h : Tracks log d) : Tracks log (d.act .next) := by
  simp only [act, next?]
  cases hq : d.queue with
  | nil => exact h
  | cons e es =>
    simp only [Option.map_some, Option.getD_some]
    have hd := h.drop hq
    by_cases hcur : d.current = some e.generation
    case neg =>
      have hstale : ({ d with queue := es } : Desk).handle e =
          (.stale e.generation, { d with queue := es }) := if_pos hcur
      rw [hstale]
      exact hd
    case pos =>
      have hsome : d.current.isSome := by rw [hcur]; rfl
      cases e with
      | started g =>
        have hstarted : (({ d with queue := es } : Desk).handle (.started g)).2 =
            ({ d with queue := es } : Desk).enter .compiling "debounce elapsed" := by
          simp [Desk.handle, hcur]
        rw [hstarted]
        exact hd.enter (by decide) hsome _
      | stillCompiling g =>
        by_cases hphase : d.phases.current = .compiling
        case pos =>
          have htold : (({ d with queue := es } : Desk).handle (.stillCompiling g)).2 =
              ({ d with queue := es } : Desk).tell .compiling := by
            simp [Desk.handle, hcur, hphase]
          rw [htold]
          exact hd.tell_compiling hphase
        case neg =>
          have hkept : (({ d with queue := es } : Desk).handle (.stillCompiling g)).2 =
              { d with queue := es } := by
            simp [Desk.handle, hcur, hphase]
          rw [hkept]
          exact hd
      | finished g result =>
        have hin : Event.finished g result ∈ d.queue := hq ▸ List.mem_cons_self ..
        exact hd.finished hcur (h.outcome g result hcur hin)

/-! ## Runs -/

/-- Every step keeps the desk and the exchanges together. -/
theorem act {log : List Exchange} {d : Desk} (h : Tracks log d) (a : Action) :
    Tracks (log ++ (d.exchange? a).toList) (d.act a) := by
  cases a with
  | compiled g answer => exact h.compiled g answer
  | parsed g answer => exact h.parsed g answer
  | edit e => simpa [exchange?, Desk.act] using h.edit e
  | persist on => simpa [exchange?, Desk.act] using ({ h with } : Tracks log { d with persists := on })
  | debounceElapsed g => simpa [exchange?, Desk.act] using h.debounceElapsed g
  | spinnerElapsed g => simpa [exchange?, Desk.act] using h.spinnerElapsed g
  | spinnerStopped g => simpa [exchange?, Desk.act] using h.spinnerStopped g
  | next => simpa [exchange?] using h.next
  | wait ms => simpa [exchange?, Desk.act] using ({ h with } : Tracks log { d with now := d.now + ms })

theorem run {log : List Exchange} {d : Desk} (h : Tracks log d) (as : List Action) :
    Tracks (log ++ d.exchanges as) (d.run as) := by
  induction as generalizing log d with
  | nil => simpa [Desk.run, exchanges] using h
  | cons a as ih =>
    have hrun := ih (h.act a)
    rw [List.append_assoc] at hrun
    exact hrun

end Tracks

/-- Whenever the phase is `rendered`, the rendering on the screen was the last thing to be
shown, and it is the one of the current state by the answers that its own cycle has
had, one of each service.  So services whose answers depend on the question only show the
same in any two runs that end in one state. -/
theorem rendered_shows_state (s : Store) (as : List Action)
    (hr : ((Desk.start s).run as).phases.current = .rendered) :
    (∃ r, ((Desk.start s).run as).rendering = some r ∧
      ((Desk.start s).run as).lastRender? = some r ∧
      Shows ((Desk.start s).exchanges as) ((Desk.start s).run as).phases.generation
        ((Desk.start s).run as).state r) ∧
    (((Desk.start s).exchanges as).map Exchange.slot).Nodup ∧
    ∀ compile parse, (∀ x ∈ (Desk.start s).exchanges as, x.Follows compile parse) →
      ((Desk.start s).run as).rendering =
        some (((Desk.start s).run as).state.rendering compile parse) ∧
      ∀ t bs, ((Desk.start t).run bs).phases.current = .rendered →
        (∀ x ∈ (Desk.start t).exchanges bs, x.Follows compile parse) →
        ((Desk.start t).run bs).state = ((Desk.start s).run as).state →
        ((Desk.start t).run bs).rendering = ((Desk.start s).run as).rendering := by
  have h := (Tracks.start s).run as
  rw [List.nil_append] at h
  obtain ⟨r, hrend, hlast, hshows⟩ := h.shown hr
  refine ⟨⟨r, hrend, hlast, hshows⟩, h.slots, ?_⟩
  intro compile parse hfollows
  have heq := hshows.eq_rendering hfollows
  refine ⟨by rw [hrend, heq], ?_⟩
  intro t bs ht hfollows' hstate
  have h' := (Tracks.start t).run bs
  rw [List.nil_append] at h'
  obtain ⟨r', hrend', -, hshows'⟩ := h'.shown ht
  rw [hrend', hrend, heq, hshows'.eq_rendering hfollows', hstate]

/-- The first cycle is answered after an edit has taken its place, and the second one shows
an error of the edited code. -/
def supersededRun : List Action :=
  [.debounceElapsed 1, .next, .edit (.code "x"), .compiled 1 (.ok ⟨1, ["<source>:1:1: error: x"]⟩),
    .parsed 1 (.ok [.compiler "<source>:1:1: error: x"]), .next, .debounceElapsed 2, .next,
    .compiled 2 (.ok ⟨1, ["<source>:1:1: error: x"]⟩), .spinnerElapsed 2,
    .parsed 2 (.ok [.compiler "<source>:1:1: error: x"]), .next, .next]

/-- The same code, edited before the first request. -/
def promptRun : List Action :=
  [.edit (.code "y"), .edit (.code "x"), .wait 500, .debounceElapsed 3, .next,
    .compiled 3 (.ok ⟨1, ["<source>:1:1: error: x"]⟩),
    .parsed 3 (.ok [.compiler "<source>:1:1: error: x"]), .next]

theorem rendered_supersededRun :
    (∃ r, ((Desk.start default).run supersededRun).rendering = some r ∧
      ((Desk.start default).run supersededRun).lastRender? = some r ∧
      Shows ((Desk.start default).exchanges supersededRun)
        ((Desk.start default).run supersededRun).phases.generation
        ((Desk.start default).run supersededRun).state r) ∧
    ((Desk.start default).run promptRun).rendering =
      ((Desk.start default).run supersededRun).rendering := by
  have h := rendered_shows_state default supersededRun rfl
  have hlate : ∀ x ∈ (Desk.start default).exchanges supersededRun,
      x.Follows (fun _ => .ok ⟨1, ["<source>:1:1: error: x"]⟩)
        (fun _ => .ok [.compiler "<source>:1:1: error: x"]) :=
    List.forall_iff_forall_mem.mp ⟨rfl, rfl, rfl, rfl⟩
  have hprompt : ∀ x ∈ (Desk.start default).exchanges promptRun,
      x.Follows (fun _ => .ok ⟨1, ["<source>:1:1: error: x"]⟩)
        (fun _ => .ok [.compiler "<source>:1:1: error: x"]) :=
    List.forall_iff_forall_mem.mp ⟨rfl, rfl⟩
  have hstate : ((Desk.start default).run promptRun).state =
      ((Desk.start default).run supersededRun).state := by decide
  exact ⟨h.1, (h.2.2 _ _ hlate).2 default promptRun rfl hprompt hstate⟩

end Playground.Desk
