import Mathlib.Data.List.Chain
import Playground.Proofs.Desk.Course

/-!
# The history of the phases

The log of phases keeps the most recent transitions.  `history` reads off all of them
from a run.  It is a path of the table, from `idle` on:

    idle → pendingCompile
    pendingCompile → pendingCompile, compiling
    compiling → pendingCompile, rendered
    rendered → pendingCompile

`asks?` is the transition that a step asks the log for.  The log never refuses one,
because the course of the current cycle tells its events in the order of the phases.
-/

namespace Playground

/-! ## Paths -/

namespace Phase

/-- The place of a phase in a cycle. -/
def rank : Phase → Nat
  | idle => 0
  | pendingCompile => 1
  | compiling => 2
  | rendered => 3

theorem rank_lt_of_allows {p q : Phase} (h : p.allows q) (hq : q ≠ .pendingCompile) :
    p.rank < q.rank := by
  cases p <;> cases q <;> simp_all [allows, rank]

end Phase

/-- The generation after a transition.  A new one begins with the phase `pendingCompile`. -/
def generationAfter (n : Nat) (q : Phase) : Nat := if q = .pendingCompile then n + 1 else n

/-- The transitions lead from the start to a phase of a generation, along the table. -/
inductive Path : List Transition → Phase → Nat → Prop where
  | start : Path [] .idle 0
  | goes {h : List Transition} {p q : Phase} {n : Nat} (ms : Nat) (reason : Option String) :
      Path h p n → p.allows q →
      Path (h ++ [⟨p, q, generationAfter n q, ms, reason⟩]) q (generationAfter n q)

namespace Path

variable {h : List Transition} {p : Phase} {n : Nat}

theorem source_of_head? (hp : Path h p n) : ∀ t ∈ h.head?, t.source = .idle := by
  induction hp with
  | start => simp
  | @goes h p q n ms reason hp _ ih =>
    cases h with
    | cons t ts => simpa using ih
    | nil =>
      generalize hnil : ([] : List Transition) = h at hp
      cases hp with
      | start => simp
      | goes => simp at hnil

theorem target_of_getLast? (hp : Path h p n) : ∀ t ∈ h.getLast?, t.target = p := by
  cases hp with
  | start => simp
  | goes => simp

theorem mem_table (hp : Path h p n) : ∀ t ∈ h, (t.source, t.target) ∈ Phase.table := by
  induction hp with
  | start => simp
  | @goes h p q n ms reason _ hallows ih =>
    intro t ht
    rcases List.mem_append.mp ht with ht | ht
    · exact ih t ht
    · rw [List.mem_singleton.mp ht]
      exact (Phase.allows_iff_mem_table p q).mp hallows

/-- Each transition begins where the one before it ends. -/
theorem isChain (hp : Path h p n) : h.IsChain fun s t => s.target = t.source := by
  induction hp with
  | start => exact .nil
  | goes ms reason hp _ ih =>
    refine List.isChain_append.mpr ⟨ih, by simp, ?_⟩
    intro s hs t ht
    rw [hp.target_of_getLast? s hs]
    simp only [List.head?_cons, Option.mem_def, Option.some.injEq] at ht
    rw [← ht]

/-- Within a generation the phases go on in their order. -/
theorem rank_le (hp : Path h p n) : ∀ t ∈ h, t.generation < n ∨
    t.generation = n ∧ t.target.rank ≤ p.rank := by
  induction hp with
  | start => simp
  | @goes h p q n ms reason _ hallows ih =>
    intro t ht
    rcases List.mem_append.mp ht with ht | ht
    case inr => exact .inr (by simp [List.mem_singleton.mp ht])
    case inl =>
      have hold := ih t ht
      by_cases hq : q = .pendingCompile
      case pos =>
        simp only [generationAfter, hq, if_true]
        omega
      case neg =>
        have hlt := Phase.rank_lt_of_allows hallows hq
        simp only [generationAfter, hq, if_false]
        omega

/-- The generations never go back. -/
theorem ordered (hp : Path h p n) : h.Pairwise (·.generation ≤ ·.generation) := by
  induction hp with
  | start => exact .nil
  | @goes h p q n ms reason hp _ ih =>
    refine List.pairwise_append.mpr ⟨ih, by simp, ?_⟩
    intro s hs t ht
    have hle := hp.rank_le s hs
    rw [List.mem_singleton.mp ht]
    simp only [generationAfter]
    split <;> omega

/-- A generation enters each phase once at most. -/
theorem nodup (hp : Path h p n) : (h.map fun t => (t.generation, t.target)).Nodup := by
  induction hp with
  | start => exact .nil
  | @goes h p q n ms reason hp hallows ih =>
    rw [List.map_append, List.nodup_append]
    refine ⟨ih, by simp, ?_⟩
    intro x hx y hy hxy
    obtain ⟨t, ht, rfl⟩ := List.mem_map.mp hx
    simp only [List.map_singleton, List.mem_singleton] at hy
    rw [hy, Prod.mk.injEq] at hxy
    obtain ⟨hgen, htarget⟩ := hxy
    have hold := hp.rank_le t ht
    rw [hgen, htarget] at hold
    by_cases hq : q = .pendingCompile
    case pos =>
      simp only [generationAfter, hq, if_true] at hold
      omega
    case neg =>
      have hlt := Phase.rank_lt_of_allows hallows hq
      simp only [generationAfter, hq, if_false] at hold
      omega

/-- Every generation begins with the phase `pendingCompile`, in order. -/
theorem pendingCompile_generations (hp : Path h p n) :
    (h.filter (·.target = .pendingCompile)).map Transition.generation = List.range' 1 n := by
  induction hp with
  | start => rfl
  | @goes h p q n ms reason _ _ ih =>
    rw [List.filter_append, List.map_append, ih]
    by_cases hq : q = .pendingCompile
    case pos => simp [generationAfter, hq, List.range'_1_concat, Nat.add_comm]
    case neg => simp [generationAfter, hq]

end Path

namespace Desk

open PhaseLog (advance_of_allows)

/-! ## Transitions of a run -/

/-- The transition that a step asks the log of phases for, with the reason. -/
def asks? (d : Desk) : Action → Option (Phase × String)
  | .edit e => some (.pendingCompile, e.reason)
  | .next =>
    match d.queue with
    | .started g :: _ =>
      if d.current = some g then some (.compiling, "debounce elapsed") else none
    | .finished g result :: _ =>
      if d.current = some g then some (.rendered, (renderingOf d.state result).status.name)
      else none
    | _ => none
  | _ => none

/-- The log that a step asks.  An edit has opened a new generation by then. -/
def asked (d : Desk) : Action → PhaseLog
  | .edit _ => d.phases.nextGeneration
  | _ => d.phases

/-- The transition that happens in a step. -/
def happened? (d : Desk) (a : Action) : Option Transition :=
  if (d.act a).phases.total = d.phases.total then none else (d.act a).phases.kept.getLast?

/-- The transitions of some steps, oldest first. -/
def history (d : Desk) : List Action → List Transition
  | [] => []
  | a :: as => (d.happened? a).toList ++ (d.act a).history as

/-- The generation whose cycle is cancelled in a step. -/
def cancels? (d : Desk) : Action → Option Nat
  | .edit _ => d.current
  | _ => none

/-- The generations whose cycle is cancelled in some steps. -/
def cancellations (d : Desk) : List Action → List Nat
  | [] => []
  | a :: as => (d.cancels? a).toList ++ (d.act a).cancellations as

theorem phases_enter (d : Desk) (target : Phase) (reason : String) :
    (d.enter target reason).phases =
      (d.phases.advance d.now target (some reason)).toOption.getD d.phases := by
  simp only [enter]
  cases d.phases.advance d.now target (some reason) <;> rfl

theorem phases_schedule (d : Desk) (reason : String) :
    (d.schedule reason).phases = (d.phases.nextGeneration.advance d.now .pendingCompile
      (some reason)).toOption.getD d.phases.nextGeneration := by
  simp only [schedule, phases_enter, supersede_eq]

/-- The phases change by the transition that a step asks for, and a refusal leaves them as
they are. -/
theorem phases_act (d : Desk) (a : Action) : (d.act a).phases =
    match d.asks? a with
    | none => d.phases
    | some (target, reason) =>
      ((d.asked a).advance d.now target (some reason)).toOption.getD (d.asked a) := by
  have hsteps := steps_act d a
  generalize d.notice? a = n at hsteps
  generalize d.act a = d' at hsteps
  cases hsteps with
  | edit e => rw [edit_eq_schedule, phases_schedule]; rfl
  | persist on => rfl
  | wait ms => rfl
  | idle hedit hq =>
    cases a with
    | edit e => cases hedit
    | next => simp only [asks?, hq rfl]
    | _ => rfl
  | move _ hm => cases hm <;> rfl
  | @stale e es hq hcur => cases e <;> simp_all [asks?, Event.generation, left]
  | early hq hcur hphase => simp only [asks?, hq, left_phases]
  | sent hq hcur =>
    simp only [asks?, hq, hcur, if_true, phases_enter]
    rfl
  | showed hq hcur hphase => simp only [asks?, hq]; rfl
  | rendered hq hcur =>
    simp only [asks?, hq, hcur, if_true, showing, phases_enter]
    rfl

theorem current_asked (d : Desk) (a : Action) : (d.asked a).current = d.phases.current := by
  cases a <;> rfl

theorem kept_asked (d : Desk) (a : Action) : (d.asked a).kept = d.phases.kept := by
  cases a <;> rfl

theorem total_asked (d : Desk) (a : Action) : (d.asked a).total = d.phases.total := by
  cases a <;> rfl

theorem generation_asked {d : Desk} {a : Action} {target : Phase} {reason : String}
    (h : d.asks? a = some (target, reason)) :
    (d.asked a).generation = generationAfter d.phases.generation target := by
  cases a with
  | edit e =>
    cases h
    rfl
  | next =>
    simp only [asks?] at h
    split at h
    · split at h <;> cases h
      rfl
    · split at h <;> cases h
      rfl
    · cases h
  | _ => cases h

/-- The log grants what a step of the current cycle asks for. -/
theorem Course.allows {seen : List Notice} {d : Desk} (h : Course seen d) {a : Action}
    {target : Phase} {reason : String} (ha : d.asks? a = some (target, reason)) :
    d.phases.current.allows target := by
  cases a with
  | edit e =>
    cases ha
    exact allows_pendingCompile _
  | next =>
    simp only [asks?] at ha
    split at ha
    case h_1 g es hq =>
      split at ha <;> cases ha
      next hcur =>
        obtain ⟨handled, htold, hhandled⟩ := h.told_of_queue (g := g) hq rfl hcur
        rw [(hhandled.of_started htold).1]
        rfl
    case h_2 g result es hq =>
      split at ha <;> cases ha
      next hcur =>
        obtain ⟨handled, htold, hhandled⟩ := h.told_of_queue (g := g) hq rfl hcur
        rw [(hhandled.of_finished htold .ok).1]
        rfl
    case h_3 => cases ha
  | _ => cases ha

/-- A transition that is granted is the one that happens. -/
theorem phases_act_of_allows {d : Desk} {a : Action} {target : Phase} {reason : String}
    (ha : d.asks? a = some (target, reason)) (h : d.phases.current.allows target) :
    (d.act a).phases = {
      current := target
      generation := generationAfter d.phases.generation target
      kept := PhaseLog.makeRoom d.phases.kept ++ [⟨d.phases.current, target,
        generationAfter d.phases.generation target, d.now, some reason⟩]
      total := d.phases.total + 1 } := by
  rw [phases_act, ha]
  simp only
  rw [advance_of_allows (by rwa [current_asked])]
  simp only [current_asked, kept_asked, total_asked, generation_asked ha, Except.toOption,
    Option.getD_some]

theorem happened?_of_allows {d : Desk} {a : Action} {target : Phase} {reason : String}
    (ha : d.asks? a = some (target, reason)) (h : d.phases.current.allows target) :
    d.happened? a = some ⟨d.phases.current, target,
      generationAfter d.phases.generation target, d.now, some reason⟩ := by
  simp [happened?, phases_act_of_allows ha h]

theorem happened?_of_none {d : Desk} {a : Action} (ha : d.asks? a = none) :
    d.happened? a = none := by
  have hphases : (d.act a).phases = d.phases := by rw [phases_act, ha]
  simp [happened?, hphases]

/-! ## Invariants -/

/-- The transitions so far end in the log, which has counted them all. -/
structure Logged (h : List Transition) (l : PhaseLog) : Prop where
  path : Path h l.current l.generation
  total : l.total = h.length
  kept : l.kept <:+ h

theorem makeRoom_suffix (kept : List Transition) : PhaseLog.makeRoom kept <:+ kept := by
  unfold PhaseLog.makeRoom
  split
  · exact List.drop_suffix 1 kept
  · exact List.suffix_rfl

theorem Logged.act {h : List Transition} {seen : List Notice} {d : Desk} (hl : Logged h d.phases)
    (hc : Course seen d) (a : Action) :
    Logged (h ++ (d.happened? a).toList) (d.act a).phases := by
  cases ha : d.asks? a with
  | none =>
    have hphases : (d.act a).phases = d.phases := by rw [phases_act, ha]
    rw [happened?_of_none ha, hphases]
    simpa using hl
  | some asked =>
    obtain ⟨target, reason⟩ := asked
    have hallows := hc.allows ha
    rw [happened?_of_allows ha hallows, phases_act_of_allows ha hallows]
    obtain ⟨older, holder⟩ := (makeRoom_suffix d.phases.kept).trans hl.kept
    exact {
      path := hl.path.goes d.now (some reason) hallows
      total := by simp [hl.total]
      kept := ⟨older, by simp [← holder]⟩ }

/-- The cycles that have been cancelled are the ones that edits have superseded. -/
structure Cancelled (gone : List Nat) (d : Desk) : Prop where
  le : ∀ g ∈ gone, g ≤ d.phases.generation
  iff : ∀ c ∈ d.cycles, c.cancelled = true ↔ c.generation ∈ gone
  current : ∀ g, d.current = some g → g ∉ gone

namespace Cancelled

variable {gone : List Nat} {d : Desk}

/-- A new generation cancels the cycle that was current. -/
theorem schedule (h : Cancelled gone d) (hcur : ∀ g, d.current = some g → g ≤ d.phases.generation)
    (reason : String) : Cancelled (gone ++ d.current.toList) (d.schedule reason) := by
  have hle : ∀ g ∈ gone ++ d.current.toList, g ≤ d.phases.generation := by
    intro g hg
    rcases List.mem_append.mp hg with hg | hg
    · exact h.le g hg
    · exact hcur g (by simpa using hg)
  have hfresh : d.phases.generation + 1 ∉ gone ++ d.current.toList := by
    intro hmem
    have := hle _ hmem
    omega
  have hgen := generation_schedule d reason
  rw [schedule_eq] at hgen ⊢
  constructor
  case le =>
    intro g hg
    rw [hgen]
    exact Nat.le_succ_of_le (hle g hg)
  case current =>
    rintro g ⟨rfl⟩
    exact hfresh
  case iff =>
    intro c hc
    rcases List.mem_cons.mp hc with rfl | hc
    case inl => simpa [Cycle.start] using hfresh
    case inr =>
      unfold Desk.superseded supersede at hc
      split at hc
      case h_2 hnone => simpa [hnone] using h.iff c hc
      case h_1 g hg =>
        obtain ⟨b, hb, rfl⟩ := mem_change (f := Cycle.cancel) hc
        by_cases hbg : b.generation = g
        case pos => simp [hbg, hg, Cycle.cancel]
        case neg => simpa [hbg, hg] using h.iff b hb

/-- A change that keeps the generation of a cycle does not cancel it, nor bring it back. -/
theorem iff_change (h : Cancelled gone d) {g : Nat} {f : Cycle → Cycle}
    (hgen : ∀ c, (f c).generation = c.generation) (hf : ∀ c, (f c).cancelled = c.cancelled) :
    ∀ c ∈ (d.change g f).cycles, c.cancelled = true ↔ c.generation ∈ gone := by
  intro c hc
  obtain ⟨b, hb, rfl⟩ := mem_change hc
  split
  · rw [hf, hgen]
    exact h.iff b hb
  · exact h.iff b hb

theorem blank (s : Store) : Cancelled [] (Desk.blank s) := by
  constructor <;> simp [Desk.blank]

theorem start (s : Store) : Cancelled [] (Desk.start s) :=
  schedule (d := (Desk.blank s).tell (.sync .initial)) { blank s with } (by
    intro g hg
    cases hg) _

theorem act {log : List Exchange} (h : Cancelled gone d) (ht : Tracks log d) (a : Action) :
    Cancelled (gone ++ (d.cancels? a).toList) (d.act a) := by
  have hnone : a.isEdit = false → gone ++ (d.cancels? a).toList = gone := by
    cases a <;> simp [cancels?, Action.isEdit]
  have hle := fun g hg => Nat.le_of_eq (ht.current_eq g hg)
  have hsteps := steps_act d a
  generalize d.notice? a = n at hsteps
  generalize d.act a = d' at hsteps
  cases hsteps with
  | edit e =>
    rw [edit_eq_schedule]
    exact schedule (d := d.changed e) { h with } hle _
  | persist on => simpa [cancels?] using ({ h with } : Cancelled gone { d with persists := on })
  | wait ms => simpa [cancels?] using ({ h with } : Cancelled gone { d with now := d.now + ms })
  | idle hedit _ => rwa [hnone hedit]
  | move _ hm =>
    rw [hnone hm.isEdit_eq]
    exact { h with iff := h.iff_change hm.generation_eq hm.cancelled_eq }
  | stale _ _ =>
    rw [hnone rfl]
    exact { h with }
  | early _ _ _ =>
    rw [hnone rfl]
    exact { h with }
  | showed _ _ _ =>
    rw [hnone rfl]
    exact { h with }
  | sent _ _ =>
    rw [hnone rfl, enter_eq]
    exact { h with le := fun g hg => generation_enter (d.left _) _ _ ▸ h.le g hg }
  | rendered _ _ =>
    rw [hnone rfl]
    exact {
      le := fun g hg => generation_enter (d.left _) _ _ ▸ h.le g hg
      iff := h.iff_change (f := Cycle.stopSpinner) (fun _ => rfl) fun _ => rfl
      current := fun g hg => by cases hg }

theorem run {log : List Exchange} (h : Cancelled gone d) (ht : Tracks log d) (as : List Action) :
    Cancelled (gone ++ d.cancellations as) (d.run as) := by
  induction as generalizing log gone d with
  | nil => simpa [Desk.run, cancellations] using h
  | cons a as ih =>
    have hrun := ih (h.act ht a) (ht.act a)
    rw [List.append_assoc] at hrun
    exact hrun

end Cancelled

theorem Logged.run {log : List Exchange} {h : List Transition} {seen : List Notice} {d : Desk}
    (hl : Logged h d.phases) (hc : Course seen d) (ht : Tracks log d) (as : List Action) :
    Logged (h ++ d.history as) (d.run as).phases := by
  induction as generalizing log seen h d with
  | nil => simpa [Desk.run, history] using hl
  | cons a as ih =>
    have hrun := ih (hl.act hc a) (hc.act ht a) (ht.act a)
    rw [List.append_assoc] at hrun
    exact hrun

/-- A new desk has made the first transition. -/
theorem phases_start (s : Store) :
    PhaseLog.start.nextGeneration.advance 0 .pendingCompile (some "initial state") =
      .ok (Desk.start s).phases :=
  rfl

theorem logged_start (s : Store) : Logged (Desk.start s).phases.kept (Desk.start s).phases where
  path := .goes 0 (some "initial state") .start rfl
  total := rfl
  kept := List.suffix_rfl

/-- There is a current cycle exactly in the phases before the outcome is shown. -/
theorem Course.current_isSome_iff {seen : List Notice} {d : Desk} (h : Course seen d) :
    d.current.isSome ↔ d.phases.current = .pendingCompile ∨ d.phases.current = .compiling := by
  cases hcur : d.current with
  | none => simp [(h.resting hcur).1]
  | some g =>
    obtain ⟨handled, -, hhandled⟩ := h.underway g hcur
    simpa using hhandled.phase_eq

theorem Course.phase_ne_idle {seen : List Notice} {d : Desk} (h : Course seen d) :
    d.phases.current ≠ .idle := by
  cases hcur : d.current with
  | none => simp [(h.resting hcur).1]
  | some g =>
    have hphase := h.current_isSome_iff.mp (by simp [hcur])
    rcases hphase with hphase | hphase <;> simp [hphase]

/-- The log of phases never refuses a transition, from the start on.  The phase is never
`idle`.  A cycle is current exactly in the phases `pendingCompile` and `compiling`; it is
the newest one, and no edit has cancelled it.  All transitions together are a path of the
table from `idle` on.  Each is of the generation that is the newest one then, and every
generation enters `pendingCompile` once and the other phases once at most. -/
theorem transitions_granted (s : Store) (as : List Action) :
    let d := (Desk.start s).run as
    let h := (Desk.start s).phases.kept ++ (Desk.start s).history as
    PhaseLog.start.nextGeneration.advance 0 .pendingCompile (some "initial state") =
        .ok (Desk.start s).phases ∧
    (∀ a target reason, d.asks? a = some (target, reason) →
      (d.asked a).advance d.now target (some reason) = .ok (d.act a).phases) ∧
    (∀ a, d.asks? a = none → (d.act a).phases = d.phases) ∧
    d.phases.current ≠ .idle ∧
    (d.current.isSome ↔ d.phases.current = .pendingCompile ∨ d.phases.current = .compiling) ∧
    (∀ g, d.current = some g → g = d.phases.generation ∧
      g ∉ (Desk.start s).cancellations as ∧
      ∀ c ∈ d.cycles, c.generation = g → c.cancelled = false) ∧
    d.phases.total = h.length ∧ d.phases.kept <:+ h ∧
    (∀ t ∈ h.head?, t.source = .idle) ∧
    (h.IsChain fun t u => t.target = u.source) ∧
    (∀ t ∈ h, (t.source, t.target) ∈ Phase.table) ∧
    (∀ t ∈ h.getLast?, t.target = d.phases.current) ∧
    (∀ a, ∀ t ∈ d.happened? a, t.generation = (d.act a).phases.generation) ∧
    h.Pairwise (·.generation ≤ ·.generation) ∧
    (h.filter (·.target = .pendingCompile)).map Transition.generation =
      List.range' 1 d.phases.generation ∧
    (h.map fun t => (t.generation, t.target)).Nodup := by
  intro d h
  have htracks : Tracks ((Desk.start s).exchanges as) d := tracks_run s as
  have hcourse : Course ((Desk.start s).notices as) d := course_run s as
  have hlogged : Logged h d.phases :=
    (logged_start s).run (Course.start s) (Tracks.start s) as
  have hcancelled : Cancelled ((Desk.start s).cancellations as) d :=
    (Cancelled.start s).run (Tracks.start s) as
  refine ⟨phases_start s, ?_, fun a ha => by rw [phases_act, ha], hcourse.phase_ne_idle,
    hcourse.current_isSome_iff, ?_, hlogged.total, hlogged.kept, hlogged.path.source_of_head?, hlogged.path.isChain,
    hlogged.path.mem_table, hlogged.path.target_of_getLast?, ?_, hlogged.path.ordered,
    hlogged.path.pendingCompile_generations, hlogged.path.nodup⟩
  · intro a target reason ha
    have hallows := hcourse.allows ha
    rw [phases_act_of_allows ha hallows, advance_of_allows (by rwa [current_asked])]
    simp only [current_asked, kept_asked, total_asked, generation_asked ha]
  · intro g hg
    refine ⟨htracks.current_eq g hg, hcancelled.current g hg, ?_⟩
    rintro c hc rfl
    rw [← Bool.not_eq_true, hcancelled.iff c hc]
    exact hcancelled.current _ hg
  · intro a t ht
    cases ha : d.asks? a with
    | none =>
      rw [happened?_of_none ha] at ht
      cases ht
    | some asked =>
      obtain ⟨target, reason⟩ := asked
      have hallows := hcourse.allows ha
      rw [happened?_of_allows ha hallows] at ht
      cases ht
      rw [phases_act_of_allows ha hallows]

/-- The first cycle is superseded while it compiles, and the second one renders. -/
theorem transitions_supersededRun :
    ((Desk.start default).phases.kept ++ (Desk.start default).history supersededRun).map
        (fun t => (t.generation, t.target)) =
      [(1, .pendingCompile), (1, .compiling), (2, .pendingCompile), (2, .compiling),
        (2, .rendered)] ∧
    (((Desk.start default).phases.kept ++ (Desk.start default).history supersededRun).filter
        (·.target = .pendingCompile)).map Transition.generation = [1, 2] := by
  obtain ⟨-, -, -, -, -, -, -, -, -, -, -, -, -, -, hpending, -⟩ :=
    transitions_granted default supersededRun
  exact ⟨by decide +kernel, hpending⟩

end Desk

end Playground
