import Playground.Proofs.Desk.Course

/-!
# What the view is told

Every call to the view belongs to a generation: a call that an event makes to the one of
the event, and the call of an edit to the one that it opens.  `calls` lists the calls of
a run with their generations, and `Called` sets them beside the notices of the run.

    request sent, stale      no call
    showed compiling         the loading indicator
    rendered                 a rendering

So the order of the notices of one generation is the order of its calls.
-/

namespace Playground

/-- The input widgets are brought in line with the state. -/
def ViewCall.isSync : ViewCall → Bool
  | .sync _ => true
  | _ => false

/-- The calls to the view that come with some notices. -/
inductive Called : List Notice → List (Nat × ViewCall) → Prop where
  | nil : Called [] []
  | sent {ns : List Notice} {cs : List (Nat × ViewCall)} (g : Nat) :
      Called ns cs → Called (.requestSent g :: ns) cs
  | stale {ns : List Notice} {cs : List (Nat × ViewCall)} (g : Nat) :
      Called ns cs → Called (.stale g :: ns) cs
  | showed {ns : List Notice} {cs : List (Nat × ViewCall)} (g : Nat) :
      Called ns cs → Called (.showedCompiling g :: ns) ((g, .compiling) :: cs)
  | rendered {ns : List Notice} {cs : List (Nat × ViewCall)} (g : Nat) (r : Rendering) :
      Called ns cs → Called (.rendered g r.status :: ns) ((g, .render r) :: cs)

namespace Called

variable {ns : List Notice} {cs : List (Nat × ViewCall)}

/-- The calls of a generation come with its notices. -/
theorem effects (h : Called ns cs) (g : Nat) :
    Called (Notice.effects ns g) (cs.filter (·.1 = g)) := by
  induction h with
  | nil => exact .nil
  | sent k _ ih =>
    by_cases hk : k = g
    · simpa [Notice.effects, Notice.isActive, Notice.generation, hk] using ih.sent g
    · simpa [Notice.effects, Notice.isActive, Notice.generation, hk] using ih
  | stale k _ ih => simpa [Notice.effects, Notice.isActive] using ih
  | showed k _ ih =>
    by_cases hk : k = g
    · simpa [Notice.effects, Notice.isActive, Notice.generation, hk] using ih.showed g
    · simpa [Notice.effects, Notice.isActive, Notice.generation, hk] using ih
  | rendered k r _ ih =>
    by_cases hk : k = g
    · simpa [Notice.effects, Notice.isActive, Notice.generation, hk] using ih.rendered g r
    · simpa [Notice.effects, Notice.isActive, Notice.generation, hk] using ih

theorem append {ms : List Notice} {ds : List (Nat × ViewCall)} (h : Called ns cs)
    (h' : Called ms ds) : Called (ns ++ ms) (cs ++ ds) := by
  induction h with
  | nil => exact h'
  | sent g _ ih => exact ih.sent g
  | stale g _ ih => exact ih.stale g
  | showed g _ ih => exact ih.showed g
  | rendered g r _ ih => exact ih.rendered g r

theorem prefix_of_rendered {g : Nat} {status : Status} (h : Called ns cs)
    (hns : ns <+: [.rendered g status]) : ∃ r : Rendering, cs.map Prod.snd <+: [.render r] := by
  cases h with
  | nil => exact ⟨.ofEntries true [] "", List.nil_prefix⟩
  | sent _ _ => simp at hns
  | stale _ _ => simp at hns
  | showed _ _ => simp at hns
  | rendered k r hrest =>
    obtain ⟨-, hnil⟩ := List.cons_prefix_cons.mp hns
    rw [List.prefix_nil.mp hnil] at hrest
    cases hrest
    exact ⟨r, List.prefix_rfl⟩

/-- The calls of a cycle: the loading indicator at most once, and then a rendering. -/
theorem prefix_of_word {g : Nat} {showed : Bool} {status : Status} (h : Called ns cs)
    (hns : ns <+: Notice.word g showed status) : ∃ r : Rendering,
      cs.map Prod.snd <+: if showed then [.compiling, .render r] else [.render r] := by
  cases h with
  | nil => exact ⟨.ofEntries true [] "", List.nil_prefix⟩
  | stale _ _ => simp [Notice.word] at hns
  | showed _ _ => simp [Notice.word] at hns
  | rendered _ _ _ => simp [Notice.word] at hns
  | sent k hrest =>
    obtain ⟨-, hns⟩ := List.cons_prefix_cons.mp hns
    cases showed with
    | false => exact hrest.prefix_of_rendered hns
    | true =>
      cases hrest with
      | nil => exact ⟨.ofEntries true [] "", List.nil_prefix⟩
      | sent _ _ => simp at hns
      | stale _ _ => simp at hns
      | rendered _ _ _ => simp at hns
      | showed k hrest =>
        obtain ⟨-, hns⟩ := List.cons_prefix_cons.mp hns
        obtain ⟨r, hr⟩ := hrest.prefix_of_rendered hns
        exact ⟨r, by simpa [List.cons_prefix_cons] using hr⟩

end Called

namespace Desk

/-- The generation that the calls of a step belong to. -/
def calledBy (d : Desk) (a : Action) : Nat :=
  match a, d.queue with
  | .next, e :: _ => e.generation
  | _, _ => (d.act a).phases.generation

/-- The calls to the view in some steps, with their generations, oldest first. -/
def calls (d : Desk) : List Action → List (Nat × ViewCall)
  | [] => []
  | a :: as => ((d.act a).view.drop d.view.length).map (d.calledBy a, ·) ++ (d.act a).calls as

theorem view_schedule (d : Desk) (reason : String) : (d.schedule reason).view = d.view := by
  rw [schedule_eq]

theorem view_enter (d : Desk) (target : Phase) (reason : String) :
    (d.enter target reason).view = d.view := by
  rw [enter_eq]

/-- A step adds calls to the ones before. -/
theorem exists_view_act (d : Desk) (a : Action) : ∃ cs, (d.act a).view = d.view ++ cs ∧
    Called (d.notice? a).toList ((cs.map (d.calledBy a, ·)).filter (!·.2.isSync)) := by
  have hsteps := steps_act d a
  have hby : ∀ e es, d.queue = e :: es → d.calledBy .next = e.generation := by
    intro e es hq
    simp [calledBy, hq]
  generalize d.notice? a = n at hsteps
  generalize d.act a = d' at hsteps
  cases hsteps with
  | edit e =>
    rw [edit_eq_schedule, view_schedule]
    simp only [changed]
    split
    · exact ⟨[.sync (e.apply d.state)], rfl, .nil⟩
    · exact ⟨[], by simp, .nil⟩
  | persist on => exact ⟨[], by simp, .nil⟩
  | wait ms => exact ⟨[], by simp, .nil⟩
  | idle _ _ => exact ⟨[], by simp, .nil⟩
  | move _ _ => exact ⟨[], by simp [moved], .nil⟩
  | stale _ _ => exact ⟨[], by simp [left], .stale _ .nil⟩
  | early _ _ _ => exact ⟨[], by simp [left], .stale _ .nil⟩
  | sent _ _ => exact ⟨[], by simp [view_enter, left], .sent _ .nil⟩
  | @showed g es hq hcur hphase =>
    refine ⟨[.compiling], rfl, ?_⟩
    rw [hby _ _ hq]
    exact .showed g .nil
  | @rendered g result es hq hcur =>
    refine ⟨[.render (renderingOf d.state result)], rfl, ?_⟩
    rw [hby _ _ hq]
    exact .rendered g (renderingOf d.state result) .nil

/-- The calls of a run follow the ones before it. -/
theorem view_run (d : Desk) (as : List Action) :
    (d.run as).view = d.view ++ (d.calls as).map Prod.snd := by
  induction as generalizing d with
  | nil => simp [run, calls]
  | cons a as ih =>
    obtain ⟨cs, hview, -⟩ := d.exists_view_act a
    have hrun : (d.run (a :: as)).view = (d.act a).view ++ ((d.act a).calls as).map Prod.snd :=
      ih (d.act a)
    rw [hrun, calls, hview]
    simp [List.map_map, Function.comp_def]

/-- The calls of a run that do not bring the input widgets in line come with its notices. -/
theorem called_run (d : Desk) (as : List Action) :
    Called (d.notices as) ((d.calls as).filter (!·.2.isSync)) := by
  induction as generalizing d with
  | nil => exact .nil
  | cons a as ih =>
    obtain ⟨cs, hview, hcalled⟩ := d.exists_view_act a
    rw [notices, calls, hview, List.drop_left, List.filter_append]
    exact hcalled.append (ih (d.act a))

/-- Each generation shows the loading indicator at most once, and then a rendering at most
once. -/
theorem calls_prefix (s : Store) (as : List Action) (g : Nat) : ∃ (showed : Bool) (r : Rendering),
    (((Desk.start s).calls as).filter fun c => c.1 = g && !c.2.isSync).map Prod.snd <+:
      if showed then [.compiling, .render r] else [.render r] := by
  obtain ⟨showed, status, hword⟩ := (course_run s as).grammar g
  have hcalled := ((Desk.start s).called_run as).effects g
  rw [List.filter_filter] at hcalled
  exact ⟨showed, hcalled.prefix_of_word hword⟩

end Desk

end Playground
