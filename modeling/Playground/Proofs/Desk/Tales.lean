import Playground.Proofs.Desk.Calls
import Playground.Proofs.Desk.Progress

/-!
# What the newest cycle has told

`tales` is what the newest cycle has told so far, in the notices and in the queue.  It only
grows, and it grows at its end:

    an event is handled     it goes from the queue to the notices
    the cycle moves on      what it tells comes last
    an event is stale       the cycle has told the other two before

So a condition on the event that comes second holds for good once it holds when the event
is told.
-/

namespace Playground

/-- What an event of a cycle is about. -/
inductive Tale where
  | started
  | long
  | through
deriving DecidableEq, Repr

def Event.tale : Event → Tale
  | started _ => .started
  | stillCompiling _ => .long
  | finished _ _ => .through

/-- What the event was about that has been handled, if it has done something. -/
def Notice.tale? : Notice → Option Tale
  | requestSent _ => some .started
  | showedCompiling _ => some .long
  | rendered _ _ => some .through
  | stale _ => none

namespace Desk

variable {seen : List Notice} {d : Desk} {g : Nat}

/-! ## What the newest cycle has told -/

/-- What the cycle of a generation has told that has done something or may do so. -/
def tales (seen : List Notice) (d : Desk) (g : Nat) : List Tale :=
  (Notice.effects seen g).filterMap Notice.tale? ++ (d.eventsOf g).map Event.tale

theorem Handled.tales_eq {p : Phase} {handled : List Event} {ns : List Notice}
    (h : Handled g p handled ns) : ns.filterMap Notice.tale? = handled.map Event.tale := by
  cases h <;> rfl

/-- The tales of a current cycle are the events that it has told. -/
theorem Course.tales_eq (h : Course seen d) (hcur : d.current = some g) :
    ∃ told, Told g (d.cycle? g) told ∧ tales seen d g = told.map Event.tale := by
  obtain ⟨handled, htold, hhandled⟩ := h.underway g hcur
  exact ⟨_, htold, by rw [tales, hhandled.tales_eq, List.map_append]⟩

/-- A cycle that has rendered has told two things at least. -/
theorem Course.one_lt_length (h : Course seen d) (hcur : d.current = none) :
    1 < ((Notice.effects seen d.phases.generation).filterMap Notice.tale?).length := by
  obtain ⟨-, showed, status, hword⟩ := h.resting hcur
  rw [hword]
  cases showed <;> simp [Notice.word, Notice.tale?]

/-- The event that the newest cycle tells second meets a condition. -/
def Second (p : Tale → Prop) (seen : List Notice) (d : Desk) (g : Nat) : Prop :=
  ∀ k, (tales seen d g)[1]? = some k → p k

/-! ## Events that are handled -/

/-- An event of the newest cycle that does something stays told. -/
theorem tales_handled {n : Notice} {e : Event} {es : List Event} {d' : Desk}
    (hq : d.queue = e :: es) (he : e.generation = g) (hn : n.isActive ∧ n.generation = g)
    (htale : n.tale? = some e.tale) (hd : d'.queue = es) :
    tales (seen ++ [n]) d' g = tales seen d g := by
  have hevents : d.eventsOf g = e :: d'.eventsOf g := by
    simp [eventsOf, hq, hd, he]
  simp [tales, Notice.effects_append, Notice.effects_singleton, hn, htale, hevents]

namespace Second

variable {p : Tale → Prop} {log : List Exchange}

theorem of_tales_eq {ns : List Notice} {d' : Desk} (h : Second p seen d g)
    (heq : tales ns d' g = tales seen d g) : Second p ns d' g :=
  fun k hk => h k (heq ▸ hk)

/-- Only a cycle that has rendered has stale events, and it has told enough before. -/
theorem stale {e : Event} {es : List Event} (h : Second p seen d g) (hc : Course seen d)
    (ht : Tracks log d) (hg : d.phases.generation = g) (hq : d.queue = e :: es)
    (hne : d.current ≠ some e.generation) :
    Second p (seen ++ [.stale e.generation]) (d.left es) g := by
  have heffects : Notice.effects (seen ++ [.stale e.generation]) g = Notice.effects seen g := by
    simp [Notice.effects_append, Notice.effects_singleton, Notice.isActive]
  by_cases heg : e.generation = g
  case neg =>
    have hevents : (d.left es).eventsOf g = d.eventsOf g := by
      simp [eventsOf, left, hq, heg]
    exact h.of_tales_eq (by rw [tales, heffects, hevents, tales])
  case pos =>
    have hnone : d.current = none := by
      cases hcur : d.current with
      | none => rfl
      | some k =>
        have hk : k = e.generation := (ht.current_eq k hcur).trans (hg.trans heg.symm)
        exact absurd (hk ▸ hcur) hne
    have hlength := hc.one_lt_length hnone
    rw [hg] at hlength
    intro k hk
    rw [tales, heffects, List.getElem?_append_left hlength] at hk
    apply h k
    rw [tales, List.getElem?_append_left hlength]
    exact hk

/-- An event that is handled has been told, and stays told. -/
theorem next (h : Second p seen d g) (hc : Course seen d) (ht : Tracks log d)
    (hg : d.phases.generation = g) :
    Second p (seen ++ (d.notice? .next).toList) (d.act .next) g := by
  have hsteps := steps_act d .next
  generalize d.notice? .next = n at hsteps
  generalize d.act .next = d' at hsteps
  have hcurrent : ∀ k, d.current = some k → k = g := fun k hk => (ht.current_eq k hk).trans hg
  cases hsteps with
  | move _ hm => cases hm
  | idle _ _ => exact h.of_tales_eq (by simp)
  | early hq hcur hphase => exact absurd (hc.phase_of_stillCompiling hq hcur) hphase
  | sent hq hcur =>
    obtain rfl := hcurrent _ hcur
    exact h.of_tales_eq (tales_handled hq rfl ⟨rfl, rfl⟩ rfl (by rw [enter_eq]; rfl))
  | showed hq hcur _ =>
    obtain rfl := hcurrent _ hcur
    exact h.of_tales_eq (tales_handled hq rfl ⟨rfl, rfl⟩ rfl rfl)
  | rendered hq hcur =>
    obtain rfl := hcurrent _ hcur
    exact h.of_tales_eq (tales_handled hq rfl ⟨rfl, rfl⟩ rfl rfl)
  | stale hq hne => exact h.stale hc ht hg hq hne

end Second

/-! ## Events that are told -/

/-- A second event that a cycle tells in a step meets the condition, if the cycle was working
with its spinner running. -/
theorem Second.moved {p : Tale → Prop} {log : List Exchange} (h : Second p seen d g)
    (hc : Course seen d) (ht : Tracks log d) (hg : d.phases.generation = g) {c : Cycle}
    {a : Action} {f : Cycle → Cycle} {es : List Event} (hcycle : d.cycle? c.generation = some c)
    (hm : c.Moves a f es) (hp : c.generation = g → c.stage.isWorking → c.spinner = .running →
      ∀ e ∈ es, p e.tale) :
    Second p seen (d.moved c.generation f es) g := by
  intro k hk
  rw [tales, eventsOf_moved, List.map_append, ← List.append_assoc] at hk
  change (tales seen d g ++ _)[1]? = some k at hk
  by_cases hcg : c.generation = g
  case neg =>
    have hes : es.filter (·.generation = g) = [] :=
      List.filter_eq_nil_iff.mpr fun e he => by
        have heg := hm.generation_of_mem he
        simp only [decide_eq_true_eq]
        exact fun hge => hcg (heg.symm.trans hge)
    rw [hes, List.map_nil, List.append_nil] at hk
    exact h k hk
  case pos =>
    have hlong : 1 < (tales seen d g).length → p k := by
      intro hlt
      rw [List.getElem?_append_left hlt] at hk
      exact h k hk
    cases hcur : d.current with
    | none =>
      have hlength := hc.one_lt_length hcur
      rw [hg] at hlength
      apply hlong
      rw [tales, List.length_append]
      omega
    | some j =>
      obtain rfl : j = g := (ht.current_eq j hcur).trans hg
      obtain ⟨told, htold, htales⟩ := hc.tales_eq hcur
      have hes : (es.filter (·.generation = j)).length ≤ 1 :=
        Nat.le_trans (List.length_filter_le _ _) hm.length_le_one
      subst hcg
      rw [hcycle] at htold
      rw [htales] at hk hlong
      -- A step tells one event at most, which comes second only after the first one alone.
      cases htold with
      | waiting _ _ =>
        have hlt := (List.getElem?_eq_some_iff.mp hk).1
        simp at hlt hes
        omega
      | overdue _ _ => exact hlong (by simp)
      | done _ _ => exact hlong (by simp)
      | sent hw hrun =>
        have hmem : k ∈ (es.filter (·.generation = c.generation)).map Event.tale :=
          List.mem_of_getElem? (i := 0) hk
        obtain ⟨e, he, rfl⟩ := List.mem_map.mp hmem
        exact hp rfl hw hrun e (List.mem_filter.mp he).1

/-! ## The loading indicator -/

/-- What has been told of a generation is in the notices if no other one has done something. -/
theorem filterMap_effects {ns : List Notice} (h : ∀ n ∈ ns, n.isActive → n.generation = g) :
    (Notice.effects ns g).filterMap Notice.tale? = ns.filterMap Notice.tale? := by
  induction ns with
  | nil => rfl
  | cons n ns ih =>
    have hrest := ih fun m hm => h m (List.mem_cons_of_mem n hm)
    have hn := h n (List.mem_cons_self ..)
    cases n <;> simp_all [Notice.effects, Notice.isActive, Notice.generation, Notice.tale?,
      List.filterMap_cons]

end Desk

/-- The indicator is shown as often as a notice says so. -/
theorem Called.count_compiling {ns : List Notice} {cs : List (Nat × ViewCall)} (h : Called ns cs) :
    (cs.map Prod.snd).count .compiling = (ns.filterMap Notice.tale?).count .long := by
  induction h with
  | nil => rfl
  | _ => simp_all [Notice.tale?, List.filterMap_cons]

namespace Desk

/-- The calls that bring the input widgets in line are not counted. -/
theorem count_compiling_filter (cs : List (Nat × ViewCall)) :
    ((cs.filter (!·.2.isSync)).map Prod.snd).count .compiling =
      (cs.map Prod.snd).count .compiling := by
  induction cs with
  | nil => rfl
  | cons c cs ih =>
    obtain ⟨k, call⟩ := c
    cases call <;> simp_all [ViewCall.isSync]

/-- The indicator is shown in a run as often as a notice says so. -/
theorem count_compiling_calls (d : Desk) (as : List Action) :
    ((d.calls as).map Prod.snd).count .compiling =
      ((d.notices as).filterMap Notice.tale?).count .long := by
  rw [← (d.called_run as).count_compiling, count_compiling_filter]

end Desk

/-! ## All calls of a cycle -/

/-- A rendering is shown. -/
def ViewCall.isRender : ViewCall → Bool
  | .render _ => true
  | _ => false

namespace Called

variable {ns : List Notice} {cs : List (Nat × ViewCall)}

/-- A rendering is shown as often as a notice says so. -/
theorem countP_render (h : Called ns cs) :
    (cs.map Prod.snd).countP ViewCall.isRender = ns.countP Notice.isRendered := by
  induction h with
  | nil => rfl
  | _ => simp_all [ViewCall.isRender, Notice.isRendered, List.countP_cons]

/-- All calls are those of a generation if no other one has done something. -/
theorem filter_eq_self {g : Nat} (h : Called ns cs)
    (hg : ∀ n ∈ ns, n.isActive → n.generation = g) : cs.filter (·.1 = g) = cs := by
  refine List.filter_eq_self.mpr fun c hc => decide_eq_true ?_
  induction h with
  | nil => cases hc
  | sent k _ ih => exact ih (fun n hn => hg n (List.mem_cons_of_mem _ hn)) hc
  | stale k _ ih => exact ih (fun n hn => hg n (List.mem_cons_of_mem _ hn)) hc
  | showed k _ ih =>
    rcases List.mem_cons.mp hc with rfl | hc
    · exact hg _ (List.mem_cons_self ..) rfl
    · exact ih (fun n hn => hg n (List.mem_cons_of_mem _ hn)) hc
  | rendered k r _ ih =>
    rcases List.mem_cons.mp hc with rfl | hc
    · exact hg _ (List.mem_cons_self ..) rfl
    · exact ih (fun n hn => hg n (List.mem_cons_of_mem _ hn)) hc

end Called

namespace Desk

/-- What is read off the calls that do not bring the input widgets in line. -/
theorem filterMap_calls {β : Type} {f : ViewCall → Option β} (hf : ∀ s, f (.sync s) = none)
    (cs : List (Nat × ViewCall)) : (cs.map Prod.snd).filterMap f =
      ((cs.filter (!·.2.isSync)).map Prod.snd).filterMap f := by
  induction cs with
  | nil => rfl
  | cons c cs ih =>
    obtain ⟨k, call⟩ := c
    cases call <;> simp_all [ViewCall.isSync, List.filterMap_cons]

/-- A rendering that is shown last is the last one. -/
theorem lastRender?_run {d : Desk} {as : List Action} {before : List ViewCall} {r : Rendering}
    (h : ((d.calls as).filter (!·.2.isSync)).map Prod.snd = before ++ [.render r]) :
    (d.run as).lastRender? = some r := by
  rw [lastRender?, view_run, List.filterMap_append, filterMap_calls fun _ => rfl, h,
    List.filterMap_append, ← List.append_assoc]
  exact List.getLast?_concat

/-- Before the rendering there is the indicator or nothing. -/
theorem exists_of_prefix_indicator {showed : Bool} {cs : List ViewCall}
    (h : cs <+: if showed then [.compiling] else []) :
    ∃ shown : Bool, cs = if shown then [.compiling] else [] := by
  cases showed with
  | false => exact ⟨false, by simpa using h⟩
  | true =>
    have hcases := (List.prefix_concat_iff : _ <+: [] ++ [ViewCall.compiling] ↔ _).mp h
    rcases hcases with heq | hnil
    · exact ⟨true, by rw [heq]; rfl⟩
    · exact ⟨false, by rw [List.prefix_nil.mp hnil]; rfl⟩

/-- A desk that has told nothing and is left alone shows the indicator at most once, and then its
rendering. -/
theorem Course.calls_eq {log : List Exchange} {d : Desk} (hc : Course [] d) (ht : Tracks log d)
    {as : List Action} (hedits : ∀ a ∈ as, a.isEdit = false) : ∃ showed : Bool,
    ((d.calls as).filter (!·.2.isSync)).map Prod.snd = (if showed then [.compiling] else []) ++
      if (d.run as).phases.current = .rendered then (d.run as).rendering.toList.map .render
      else [] := by
  have hafter : Course (d.notices as) (d.run as) := by simpa using hc.run ht as
  have htracks := ht.run as
  have hgen := (generation_run hedits d).1
  have hcount := hafter.countP_rendered htracks.current_eq
  obtain ⟨showed, status, hword⟩ := hafter.grammar (d.run as).phases.generation
  have hcalled := d.called_run as
  have heffects := hcalled.effects (d.run as).phases.generation
  rw [hcalled.filter_eq_self (hgen ▸ ht.generation_notices hedits)] at heffects
  obtain ⟨r, hprefix⟩ := heffects.prefix_of_word hword
  rw [← heffects.countP_render] at hcount
  have hsplit : (if showed then [.compiling, .render r] else [.render r]) =
      (if showed then [ViewCall.compiling] else []) ++ [.render r] := by cases showed <;> rfl
  rw [hsplit, List.prefix_concat_iff] at hprefix
  have hindicator : ((if showed then [ViewCall.compiling] else []) : List ViewCall).countP
      ViewCall.isRender = 0 := by cases showed <;> rfl
  rcases hprefix with heq | hprefix
  · rw [heq, List.countP_append, hindicator] at hcount
    have hphase : (d.run as).phases.current = .rendered := by
      by_contra hne
      simp [hne, ViewCall.isRender] at hcount
    obtain ⟨r', hr', hlast, -⟩ := htracks.shown hphase
    cases hlast.symm.trans (lastRender?_run heq)
    refine ⟨showed, ?_⟩
    rw [heq, if_pos hphase, hr']
    rfl
  · have hzero :
        (((d.calls as).filter (!·.2.isSync)).map Prod.snd).countP ViewCall.isRender = 0 := by
      have hle := hprefix.sublist.countP_le (p := ViewCall.isRender)
      omega
    have hphase : (d.run as).phases.current ≠ .rendered := by
      intro hphase
      rw [hzero, if_pos hphase] at hcount
      cases hcount
    obtain ⟨shown, heq⟩ := exists_of_prefix_indicator hprefix
    exact ⟨shown, by rw [heq, if_neg hphase, List.append_nil]⟩

end Desk

end Playground
