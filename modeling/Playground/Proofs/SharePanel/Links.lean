import Mathlib.Algebra.Ring.Parity
import Mathlib.Data.List.Induction
import Playground.Desk
import Playground.SharePanel

/-!
# Links of the share panel

A page is a desk with a share panel beside it.  Its history is the list of its steps: clicks,
choices of a kind of link, steps of the desk, and changes of what the shortener answers.

Whether the panel is open and which kind of link it shows can be read off the history
(`tracks_run`), and so can the steps that make the link anew (`renewal?`).  Only these steps
ask the shortener or change the link, and they use the state that the desk has at the moment
(`links_follow_history`).
-/

namespace Playground

/-- A desk and the share panel beside it. -/
structure Page where
  /-- The desk. -/
  desk : Desk
  /-- The panel. -/
  panel : ControlPanel

namespace Page

/-- What can happen to a page. -/
inductive Step where
  /-- A click. -/
  | click (target : ClickTarget)
  /-- A kind of link is chosen. -/
  | select (length : LinkLength)
  /-- A step of the desk, such as an edit. -/
  | desk (a : Desk.Action)
  /-- From now on the shortener gives these answers. -/
  | answers (shorten : Shortener)

/-- The page after a step. -/
def act (p : Page) : Step → Page
  | .click target => { p with panel := (p.panel.click target p.desk.state).1 }
  | .select length => { p with panel := p.panel.selectLength length p.desk.state }
  | .desk a => { p with desk := p.desk.act a }
  | .answers shorten => { p with panel := { p.panel with shorten } }

/-- The page after some steps. -/
def run (p : Page) (h : List Step) : Page := h.foldl act p

/-- A new page with a desk. -/
def start (d : Desk) (base : String) (shorten : Shortener) : Page := ⟨d, .start base shorten⟩

theorem run_concat (p : Page) (h : List Step) (s : Step) : p.run (h ++ [s]) = (p.run h).act s := by
  rw [run, List.foldl_append]
  rfl

/-! ## Histories -/

namespace Step

/-- A click on the button. -/
def isButton : Step → Bool
  | .click .button => true
  | _ => false

/-- A click outside of the panel and its button. -/
def isOutside : Step → Bool
  | .click .outside => true
  | _ => false

/-- The kind of link that is chosen. -/
def length? : Step → Option LinkLength
  | .select length => some length
  | _ => none

/-- The step of the desk. -/
def action? : Step → Option Desk.Action
  | .desk a => some a
  | _ => none

end Step

/-- The clicks on the button since the last click outside, or since the start. -/
def buttons (h : List Step) : Nat :=
  (h.reverse.takeWhile fun s => !s.isOutside).countP Step.isButton

/-- The kind of link that was chosen last, or a short link. -/
def lengthAfter (h : List Step) : LinkLength := (h.reverse.findSome? Step.length?).getD .short

/-- The kind of link that a step makes anew behind a history, if it does: the one that is
chosen, or that of the panel when the button opens it. -/
def renewal? (h : List Step) : Step → Option LinkLength
  | .select length => some length
  | .click .button => if Odd (buttons h) then none else some (lengthAfter h)
  | _ => none

/-- The steps of a history, each with what was before it. -/
def momentsFrom (before : List Step) : List Step → List (List Step × Step)
  | [] => []
  | s :: h => (before, s) :: momentsFrom (before ++ [s]) h

/-- The steps of a history, each with what was before it. -/
def moments (h : List Step) : List (List Step × Step) := momentsFrom [] h

theorem momentsFrom_concat (before h : List Step) (s : Step) :
    momentsFrom before (h ++ [s]) = momentsFrom before h ++ [(before ++ h, s)] := by
  induction h generalizing before with
  | nil => simp [momentsFrom]
  | cons t h ih => simp [momentsFrom, ih]

theorem moments_concat (h : List Step) (s : Step) : moments (h ++ [s]) = moments h ++ [(h, s)] :=
  momentsFrom_concat [] h s

theorem buttons_concat (h : List Step) (s : Step) :
    buttons (h ++ [s]) =
      if s.isOutside then 0 else buttons h + if s.isButton then 1 else 0 := by
  rw [buttons, List.reverse_concat, List.takeWhile_cons]
  cases s.isOutside with
  | true => rfl
  | false => exact List.countP_cons

theorem lengthAfter_concat (h : List Step) (s : Step) :
    lengthAfter (h ++ [s]) = s.length?.getD (lengthAfter h) := by
  rw [lengthAfter, List.reverse_concat, List.findSome?_cons]
  cases s.length? <;> rfl

/-! ## The panel behind a history -/

/-- The panel of a page with the address `base` is in the state that its history tells. -/
structure Tracks (base : String) (h : List Step) (p : Page) : Prop where
  /-- The panel is open after an odd number of clicks on its button. -/
  isOpen_iff : p.panel.share.isOpen = true ↔ Odd (buttons h)
  /-- The kind of link is the one chosen last. -/
  length_eq : p.panel.share.length = lengthAfter h
  /-- The address is that of the page. -/
  base_eq : p.panel.base = base

/-- What a step makes of the link and of the requests, by the kind of link that it makes
anew. -/
inductive Renewed (base : String) (p p' : Page) : Option LinkLength → Prop where
  /-- Without a new link the old one stays, and nobody is asked. -/
  | kept : p'.panel.share.link = p.panel.share.link → p'.panel.asked = p.panel.asked →
      Renewed base p p' none
  /-- A long link is the link to the state of the moment, and nobody is asked. -/
  | long : p'.panel.share.link = Share.link base p.desk.state →
      p'.panel.asked = p.panel.asked → Renewed base p p' (some .long)
  /-- For a short link the shortener is asked once, with the link to the state of the moment,
  and its answer is shown. -/
  | short (text : String) : p.panel.shorten (Share.link base p.desk.state) = .ok text →
      p'.panel.share.link = text →
      p'.panel.asked = p.panel.asked ++ [Share.link base p.desk.state] →
      Renewed base p p' (some .short)
  /-- It is asked in the same way if it gives no link, and a fixed text is shown. -/
  | failed (e : PlaygroundError) : p.panel.shorten (Share.link base p.desk.state) = .error e →
      p'.panel.share.link = noShortLink →
      p'.panel.asked = p.panel.asked ++ [Share.link base p.desk.state] →
      Renewed base p p' (some .short)

/-- The requests of a step, by the kind of link that it makes anew. -/
def requests (base : String) (s : State) : Option LinkLength → List String
  | some .short => [Share.link base s]
  | _ => []

theorem Renewed.asked_eq {base : String} {p p' : Page} {length? : Option LinkLength}
    (h : Renewed base p p' length?) :
    p'.panel.asked = p.panel.asked ++ requests base p.desk.state length? := by
  cases h with
  | kept _ hasked => rw [hasked]; exact (List.append_nil _).symm
  | long _ hasked => rw [hasked]; exact (List.append_nil _).symm
  | short _ _ _ hasked => exact hasked
  | failed _ _ _ hasked => exact hasked

/-- A link that is made anew is of the kind that the panel has by then. -/
theorem renewed_refresh {base : String} {p p' : Page} {c : ControlPanel}
    (hbase : c.base = base) (hshorten : c.shorten = p.panel.shorten)
    (hasked : c.asked = p.panel.asked) (hp : p'.panel = c.refresh p.desk.state) :
    Renewed base p p' (some c.share.length) := by
  obtain ⟨⟨isOpen, length, link⟩, cbase, shorten, asked⟩ := c
  dsimp only at hbase hshorten hasked
  subst hbase hshorten hasked
  cases length with
  | long =>
    refine .long ?_ ?_
    · rw [hp]
      rfl
    · rw [hp]
      exact List.append_nil _
  | short =>
    cases hanswer : p.panel.shorten (Share.link cbase p.desk.state) with
    | ok text =>
      refine .short text hanswer ?_ ?_
      · rw [hp]
        simp [ControlPanel.refresh, SharePanel.refresh, SharePanel.linkFor, hanswer]
      · rw [hp]
        rfl
    | error e =>
      refine .failed e hanswer ?_ ?_
      · rw [hp]
        simp [ControlPanel.refresh, SharePanel.refresh, SharePanel.linkFor, hanswer]
      · rw [hp]
        rfl

section Step

variable {base : String} {h : List Step} {p : Page}

/-- A click on the button opens a panel that is closed. -/
theorem Tracks.opens_eq (ht : Tracks base h p) :
    p.panel.share.opens .button = !decide (Odd (buttons h)) := by
  have hopen : p.panel.share.isOpen = decide (Odd (buttons h)) :=
    Bool.eq_iff_iff.mpr (ht.isOpen_iff.trans decide_eq_true_iff.symm)
  rw [← hopen]
  rfl

/-- A step does to the link and to the requests what the history tells. -/
theorem Tracks.renewed (ht : Tracks base h p) (s : Step) :
    Renewed base p (p.act s) (renewal? h s) := by
  cases s with
  | desk a => exact .kept rfl rfl
  | answers shorten => exact .kept rfl rfl
  | select length =>
    exact renewed_refresh (c := { p.panel with share := { p.panel.share with length } })
      ht.base_eq rfl rfl rfl
  | click target =>
    cases target with
    | panel => exact .kept rfl rfl
    | outside => exact .kept rfl rfl
    | button =>
      rw [renewal?, act, ControlPanel.click, ht.opens_eq]
      by_cases hodd : Odd (buttons h)
      · rw [if_pos hodd, decide_eq_true hodd]
        exact .kept rfl rfl
      · rw [if_neg hodd, decide_eq_false hodd, ← ht.length_eq]
        exact renewed_refresh (c := { p.panel with share := p.panel.share.click .button })
          ht.base_eq rfl rfl rfl

/-- A new link leaves the rest of the panel as the click made it. -/
theorem share_click (c : ControlPanel) (target : ClickTarget) (s : State) :
    (c.click target s).1.share.isOpen = (c.share.click target).isOpen ∧
      (c.click target s).1.share.length = (c.share.click target).length ∧
      (c.click target s).1.base = c.base := by
  rw [ControlPanel.click]
  split <;> exact ⟨rfl, rfl, rfl⟩

theorem Tracks.step (ht : Tracks base h p) (s : Step) : Tracks base (h ++ [s]) (p.act s) := by
  obtain ⟨hopen, hlength, hbase⟩ := ht
  cases s with
  | desk a => exact ⟨by rwa [buttons_concat], by rwa [lengthAfter_concat], hbase⟩
  | answers shorten => exact ⟨by rwa [buttons_concat], by rwa [lengthAfter_concat], hbase⟩
  | select length => exact ⟨by rwa [buttons_concat], by rw [lengthAfter_concat]; rfl, hbase⟩
  | click target =>
    obtain ⟨hopen', hlength', hbase'⟩ := share_click p.panel target p.desk.state
    refine ⟨?_, ?_, hbase'.trans hbase⟩
    · rw [act, hopen', buttons_concat]
      cases target with
      | button =>
        show (!p.panel.share.isOpen) = true ↔ Odd (buttons h + 1)
        rw [Nat.odd_add_one, ← hopen, Bool.not_eq_true', Bool.not_eq_true]
      | panel => exact hopen
      | outside => exact iff_of_false Bool.false_ne_true Nat.not_odd_zero
    · rw [act, hlength', lengthAfter_concat]
      cases target <;> exact hlength

end Step

/-! ## Runs -/

section Run

variable (d : Desk) (base : String) (shorten : Shortener)

theorem tracks_run (h : List Step) : Tracks base h ((start d base shorten).run h) := by
  induction h using List.reverseRecOn with
  | nil => exact ⟨iff_of_false Bool.false_ne_true Nat.not_odd_zero, rfl, rfl⟩
  | append_singleton h s ih =>
    rw [run_concat]
    exact ih.step s

/-- The panel has no part in what happens on the desk. -/
theorem desk_run (h : List Step) :
    ((start d base shorten).run h).desk = d.run (h.filterMap Step.action?) := by
  induction h using List.reverseRecOn with
  | nil => rfl
  | append_singleton h s ih =>
    have hrun : d.run (h.filterMap Step.action? ++ [s].filterMap Step.action?) =
        (d.run (h.filterMap Step.action?)).run ([s].filterMap Step.action?) := List.foldl_append
    rw [run_concat, List.filterMap_append, hrun, ← ih]
    cases s <;> rfl

/-- The shortener has been asked in the steps that made a short link, once in each. -/
theorem asked_run (h : List Step) :
    ((start d base shorten).run h).panel.asked = (moments h).flatMap fun m =>
      requests base ((start d base shorten).run m.1).desk.state (renewal? m.1 m.2) := by
  induction h using List.reverseRecOn with
  | nil => rfl
  | append_singleton h s ih =>
    rw [run_concat, ((tracks_run d base shorten h).renewed s).asked_eq, ih, moments_concat,
      List.flatMap_append, List.flatMap_singleton]

/-- The panel is open after an odd number of clicks on its button since the last click
outside.  The shortener has been asked once in each step that opened the panel with a short
link or chose a short link, and in no other, with the link to the state of the moment.  Such a
step shows its answer, or a fixed text if there is none.  A step that makes a long link shows
the link to the state of the moment.  Any other step leaves the link as it was. -/
theorem links_follow_history (h : List Step) :
    let p := (start d base shorten).run h
    (p.panel.share.isOpen = true ↔ Odd (buttons h)) ∧
    p.panel.share.length = lengthAfter h ∧
    p.desk = d.run (h.filterMap Step.action?) ∧
    p.panel.asked = ((moments h).flatMap fun m =>
      requests base (d.run (m.1.filterMap Step.action?)).state (renewal? m.1 m.2)) ∧
    (∀ s, Renewed base p (p.act s) (renewal? h s)) ∧
    ∀ target, (p.panel.click target p.desk.state).2 =
      (renewal? h (.click target)).map fun _ => (p.act (.click target)).panel.share.link := by
  intro p
  have htracks : Tracks base h p := tracks_run d base shorten h
  refine ⟨htracks.isOpen_iff, htracks.length_eq, desk_run d base shorten h, ?_,
    htracks.renewed, fun target => ?_⟩
  · rw [asked_run]
    simp only [desk_run]
  · cases target with
    | panel => rfl
    | outside => rfl
    | button =>
      rw [renewal?, act, ControlPanel.click, htracks.opens_eq]
      by_cases hodd : Odd (buttons h)
      · rw [if_pos hodd, decide_eq_true hodd]
        rfl
      · rw [if_neg hodd, decide_eq_false hodd]
        rfl

end Run

end Page

end Playground
