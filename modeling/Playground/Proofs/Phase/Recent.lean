import Mathlib.Data.List.Chain
import Mathlib.Data.List.DropRight
import Playground.Phase

/-!
# The most recent transitions

A log of phases is called in two ways: a new generation is opened, or a transition is asked
for.  The history of a log (`granted`) is made of the transitions that it has granted, each
with the phase before it and the number of generations opened by then.

    phase        the target of the last transition of the history
    total        the length of the history
    kept         the end of the history, as far as the capacity goes
    generation   the number of generations opened

`Follows` states this of one log, and `kept_eq_recent` of every log that has been called
any number of times.  One more transition drops the oldest one exactly if there are as many
as may be kept (`makeRoom_rtake`).
-/

namespace Playground

namespace Phase

/-- The transitions that may happen. -/
def table : List (Phase × Phase) :=
  [(idle, pendingCompile), (pendingCompile, pendingCompile), (pendingCompile, compiling),
    (compiling, pendingCompile), (compiling, rendered), (rendered, pendingCompile)]

theorem allows_iff_mem_table (p q : Phase) : p.allows q = true ↔ (p, q) ∈ table := by
  cases p <;> cases q <;> decide

end Phase

namespace PhaseLog

/-! ## Calls -/

/-- A call of a log. -/
inductive Call where
  /-- Opens a new generation. -/
  | nextGeneration
  /-- Asks for a transition. -/
  | advance (elapsedMs : Nat) (target : Phase) (reason : Option String)
deriving DecidableEq, Repr

/-- The log behind a call.  A transition that is refused leaves it as it is. -/
def call (l : PhaseLog) : Call → PhaseLog
  | .nextGeneration => l.nextGeneration
  | .advance ms target reason => (l.advance ms target reason).toOption.getD l

/-- The log behind some calls. -/
def calls (l : PhaseLog) (cs : List Call) : PhaseLog := cs.foldl call l

/-- The transitions that are granted in some calls, oldest first, where `opened` generations
have been opened before. -/
def granted (l : PhaseLog) (opened : Nat) : List Call → List Transition
  | [] => []
  | .nextGeneration :: cs => l.nextGeneration.granted (opened + 1) cs
  | .advance ms target reason :: cs =>
    match l.advance ms target reason with
    | .ok l' => ⟨l.current, target, opened, ms, reason⟩ :: l'.granted opened cs
    | .error _ => l.granted opened cs

/-- A transition that the table has is granted. -/
theorem advance_of_allows {l : PhaseLog} {target : Phase} (h : l.current.allows target) (ms : Nat)
    (reason : Option String) : l.advance ms target reason = .ok {
      current := target
      generation := l.generation
      kept := makeRoom l.kept ++ [⟨l.current, target, l.generation, ms, reason⟩]
      total := l.total + 1 } :=
  if_pos h

/-- Any other transition is refused. -/
theorem advance_of_not_allows {l : PhaseLog} {target : Phase} (h : ¬l.current.allows target)
    (ms : Nat) (reason : Option String) :
    l.advance ms target reason = .error ⟨l.current, target⟩ :=
  if_neg h

theorem call_of_not_allows {l : PhaseLog} {target : Phase} (h : ¬l.current.allows target)
    (ms : Nat) (reason : Option String) : l.call (.advance ms target reason) = l := by
  rw [call, advance_of_not_allows h]
  rfl

theorem advance_generation {l l' : PhaseLog} {ms : Nat} {target : Phase} {reason : Option String}
    (h : l.advance ms target reason = .ok l') : l'.generation = l.generation := by
  unfold PhaseLog.advance at h
  split at h
  · cases h
    rfl
  · cases h

/-- A transition is granted exactly if the table has it. -/
theorem exists_advance_eq_ok_iff {l : PhaseLog} {ms : Nat} {target : Phase}
    {reason : Option String} :
    (∃ l', l.advance ms target reason = .ok l') ↔ (l.current, target) ∈ Phase.table := by
  rw [← Phase.allows_iff_mem_table]
  constructor
  · rintro ⟨l', hl'⟩
    by_contra hrefused
    rw [advance_of_not_allows hrefused] at hl'
    cases hl'
  · intro h
    exact ⟨_, advance_of_allows h ms reason⟩

/-! ## The history of a log -/

/-- Room for one more transition is made by leaving out the oldest one of as many as may be
kept. -/
theorem makeRoom_rtake (h : List Transition) :
    makeRoom (h.rtake capacity) = h.rtake (capacity - 1) := by
  have hlength : (h.rtake capacity).length = min capacity h.length := by
    rw [List.rtake, List.length_drop]
    omega
  rw [makeRoom, hlength]
  split
  · next hfull =>
    have hle : capacity ≤ h.length := by omega
    rw [List.rtake, List.rtake, List.drop_drop]
    congr 1
    simp only [capacity] at hle ⊢
    omega
  · next hroom =>
    have hlt : h.length < capacity := by omega
    rw [List.rtake, List.rtake, Nat.sub_eq_zero_of_le (Nat.le_of_lt hlt),
      Nat.sub_eq_zero_of_le (Nat.le_sub_one_of_lt hlt)]

/-- The log is what the transitions leave behind. -/
structure Follows (h : List Transition) (l : PhaseLog) : Prop where
  /-- All transitions have been counted. -/
  total : l.total = h.length
  /-- The most recent ones are kept. -/
  kept : l.kept = h.rtake capacity
  /-- The last one has led to the phase. -/
  current : l.current = h.getLast?.elim .idle Transition.target
  /-- Each begins where the one before it ends. -/
  isChain : h.IsChain fun s t => s.target = t.source
  /-- The generations never go back. -/
  ordered : h.Pairwise (·.generation ≤ ·.generation)
  /-- None is newer than the generation of the log. -/
  generation_le : ∀ t ∈ h, t.generation ≤ l.generation

namespace Follows

variable {h : List Transition} {l : PhaseLog}

theorem start : Follows [] .start where
  total := rfl
  kept := rfl
  current := rfl
  isChain := .nil
  ordered := .nil
  generation_le := by simp

theorem nextGeneration (hl : Follows h l) : Follows h l.nextGeneration where
  total := hl.total
  kept := hl.kept
  current := hl.current
  isChain := hl.isChain
  ordered := hl.ordered
  generation_le t ht := Nat.le_succ_of_le (hl.generation_le t ht)

/-- A transition that is granted is the next one of the history. -/
theorem advance (hl : Follows h l) {ms : Nat} {target : Phase} {reason : Option String}
    {l' : PhaseLog} (hadvance : l.advance ms target reason = .ok l') :
    Follows (h ++ [⟨l.current, target, l.generation, ms, reason⟩]) l' := by
  have hallows : l.current.allows target := by
    by_contra hrefused
    rw [advance_of_not_allows hrefused] at hadvance
    cases hadvance
  rw [advance_of_allows hallows] at hadvance
  cases hadvance
  constructor
  case total => simp [hl.total]
  case kept =>
    show makeRoom l.kept ++ _ = _
    rw [hl.kept, makeRoom_rtake]
    exact (List.rtake_concat_succ h (capacity - 1) _).symm
  case current => simp
  case isChain =>
    refine List.isChain_append.mpr ⟨hl.isChain, by simp, ?_⟩
    intro s hs t ht
    have hcurrent := hl.current
    rw [Option.mem_def.mp hs] at hcurrent
    simp only [List.head?_cons, Option.mem_def, Option.some.injEq] at ht
    rw [← ht]
    exact hcurrent.symm
  case ordered =>
    refine List.pairwise_append.mpr ⟨hl.ordered, by simp, ?_⟩
    intro s hs t ht
    rw [List.mem_singleton.mp ht]
    exact hl.generation_le s hs
  case generation_le =>
    intro t ht
    rcases List.mem_append.mp ht with ht | ht
    · exact hl.generation_le t ht
    · rw [List.mem_singleton.mp ht]

/-- Calls go on with the history by what they are granted. -/
theorem calls (hl : Follows h l) (cs : List Call) :
    Follows (h ++ l.granted l.generation cs) (l.calls cs) ∧
      (l.calls cs).generation = l.generation + cs.count .nextGeneration := by
  induction cs generalizing h l with
  | nil => simpa [PhaseLog.calls, granted] using hl
  | cons c cs ih =>
    cases c with
    | nextGeneration =>
      obtain ⟨hfollows, hgeneration⟩ := ih hl.nextGeneration
      refine ⟨hfollows, hgeneration.trans ?_⟩
      rw [List.count_cons_self]
      show l.generation + 1 + _ = _
      omega
    | advance ms target reason =>
      have hcount : (Call.advance ms target reason :: cs).count .nextGeneration =
          cs.count .nextGeneration := List.count_cons_of_ne (by simp)
      rw [hcount, granted, PhaseLog.calls, List.foldl_cons, ← PhaseLog.calls, call]
      split
      case h_1 l' hadvance =>
        have hrest := ih (hl.advance hadvance)
        rw [advance_generation hadvance, List.append_assoc] at hrest
        rw [hadvance]
        exact hrest
      case h_2 e hadvance =>
        rw [hadvance]
        exact ih hl

end Follows

/-- The log grants a transition exactly if the table has it, and a refusal changes nothing.
It keeps the last 64 transitions of its history, or all if there are no more, and has counted
all of them.  Each transition kept begins where the one before it ends, in no older a
generation, and the last one has led to the phase. -/
theorem kept_eq_recent (cs : List Call) :
    let l := start.calls cs
    let h := start.granted 0 cs
    (∀ ms target reason, (∃ l', l.advance ms target reason = .ok l') ↔
      (l.current, target) ∈ Phase.table) ∧
    (∀ ms target reason, (l.current, target) ∉ Phase.table →
      l.advance ms target reason = .error ⟨l.current, target⟩ ∧
      l.call (.advance ms target reason) = l) ∧
    l.generation = cs.count .nextGeneration ∧
    l.total = h.length ∧
    l.kept.length = min 64 h.length ∧ l.kept = h.drop (h.length - l.kept.length) ∧
    (l.kept.IsChain fun s t => s.target = t.source) ∧
    l.kept.Pairwise (·.generation ≤ ·.generation) ∧
    l.current = l.kept.getLast?.elim .idle Transition.target ∧
    (l.kept = [] ↔ h = []) := by
  intro l h
  obtain ⟨hfollows, hgeneration⟩ := Follows.start.calls cs
  have hl : Follows h l := hfollows
  have hlength : l.kept.length = min 64 h.length := by
    rw [hl.kept, List.rtake, List.length_drop, capacity]
    omega
  have hkept : l.kept = h.drop (h.length - l.kept.length) := by
    rw [hlength, hl.kept, List.rtake, capacity]
    congr 1
    omega
  have hsuffix : l.kept <:+ h := hkept ▸ List.drop_suffix _ h
  have hnil : l.kept = [] ↔ h = [] := by
    rw [← List.length_eq_zero_iff, ← List.length_eq_zero_iff, hlength]
    omega
  refine ⟨fun _ _ _ => exists_advance_eq_ok_iff, ?_, ?_, hl.total, hlength, hkept,
    hl.isChain.suffix hsuffix, hl.ordered.sublist hsuffix.sublist, ?_, hnil⟩
  · intro ms target reason hrefused
    rw [← Phase.allows_iff_mem_table] at hrefused
    exact ⟨advance_of_not_allows hrefused ms reason, call_of_not_allows hrefused ms reason⟩
  · rw [hgeneration]
    exact Nat.zero_add _
  · rw [hl.current]
    by_cases hempty : h = []
    · rw [hnil.mpr hempty, hempty]
    · obtain ⟨before, hbefore⟩ := hsuffix
      rw [← hbefore, List.getLast?_append_of_ne_nil before (mt hnil.mp hempty)]

/-- The first call is refused, and the oldest of 65 transitions is left out. -/
example :
    let l := start.calls (.advance 0 .compiling none ::
      List.replicate 65 (.advance 0 .pendingCompile none))
    (l.kept.length, l.total, l.kept.head?.map Transition.source) =
      (64, 65, some .pendingCompile) := by
  decide +kernel

end PhaseLog

end Playground
