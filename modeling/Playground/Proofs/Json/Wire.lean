import Playground.Json.Wire
import Playground.Proofs.Json.Printed

/-!
# Values on the wire

Every value that leaves the playground is found again in its text, and whatever text a value has
been read from, it is found again in its own one (`wire_values_survive`).  The second follows from
the first, since a reader gives numbers below `wordBound` only.

    write    the value can be printed, so its text is read as what was written
    read     what was written is read as the value
-/

namespace Playground

open Json Text

/-! ## Numbers -/

theorem asWord?_ofNat {n : Nat} (h : n < wordBound) : (Json.ofNat n).asWord? = some n := by
  simp [Json.ofNat, asWord?, Number.word?, Number.ofNat, h]

theorem lt_of_asWord? {v : Json} {n : Nat} (h : v.asWord? = some n) : n < wordBound := by
  cases v with
  | number k =>
    simp only [asWord?, Number.word?] at h
    split at h
    · next hk =>
      cases h
      simp only [Bool.and_eq_true, decide_eq_true_eq] at hk
      exact hk.2
    · cases h
  | _ => cases h

@[simp]
theorem printable_ofNat (n : Nat) : Printable (.ofNat n) := .number fun _ => rfl

attribute [simp] Printable.bool Printable.text

/-! ## Surviving -/

/-- The value of a text, if the JSON value in it is read as one. -/
def valueOf? {α : Type} (read? : Json → Option α) (s : String) : Option α := (ofText? s).bind read?

/-- The values of a type survive being written and read.  Those with numbers in range are the
values. -/
structure Survives {α : Type} (write : α → Json) (read? : Json → Option α) (InRange : α → Prop) :
    Prop where
  /-- A value is found again in its text. -/
  found : ∀ a, InRange a → valueOf? read? (write a).plain = some a
  /-- What was read from any text is a value, and is found again in its own text, which stays
  the same. -/
  again : ∀ s a, valueOf? read? s = some a → InRange a ∧ valueOf? read? (write a).plain = some a ∧
    (valueOf? read? (write a).plain).map (fun b => (write b).plain) = some (write a).plain

theorem survives_of {α : Type} {write : α → Json} {read? : Json → Option α} {InRange : α → Prop}
    (hprint : ∀ a, Printable (write a)) (hread : ∀ a, InRange a → read? (write a) = some a)
    (hrange : ∀ v a, read? v = some a → InRange a) : Survives write read? InRange := by
  have hfound : ∀ a, InRange a → valueOf? read? (write a).plain = some a := by
    intro a ha
    rw [valueOf?, ofText?_plain (hprint a), Option.bind_some, hread a ha]
  refine ⟨hfound, fun s a h => ?_⟩
  obtain ⟨v, -, hv⟩ := Option.bind_eq_some_iff.mp h
  have ha := hrange v a hv
  exact ⟨ha, hfound a ha, by rw [hfound a ha, Option.map_some]⟩

/-! ## Offsets, records and entries -/

/-- The offset counts lines of a text. -/
def LineOffset.InRange (o : LineOffset) : Prop :=
  o.headerLines < wordBound ∧ o.includeLine < wordBound

theorem LineOffset.printable_toJson (o : LineOffset) : Printable o.toJson := .array (by simp)

theorem LineOffset.ofJson?_toJson {o : LineOffset} (h : o.InRange) :
    LineOffset.ofJson? o.toJson = some o := by
  simp [toJson, ofJson?, asWord?_ofNat h.1, asWord?_ofNat h.2]

theorem LineOffset.inRange_of_ofJson? {v : Json} {o : LineOffset} (h : ofJson? v = some o) :
    o.InRange := by
  unfold LineOffset.ofJson? at h
  split at h
  · simp only [Option.bind_eq_bind, Option.bind_eq_some_iff, Option.pure_def] at h
    obtain ⟨_, hheader, _, hinclude, ho⟩ := h
    cases ho
    exact ⟨lt_of_asWord? hheader, lt_of_asWord? hinclude⟩
  · cases h

theorem Record.printable_toJson (r : Record) : Printable r.toJson := by
  cases r with
  | program message stderr => exact .ofMembers (by simp)
  | compiler message => exact .ofMembers (by simp)

theorem Record.ofJson?_toJson (r : Record) : Record.ofJson? r.toJson = some r := by
  cases r <;> rfl

theorem Entry.printable_toJson (e : Entry) : Printable e.toJson := .ofMembers (by simp)

theorem Entry.ofJson?_toJson (e : Entry) : Entry.ofJson? e.toJson = some e := rfl

/-! ## Severities and markers -/

theorem Severity.ofJson?_toJson (s : Severity) : Severity.ofJson? s.toJson = some s := by
  cases s <;> rfl

/-- The marker names a line and columns of a text. -/
def Marker.InRange (m : Marker) : Prop :=
  m.line < wordBound ∧ m.startCol < wordBound ∧ m.endCol < wordBound

theorem Marker.printable_toJson (m : Marker) : Printable m.toJson :=
  .ofMembers (by simp [Severity.toJson])

theorem Marker.ofJson?_toJson {m : Marker} (h : m.InRange) :
    Marker.ofJson? m.toJson = some m := by
  obtain ⟨hline, hstart, hend⟩ := h
  have hfields : fields? ["line", "start_col", "end_col", "severity", "source", "message"]
      m.toJson = some [some (.ofNat m.line), some (.ofNat m.startCol), some (.ofNat m.endCol),
        some m.severity.toJson, some (.text m.source), some (.text m.message)] := rfl
  simp [ofJson?, hfields, asWord?_ofNat, hline, hstart, hend, Severity.ofJson?_toJson, asText?]

theorem Marker.inRange_of_ofJson? {v : Json} {m : Marker} (h : ofJson? v = some m) :
    m.InRange := by
  simp only [Marker.ofJson?, Option.bind_eq_bind, Option.bind_eq_some_iff] at h
  obtain ⟨fields, -, h⟩ := h
  split at h
  · simp only [Option.bind_eq_some_iff, Option.pure_def] at h
    obtain ⟨_, hline, _, hstart, _, hend, _, -, _, -, _, -, hm⟩ := h
    cases hm
    exact ⟨lt_of_asWord? hline, lt_of_asWord? hstart, lt_of_asWord? hend⟩
  · cases h

/-! ## Phases and transitions -/

theorem Phase.ofJson?_toJson (p : Phase) : Phase.ofJson? p.toJson = some p := by
  cases p <;> rfl

/-- The transition has counters of 64 bits. -/
def Transition.InRange (t : Transition) : Prop :=
  t.generation < wordBound ∧ t.elapsedMs < wordBound

theorem Transition.printable_toJson (t : Transition) : Printable t.toJson := by
  obtain ⟨source, target, generation, elapsed, reason⟩ := t
  cases reason <;> exact .ofMembers (by simp [Phase.toJson])

theorem Transition.ofJson?_toJson {t : Transition} (h : t.InRange) :
    Transition.ofJson? t.toJson = some t := by
  obtain ⟨source, target, generation, elapsed, reason⟩ := t
  obtain ⟨hgeneration, helapsed⟩ := h
  dsimp only at hgeneration helapsed
  have hfields : fields? ["from", "to", "generation", "elapsed_ms", "reason"]
      (toJson ⟨source, target, generation, elapsed, reason⟩) =
        some [some source.toJson, some target.toJson, some (.ofNat generation),
          some (.ofNat elapsed), reason.map .text] := by
    cases reason <;> rfl
  cases reason <;>
    simp [ofJson?, hfields, asWord?_ofNat, hgeneration, helapsed, Phase.ofJson?_toJson, asOption?,
      asText?]

theorem Transition.inRange_of_ofJson? {v : Json} {t : Transition} (h : ofJson? v = some t) :
    t.InRange := by
  simp only [Transition.ofJson?, Option.bind_eq_bind, Option.bind_eq_some_iff] at h
  obtain ⟨fields, -, h⟩ := h
  split at h
  · simp only [Option.bind_eq_some_iff, Option.pure_def] at h
    obtain ⟨_, -, _, -, _, hgeneration, _, helapsed, _, -, ht⟩ := h
    cases ht
    exact ⟨lt_of_asWord? hgeneration, lt_of_asWord? helapsed⟩
  · cases h

/-! ## States -/

theorem State.printable_toJson (s : State) : Printable s.toJson := .ofMembers (by simp)

theorem State.ofJson?_toJson (s : State) : State.ofJson? s.toJson = some s := rfl

/-! ## All values -/

/-- The values of every type on the wire survive being written and read. -/
theorem wire_values_survive :
    Survives LineOffset.toJson LineOffset.ofJson? LineOffset.InRange ∧
    Survives Record.toJson Record.ofJson? (fun _ => True) ∧
    Survives Entry.toJson Entry.ofJson? (fun _ => True) ∧
    Survives Marker.toJson Marker.ofJson? Marker.InRange ∧
    Survives Severity.toJson Severity.ofJson? (fun _ => True) ∧
    Survives Phase.toJson Phase.ofJson? (fun _ => True) ∧
    Survives Transition.toJson Transition.ofJson? Transition.InRange ∧
    Survives State.toJson State.ofJson? (fun _ => True) := by
  refine ⟨?offset, ?record, ?entry, ?marker, ?severity, ?phase, ?transition, ?state⟩
  case offset =>
    exact survives_of LineOffset.printable_toJson (fun _ => LineOffset.ofJson?_toJson)
      fun _ _ => LineOffset.inRange_of_ofJson?
  case record =>
    exact survives_of Record.printable_toJson (fun r _ => r.ofJson?_toJson) fun _ _ _ => trivial
  case entry =>
    exact survives_of Entry.printable_toJson (fun e _ => e.ofJson?_toJson) fun _ _ _ => trivial
  case marker =>
    exact survives_of Marker.printable_toJson (fun _ => Marker.ofJson?_toJson)
      fun _ _ => Marker.inRange_of_ofJson?
  case severity =>
    exact survives_of (fun _ => .text _) (fun s _ => s.ofJson?_toJson) fun _ _ _ => trivial
  case phase =>
    exact survives_of (fun _ => .text _) (fun p _ => p.ofJson?_toJson) fun _ _ _ => trivial
  case transition =>
    exact survives_of Transition.printable_toJson (fun _ => Transition.ofJson?_toJson)
      fun _ _ => Transition.inRange_of_ofJson?
  case state =>
    exact survives_of State.printable_toJson (fun s _ => s.ofJson?_toJson) fun _ _ _ => trivial

/-- The greatest counters, and a reason with characters that are escaped. -/
def escapedTransition : Transition :=
  ⟨.compiling, .rendered, wordBound - 1, 0, some "\"\\\n\x01é😀"⟩

/-- A program record as a sequence, in which the tag comes first. -/
def recordSequence : String := " [\"program\", \"\\u00e9\\ud83d\\ude00\", true] "

theorem wire_values_survive_escaped :
    valueOf? Transition.ofJson? escapedTransition.toJson.plain = some escapedTransition ∧
    valueOf? Record.ofJson? recordSequence = some (.program "é😀" true) ∧
    valueOf? Record.ofJson? (Record.program "é😀" true).toJson.plain =
      some (.program "é😀" true) := by
  obtain ⟨-, hrecord, -, -, -, -, htransition, -⟩ := wire_values_survive
  have hsequence : valueOf? Record.ofJson? recordSequence = some (.program "é😀" true) := by
    decide +kernel
  exact ⟨htransition.found _ ⟨by decide, by decide⟩, hsequence, (hrecord.again _ _ hsequence).2.1⟩

end Playground
