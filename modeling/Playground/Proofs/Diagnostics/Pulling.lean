import Playground.Proofs.Diagnostics.Hiding

/-!
# Pulling entries

Entries that are pulled one by one are those of the whole list, from the first one on
(`pull_of_parse`).  The records that have been read by then end with the one that gave the
last entry, and are all of them only if there are fewer entries than were asked for
(`Reached`).  What is behind them is not read, so it does not matter whether it can be corrected
(`pull_append_of_le`).  Lines of a log that are made records as they are read are read like the
records (`pullLog_eq`).

`Listed` says record by record which entries there are.
-/

namespace Playground

open Text

variable {o : LineOffset} {verbose : Bool}

/-! ## One record -/

theorem pull_nil (o : LineOffset) (verbose : Bool) (n : Nat) :
    pull o verbose n [] = .ok .nothing := by
  cases n <;> rfl

theorem pull_zero (rs : List Record) : pull o verbose 0 rs = .ok .nothing := by
  cases rs <;> rfl

/-- A record that gives an entry is the last one that is read for the entry. -/
theorem pull_cons_some {n : Nat} {r : Record} {rs : List Record} {e : Entry}
    (hr : r.entry? o verbose = .ok (some e)) :
    pull o verbose (n + 1) (r :: rs) = (pull o verbose n rs).map (Pulled.after (some e)) := by
  simp only [pull, pullFrom, id_eq, hr, bind, Except.bind]
  rfl

/-- A record that gives no entry is passed over. -/
theorem pull_cons_none {n : Nat} {r : Record} {rs : List Record}
    (hr : r.entry? o verbose = .ok none) :
    pull o verbose (n + 1) (r :: rs) = (pull o verbose (n + 1) rs).map (Pulled.after none) := by
  simp only [pull, pullFrom, id_eq, hr, bind, Except.bind]
  rfl

theorem pull_cons_error {n : Nat} {r : Record} {rs : List Record} {e : LineOffset.Failure}
    (hr : r.entry? o verbose = .error e) : pull o verbose (n + 1) (r :: rs) = .error e := by
  simp only [pull, pullFrom, id_eq, hr, bind, Except.bind]

/-- What becomes of the records, one by one. -/
inductive Listed (o : LineOffset) (verbose : Bool) : List Record → List Entry → Prop where
  | nil : Listed o verbose [] []
  /-- Output of the program is an entry as it is. -/
  | program (message : String) (stderr : Bool) {rs : List Record} {es : List Entry} :
      Listed o verbose rs es →
      Listed o verbose (.program message stderr :: rs) (⟨message, stderr, false⟩ :: es)
  /-- A line of the compiler is an entry of the error stream, with its line numbers moved. -/
  | compiler (message : String) (text : List Char) {rs : List Record} {es : List Entry} :
      verbose = true ∨ isErrorOrWarning message.toList = true →
      correctLineNumbers o message.toList = .ok text → Listed o verbose rs es →
      Listed o verbose (.compiler message :: rs) (⟨String.ofList text, true, true⟩ :: es)
  /-- With a hidden log, a line that is no error and no warning is no entry. -/
  | hidden (message : String) {rs : List Record} {es : List Entry} :
      verbose = false → isErrorOrWarning message.toList = false → Listed o verbose rs es →
      Listed o verbose (.compiler message :: rs) es

theorem Listed.cons {r : Record} {rs : List Record} {e? : Option Entry} {es : List Entry}
    (hr : r.entry? o verbose = .ok e?) (h : Listed o verbose rs es) :
    Listed o verbose (r :: rs) (e?.toList ++ es) := by
  cases r with
  | program message stderr =>
    cases hr
    exact .program message stderr h
  | compiler message =>
    rw [Record.entry?] at hr
    split at hr
    · next hkept =>
      obtain ⟨text, htext, rfl⟩ := map_eq_ok_iff.mp hr
      exact .compiler message text (Bool.or_eq_true_iff.mp hkept) htext h
    · next hhidden =>
      cases hr
      rw [Bool.not_eq_true, Bool.or_eq_false_iff] at hhidden
      exact .hidden message hhidden.1 hhidden.2 h

/-! ## All records -/

/-- The records that have been read when `n` entries of `es` were asked for. -/
inductive Reached (o : LineOffset) (verbose : Bool) (rs : List Record) (es : List Entry) :
    Nat → Nat → Prop where
  /-- None for no entry. -/
  | none : Reached o verbose rs es 0 0
  /-- Those up to the record that gave the last entry. -/
  | entry {n : Nat} {before after : List Record} {r : Record} {e : Entry} :
      rs = before ++ r :: after → parse o verbose before = .ok (es.take n) →
      r.entry? o verbose = .ok (some e) → es[n]? = some e →
      Reached o verbose rs es (n + 1) (before.length + 1)
  /-- All of them, if there are not so many entries. -/
  | all {n : Nat} : es.length < n → Reached o verbose rs es n rs.length

theorem Reached.cons {n k : Nat} {r : Record} {rs : List Record} {e? : Option Entry}
    {es : List Entry} (hr : r.entry? o verbose = .ok e?)
    (h : Reached o verbose rs es n k) (hn : n = 0 → e?.isSome) :
    Reached o verbose (r :: rs) (e?.toList ++ es) (e?.toList.length + n) (k + 1) := by
  cases h with
  | none =>
    cases e? with
    | none => cases hn rfl
    | some e => exact .entry (List.nil_append _).symm rfl hr rfl
  | @entry n before after r' e hrs hbefore hr' he =>
    rw [hrs, ← List.cons_append, ← Nat.add_assoc]
    refine .entry rfl ?_ hr' ?_
    · rw [List.take_length_add_append]
      exact parse_cons_eq_ok_iff.mpr ⟨_, _, hr, hbefore, rfl⟩
    · rw [List.getElem?_append_right (Nat.le_add_right ..), Nat.add_sub_cancel_left]
      exact he
  | all hlt =>
    refine .all ?_
    rw [List.length_append]
    omega

theorem listed_of_parse {rs : List Record} {es : List Entry} (h : parse o verbose rs = .ok es) :
    Listed o verbose rs es := by
  induction rs generalizing es with
  | nil =>
    cases h
    exact .nil
  | cons r rs ih =>
    obtain ⟨e?, fs, hr, hrs, rfl⟩ := parse_cons_eq_ok_iff.mp h
    exact (ih hrs).cons hr

/-- The entries that are pulled are the first ones, and the records behind the last of them
are not read. -/
theorem pull_of_parse {rs : List Record} {es : List Entry} (h : parse o verbose rs = .ok es)
    (n : Nat) :
    ∃ k, pull o verbose n rs = .ok ⟨es.take n, k⟩ ∧ Reached o verbose rs es n k := by
  induction rs generalizing es n with
  | nil =>
    cases h
    refine ⟨0, by rw [pull_nil]; cases n <;> rfl, ?_⟩
    cases n with
    | zero => exact .none
    | succ n => exact .all (Nat.succ_pos n)
  | cons r rs ih =>
    obtain ⟨e?, fs, hr, hrs, rfl⟩ := parse_cons_eq_ok_iff.mp h
    cases n with
    | zero => exact ⟨0, pull_zero _, .none⟩
    | succ n =>
      cases e? with
      | some e =>
        obtain ⟨k, hk, hreached⟩ := ih hrs n
        refine ⟨k + 1, by rw [pull_cons_some hr, hk]; rfl, ?_⟩
        have hcons := hreached.cons hr fun _ => rfl
        rwa [Option.toList_some, List.length_singleton, Nat.add_comm 1] at hcons
      | none =>
        obtain ⟨k, hk, hreached⟩ := ih hrs (n + 1)
        refine ⟨k + 1, by rw [pull_cons_none hr, hk]; rfl, ?_⟩
        have hcons := hreached.cons hr fun h => absurd h (Nat.succ_ne_zero n)
        rwa [Option.toList_none, List.length_nil, Nat.zero_add] at hcons

/-! ## Records that cannot be corrected -/

/-- Nothing is read behind records that give all entries that are asked for. -/
theorem pull_append_of_le {rs : List Record} {es : List Entry} (h : parse o verbose rs = .ok es)
    {n : Nat} (hn : n ≤ es.length) (rest : List Record) :
    pull o verbose n (rs ++ rest) = pull o verbose n rs := by
  induction rs generalizing es n with
  | nil =>
    cases h
    cases Nat.le_zero.mp hn
    rw [pull_zero, pull_zero]
  | cons r rs ih =>
    obtain ⟨e?, fs, hr, hrs, rfl⟩ := parse_cons_eq_ok_iff.mp h
    rw [List.cons_append]
    cases n with
    | zero => rfl
    | succ n =>
      cases e? with
      | some e =>
        rw [pull_cons_some hr, pull_cons_some hr, ih hrs (Nat.le_of_succ_le_succ hn)]
      | none => rw [pull_cons_none hr, pull_cons_none hr, ih hrs hn]

/-- Of a record that cannot be corrected nothing comes, as soon as an entry behind those of the
records in front of it is asked for. -/
theorem pull_append_of_lt {before after : List Record} {r : Record} {es : List Entry}
    {e : LineOffset.Failure} (h : parse o verbose before = .ok es)
    (hr : r.entry? o verbose = .error e) {n : Nat} (hn : es.length < n) :
    pull o verbose n (before ++ r :: after) = .error e := by
  induction before generalizing es n with
  | nil =>
    obtain ⟨n, rfl⟩ := Nat.exists_eq_succ_of_ne_zero (Nat.ne_zero_of_lt hn)
    exact pull_cons_error hr
  | cons b before ih =>
    obtain ⟨e?, fs, hb, hbefore, rfl⟩ := parse_cons_eq_ok_iff.mp h
    obtain ⟨n, rfl⟩ := Nat.exists_eq_succ_of_ne_zero (Nat.ne_zero_of_lt hn)
    rw [List.cons_append]
    cases e? with
    | some f =>
      rw [pull_cons_some hb, ih hbefore (Nat.lt_of_succ_lt_succ hn)]
      rfl
    | none =>
      rw [pull_cons_none hb, ih hbefore hn]
      rfl

/-- Without entries of all records there is a first one that cannot be corrected. -/
theorem exists_first_error {rs : List Record} {e : LineOffset.Failure}
    (h : parse o verbose rs = .error e) :
    ∃ before r after es, rs = before ++ r :: after ∧ parse o verbose before = .ok es ∧
      r.entry? o verbose = .error e := by
  induction rs with
  | nil => cases h
  | cons r rs ih =>
    cases hr : r.entry? o verbose with
    | error d =>
      simp only [parse, List.mapM_cons, hr] at h
      cases h
      exact ⟨[], r, rs, [], rfl, rfl, hr⟩
    | ok e? =>
      have hrs : parse o verbose rs = .error e := by
        cases hrs : parse o verbose rs with
        | ok fs => cases h.symm.trans (parse_cons_eq_ok_iff.mpr ⟨_, _, hr, hrs, rfl⟩)
        | error d =>
          rw [parse, map_eq_error_iff] at h hrs
          rw [List.mapM_cons, hr, hrs] at h
          rw [Except.error.inj h]
      obtain ⟨before, b, after, es, rfl, hbefore, hb⟩ := ih hrs
      exact ⟨r :: before, b, after, _, rfl, parse_cons_eq_ok_iff.mpr ⟨_, _, hr, hbefore, rfl⟩, hb⟩

/-! ## Logs -/

/-- It makes no difference when the items are made records. -/
theorem pullFrom_eq {α : Type} (record : α → Record) (o : LineOffset) (verbose : Bool) (n : Nat)
    (as : List α) : pullFrom record o verbose n as = pull o verbose n (as.map record) := by
  rw [pull]
  induction as generalizing n with
  | nil => cases n <;> rfl
  | cons a as ih =>
    cases n with
    | zero => rfl
    | succ n =>
      rw [List.map_cons, pullFrom, ih, ih]
      rfl

theorem pullLog_eq (o : LineOffset) (verbose : Bool) (n : Nat) (lines : List String) :
    pullLog o verbose n lines = pull o verbose n (lines.map .compiler) :=
  pullFrom_eq .compiler o verbose n lines

/-- Pulling `n` entries gives the first `n` of all entries, and reads the records up to the
one of the last entry, whatever is behind it.  The entries are those of the output of the
program, as it is, and of the lines of the compiler that are shown, in the order of the records.
A line that is shown and has a gutter too wide to be corrected is a failure when it is read, and
not before.  From the lines of a log the same is pulled, line for line, as from its records. -/
theorem pulls_no_further (ho : o.headerLines + o.includeLine < wordBound) (verbose : Bool) :
    (∀ rs es, parse o verbose rs = .ok es → Listed o verbose rs es ∧
      ∀ n, ∃ k, pull o verbose n rs = .ok ⟨es.take n, k⟩ ∧ Reached o verbose rs es n k ∧
        ∀ rest, n ≤ es.length → pull o verbose n (rs ++ rest) = .ok ⟨es.take n, k⟩) ∧
    (∀ rs, (∃ es, parse o verbose rs = .ok es) ↔ (verbose = true → ∀ r ∈ rs, ¬r.Overwide o)) ∧
    (∀ rs, (∀ es, parse o verbose rs ≠ .ok es) →
      ∃ before r after es, rs = before ++ r :: after ∧ r.Overwide o ∧
        parse o verbose before = .ok es ∧
        ∀ n, es.length < n → pull o verbose n rs = .error .tooWide) ∧
    ∀ lines n, parseLog o verbose lines = parse o verbose (lines.map .compiler) ∧
      pullLog o verbose n lines = pull o verbose n (lines.map .compiler) := by
  have hcorrect := LineOffset.correct_eq_origin (o := o) (by omega)
  refine ⟨fun rs es hes => ⟨listed_of_parse hes, fun n => ?_⟩, fun rs => exists_parse_iff hcorrect,
    fun rs hnone => ?_, fun lines n => ⟨rfl, pullLog_eq o verbose n lines⟩⟩
  · obtain ⟨k, hk, hreached⟩ := pull_of_parse hes n
    exact ⟨k, hk, hreached, fun rest hn => (pull_append_of_le hes hn rest).trans hk⟩
  · cases hrs : parse o verbose rs with
    | ok es => exact absurd hrs (hnone es)
    | error e =>
      obtain ⟨before, r, after, es, rfl, hbefore, hr⟩ := exists_first_error hrs
      obtain ⟨rfl, -, hwide⟩ := (Record.entry?_eq_error_iff hcorrect).mp hr
      exact ⟨before, r, after, es, rfl, hwide, hbefore, fun n => pull_append_of_lt hbefore hr⟩

/-- The entries of a note, an excerpt and output of the program, and of the same behind an
error, with the log hidden. -/
def quietEntries : List Entry :=
  [.program "<source>:120:1: note" false,
    .compiler "<source>:99999999999999999999:1: fatal error: <source>:20 ",
    .program "<source>:120:1: note" false]

theorem pulls_no_further_chatter :
    100 + 1 < wordBound ∧
    pull ⟨100, 1⟩ false 2 (chatter ++ complaint) = .ok ⟨quietEntries.take 2, 4⟩ ∧
    Reached ⟨100, 1⟩ false (chatter ++ complaint) quietEntries 2 4 ∧
    Reached ⟨100, 1⟩ false (chatter ++ complaint) quietEntries 9 7 := by
  have hfits : 100 + 1 < wordBound := by decide
  obtain ⟨hrecords, -⟩ := pulls_no_further (o := ⟨100, 1⟩) hfits false
  have hall : parse ⟨100, 1⟩ false (chatter ++ complaint) = .ok quietEntries := by decide +kernel
  obtain ⟨-, hpull⟩ := hrecords (chatter ++ complaint) quietEntries hall
  have htwo : pull ⟨100, 1⟩ false 2 (chatter ++ complaint) = .ok ⟨quietEntries.take 2, 4⟩ := by
    decide +kernel
  have hmore : pull ⟨100, 1⟩ false 9 (chatter ++ complaint) = .ok ⟨quietEntries.take 9, 7⟩ := by
    decide +kernel
  obtain ⟨k, hk, hreached, -⟩ := hpull 2
  obtain ⟨k', hk', hreached', -⟩ := hpull 9
  rw [htwo] at hk
  rw [hmore] at hk'
  cases hk
  cases hk'
  exact ⟨hfits, htwo, hreached, hreached'⟩

/-- No entry can be pulled from an excerpt whose gutter is too wide. -/
theorem pulls_nothing_wideExcerpt :
    491 + 1 < wordBound ∧
    pull ⟨491, 1⟩ true 1 [.compiler (String.ofList wideExcerpt)] = .error .tooWide := by
  have hfits : 491 + 1 < wordBound := by decide
  have hwide : Record.Overwide ⟨491, 1⟩ (.compiler (String.ofList wideExcerpt)) := by
    rw [Record.Overwide, String.toList_ofList]
    exact overwide_wideExcerpt (by decide)
  exact ⟨hfits, pull_cons_error ((Record.entry?_eq_error_iff
    (LineOffset.correct_eq_origin hfits)).mpr ⟨rfl, rfl, hwide⟩)⟩

end Playground
