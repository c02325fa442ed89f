import Playground.Proofs.Json.Literals

/-!
# What is printed is read back

The compact text of a value is read as the value (`ofText?_plain`), if the value can be printed.
The first octet of a text says what kind of value follows, and the text of a value is never
longer than half the counter of its reader: an array or an object takes two octets itself, and
each element or member behind the first one takes a comma.
-/

namespace Playground.Json

open Text

/-! ## Texts of values -/

/-- The value can be printed.  Each string is a text, and a number that is written without a
point and without an exponent has no power of ten. -/
inductive Printable : Json → Prop where
  | null : Printable .null
  | bool (b : Bool) : Printable (.bool b)
  | number {n : Number} (h : n.isInteger = true → n.exponent = 0) : Printable (.number n)
  | text (s : String) : Printable (.text s)
  | array {vs : List Json} (h : ∀ v ∈ vs, Printable v) : Printable (.array vs)
  | ofMembers {ms : List (String × Json)} (h : ∀ m ∈ ms, Printable m.2) : Printable (.ofMembers ms)

/-- The octets of the text of a value. -/
def written (v : Json) : List UInt8 := Utf8.encode v.compact

/-- The octets of the elements behind the first one. -/
def writtenElements (vs : List Json) : List UInt8 := Utf8.encode (compactElements vs)

/-- The octets of a member. -/
def writtenMember (m : String × Json) : List UInt8 :=
  octet '"' :: (Utf8.encode (m.1.toList.flatMap escapeChar) ++
    octet '"' :: octet ':' :: written m.2)

/-- The octets of the members behind the first one. -/
def writtenMembers (ms : List (String × Json)) : List UInt8 :=
  Utf8.encode (compactMembers (ms.map fun m => (some m.1, m.2)))

theorem length_written_lt_writtenMember (m : String × Json) :
    (written m.2).length < (writtenMember m).length := by
  simp [writtenMember]
  omega

theorem encode_quoted (s : List Char) : Utf8.encode (quoted s) =
    octet '"' :: (Utf8.encode (s.flatMap escapeChar) ++ [octet '"']) := by
  rw [quoted, encode_cons_of_ascii (by decide), Utf8.encode_append]
  rfl

theorem written_text (s : String) : written (.text s) =
    octet '"' :: (Utf8.encode (s.toList.flatMap escapeChar) ++ [octet '"']) := by
  rw [written, compact, encode_quoted]

theorem written_array_cons (v : Json) (vs : List Json) : written (.array (v :: vs)) =
    octet '[' :: (written v ++ (writtenElements vs ++ [octet ']'])) := by
  rw [written, compact, Utf8.encode_append, Utf8.encode_append, encode_cons_of_ascii (by decide),
    List.append_assoc]
  rfl

theorem writtenElements_cons (v : Json) (vs : List Json) :
    writtenElements (v :: vs) = octet ',' :: (written v ++ writtenElements vs) := by
  rw [writtenElements, compactElements, Utf8.encode_append, encode_cons_of_ascii (by decide)]
  rfl

theorem encode_member (c : Char) (hc : c.toNat < 0x80) (m : String × Json) :
    Utf8.encode (c :: quoted m.1.toList ++ ':' :: m.2.compact) = octet c :: writtenMember m := by
  rw [Utf8.encode_append, encode_cons_of_ascii hc, encode_cons_of_ascii (by decide), encode_quoted,
    writtenMember]
  simp [written]

theorem written_ofMembers_cons (m : String × Json) (ms : List (String × Json)) :
    written (.ofMembers (m :: ms)) =
      0x7B :: (writtenMember m ++ (writtenMembers ms ++ [0x7D])) := by
  rw [written, ofMembers, List.map_cons, compact, Utf8.encode_append, Utf8.encode_append,
    Option.getD_some, encode_member _ (by decide), List.append_assoc]
  rfl

theorem writtenMembers_cons (m : String × Json) (ms : List (String × Json)) :
    writtenMembers (m :: ms) = octet ',' :: (writtenMember m ++ writtenMembers ms) := by
  rw [writtenMembers, List.map_cons, compactMembers, Utf8.encode_append, Option.getD_some,
    encode_member _ (by decide)]
  rfl

/-! ## Readers -/

/-- The value is read in front of any rest that cannot go on with it, if the counter is high
enough. -/
def ReadsBack (v : Json) : Prop :=
  ∀ fuel rest, 2 * v.written.length ≤ fuel + 1 → Ends rest →
    readValue (fuel + 1) (v.written ++ rest) = some (v, rest)

/-- The text of the value starts with an octet that is neither a blank nor a bracket that
closes. -/
def Starts (v : Json) : Prop :=
  ∃ b t, v.written = b :: t ∧ isBlank b = false ∧ b ≠ octet ']'

theorem skipBlanks_cons {b : UInt8} (h : isBlank b = false) (s : List UInt8) :
    skipBlanks (b :: s) = b :: s :=
  List.dropWhile_cons_of_neg (by simp [h])

theorem Starts.length_pos {v : Json} (h : Starts v) : 0 < v.written.length := by
  obtain ⟨b, t, hv, -⟩ := h
  simp [hv]

theorem ends_cons {b : UInt8} (h : isDigitOctet b = false ∧ b ≠ octet '.' ∧ b ≠ octet 'e' ∧
    b ≠ octet 'E') (rest : List UInt8) : Ends (b :: rest) := by
  intro c hc
  obtain rfl : b = c := by simpa using hc
  exact h

theorem Printable.starts {v : Json} (h : Printable v) : Starts v := by
  cases h with
  | null => exact ⟨octet 'n', octets "ull", rfl, by decide, by decide⟩
  | bool b =>
    cases b
    · exact ⟨octet 'f', octets "alse", rfl, by decide, by decide⟩
    · exact ⟨octet 't', octets "rue", rfl, by decide, by decide⟩
  | @number n _ =>
    obtain ⟨b, bs, hb, hopens⟩ := exists_encode_plain_eq n
    exact ⟨b, bs, hb, hopens.not_isBlank, hopens.ne (by decide) (by decide)⟩
  | text s => exact ⟨octet '"', _, written_text s, by decide, by decide⟩
  | @array vs _ =>
    cases vs with
    | nil => exact ⟨octet '[', [octet ']'], rfl, by decide, by decide⟩
    | cons v vs => exact ⟨octet '[', _, written_array_cons v vs, by decide, by decide⟩
  | @ofMembers ms _ =>
    cases ms with
    | nil => exact ⟨0x7B, [0x7D], rfl, by decide, by decide⟩
    | cons m ms => exact ⟨0x7B, _, written_ofMembers_cons m ms, by decide, by decide⟩

theorem readsBack_null : ReadsBack .null := fun _ _ _ _ => rfl

theorem readsBack_bool (b : Bool) : ReadsBack (.bool b) := by
  cases b <;> exact fun _ _ _ _ => rfl

theorem readsBack_text (s : String) : ReadsBack (.text s) := by
  intro fuel rest _ _
  rw [written_text, List.cons_append, List.append_assoc, List.singleton_append, readValue,
    skipBlanks_cons (by decide)]
  simp only [if_true, readString_escaped, Option.map_some, Option.elim_some, String.ofList_toList]

/-- What a number starts with starts no other value. -/
theorem readValue_number {b : UInt8} (h : OpensNumber b) (fuel : Nat) (r : List UInt8) :
    readValue (fuel + 1) (b :: r) = (readNumber (b :: r)).map fun p => (.number p.1, p.2) := by
  rw [readValue, skipBlanks_cons h.not_isBlank]
  simp only [h.ne (c := octet '"') (by decide) (by decide),
    h.ne (c := octet '[') (by decide) (by decide), h.ne (c := 0x7B) (by decide) (by decide),
    h.ne (c := octet 'n') (by decide) (by decide), h.ne (c := octet 't') (by decide) (by decide),
    h.ne (c := octet 'f') (by decide) (by decide), if_false]

theorem readsBack_number {n : Number} (hn : n.isInteger = true → n.exponent = 0) :
    ReadsBack (.number n) := by
  intro fuel rest _ hrest
  obtain ⟨b, bs, hb, hopens⟩ := exists_encode_plain_eq n
  have hread := readNumber_plain hn hrest
  rw [hb, List.cons_append] at hread
  rw [written, compact, hb, List.cons_append, readValue_number hopens, hread]
  rfl

/-- The elements of an array, at least one, are read up to the bracket that closes. -/
theorem readElements_written {v : Json} {vs : List Json}
    (h : ∀ w ∈ v :: vs, Starts w ∧ ReadsBack w) {fuel : Nat} (rest : List UInt8)
    (hfuel : 2 * (v.written ++ writtenElements vs).length ≤ fuel) :
    readElements (fuel + 1) (v.written ++ (writtenElements vs ++ octet ']' :: rest)) =
      some (v :: vs, rest) := by
  induction vs generalizing v fuel with
  | nil =>
    obtain ⟨hstarts, hreads⟩ := h v (List.mem_singleton_self v)
    have hpos := hstarts.length_pos
    rw [List.length_append] at hfuel
    obtain ⟨fuel, rfl⟩ : ∃ k, fuel = k + 1 := ⟨fuel - 1, by omega⟩
    have hv := hreads fuel (octet ']' :: rest) (by omega) (ends_cons (by decide) rest)
    rw [readElements]
    simp only [Option.bind_eq_bind]
    change (readValue (fuel + 1) (v.written ++ octet ']' :: rest)).bind _ = _
    rw [hv, Option.bind_some]
    simp only [skipBlanks_cons (show isBlank (octet ']') = false by decide), if_true]
  | cons w vs ih =>
    obtain ⟨hstarts, hreads⟩ := h v (List.mem_cons_self ..)
    have hpos := hstarts.length_pos
    rw [writtenElements_cons, List.length_append, List.length_cons] at hfuel
    obtain ⟨fuel, rfl⟩ : ∃ k, fuel = k + 1 := ⟨fuel - 1, by omega⟩
    have hv := hreads fuel
      (octet ',' :: (w.written ++ (writtenElements vs ++ octet ']' :: rest))) (by omega)
      (ends_cons (by decide) _)
    have hrest : 2 * (w.written ++ writtenElements vs).length ≤ fuel := by omega
    have hvs := ih (fun u hu => h u (List.mem_cons_of_mem v hu)) hrest
    rw [readElements, writtenElements_cons, List.cons_append, List.append_assoc]
    simp only [Option.bind_eq_bind]
    rw [hv, Option.bind_some]
    simp only [skipBlanks_cons (show isBlank (octet ',') = false by decide),
      if_neg (show octet ',' ≠ octet ']' by decide), if_true, hvs, Option.map_some]

theorem readsBack_array {vs : List Json} (h : ∀ v ∈ vs, Starts v ∧ ReadsBack v) :
    ReadsBack (.array vs) := by
  intro fuel rest hfuel _
  cases vs with
  | nil => rfl
  | cons v vs =>
    obtain ⟨b, t, hv, hblank, hclose⟩ := (h v (List.mem_cons_self ..)).1
    rw [written_array_cons, List.length_cons, List.length_append, List.length_append] at hfuel
    obtain ⟨fuel, rfl⟩ : ∃ k, fuel = k + 1 := ⟨fuel - 1, by omega⟩
    have hrest : 2 * (v.written ++ writtenElements vs).length ≤ fuel := by
      rw [List.length_append]
      omega
    have helements := readElements_written h rest hrest
    have hopen : after? [octet ']'] (skipBlanks (v.written ++
        (writtenElements vs ++ octet ']' :: rest))) = none := by
      rw [hv, List.cons_append, skipBlanks_cons hblank]
      simp [after?, Ne.symm hclose]
    rw [written_array_cons, List.cons_append, List.append_assoc, List.append_assoc,
      List.singleton_append, readValue, skipBlanks_cons (by decide)]
    simp only [if_neg (show octet '[' ≠ octet '"' by decide), if_true, hopen, helements,
      Option.map_some]

/-- The key and the value of a member are read, and what follows decides. -/
theorem readMembers_member {m : String × Json} {fuel : Nat} {b : UInt8} {rest : List UInt8}
    (hblank : isBlank b = false)
    (h : readValue fuel (m.2.written ++ b :: rest) = some (m.2, b :: rest)) :
    readMembers (fuel + 1) (writtenMember m ++ b :: rest) =
      if b = 0x7D then some ([(some m.1, m.2)], rest)
      else if b = octet ',' then (readMembers fuel rest).map fun p => ((some m.1, m.2) :: p.1, p.2)
      else none := by
  have hquote : isBlank (octet '"') = false := by decide
  have hcolon : isBlank (octet ':') = false := by decide
  rw [readMembers, writtenMember, List.cons_append, skipBlanks_cons hquote, List.append_assoc]
  simp only [after?, if_true, Option.bind_eq_bind, Option.bind_some, List.cons_append,
    readString_escaped, skipBlanks_cons hcolon, h, skipBlanks_cons hblank, String.ofList_toList]

/-- The members of an object, at least one, are read up to the brace that closes. -/
theorem readMembers_written {m : String × Json} {ms : List (String × Json)}
    (h : ∀ p ∈ m :: ms, ReadsBack p.2) {fuel : Nat} (rest : List UInt8)
    (hfuel : 2 * (writtenMember m ++ writtenMembers ms).length ≤ fuel) :
    readMembers (fuel + 1) (writtenMember m ++ (writtenMembers ms ++ 0x7D :: rest)) =
      some ((m :: ms).map fun p => (some p.1, p.2), rest) := by
  have hlength := length_written_lt_writtenMember m
  rw [List.length_append] at hfuel
  induction ms generalizing m fuel with
  | nil =>
    obtain ⟨fuel, rfl⟩ : ∃ k, fuel = k + 1 := ⟨fuel - 1, by omega⟩
    have hv := h m (List.mem_singleton_self m) fuel (0x7D :: rest) (by omega)
      (ends_cons (by decide) rest)
    exact readMembers_member (by decide) hv
  | cons p ms ih =>
    rw [writtenMembers_cons, List.length_cons, List.length_append] at hfuel
    obtain ⟨fuel, rfl⟩ : ∃ k, fuel = k + 1 := ⟨fuel - 1, by omega⟩
    have hv := h m (List.mem_cons_self ..) fuel
      (octet ',' :: (writtenMember p ++ (writtenMembers ms ++ 0x7D :: rest))) (by omega)
      (ends_cons (by decide) _)
    have hrest : 2 * ((writtenMember p).length + (writtenMembers ms).length) ≤ fuel := by omega
    have hms := ih (fun q hq => h q (List.mem_cons_of_mem m hq)) hrest
      (length_written_lt_writtenMember p)
    rw [writtenMembers_cons, List.cons_append, List.append_assoc,
      readMembers_member (by decide) hv, if_neg (by decide), if_pos rfl, hms]
    rfl

theorem readsBack_ofMembers {ms : List (String × Json)} (h : ∀ m ∈ ms, ReadsBack m.2) :
    ReadsBack (.ofMembers ms) := by
  intro fuel rest hfuel _
  cases ms with
  | nil => rfl
  | cons m ms =>
    rw [written_ofMembers_cons, List.length_cons, List.length_append, List.length_append] at hfuel
    obtain ⟨fuel, rfl⟩ : ∃ k, fuel = k + 1 := ⟨fuel - 1, by omega⟩
    have hrest : 2 * (writtenMember m ++ writtenMembers ms).length ≤ fuel := by
      rw [List.length_append]
      omega
    have hmembers := readMembers_written h rest hrest
    have hopen : after? [0x7D] (skipBlanks (writtenMember m ++
        (writtenMembers ms ++ 0x7D :: rest))) = none := rfl
    rw [written_ofMembers_cons, List.cons_append, List.append_assoc, List.append_assoc,
      List.singleton_append, readValue, skipBlanks_cons (by decide)]
    simp only [if_neg (show (0x7B : UInt8) ≠ octet '"' by decide),
      if_neg (show (0x7B : UInt8) ≠ octet '[' by decide), if_true, hopen, hmembers,
      Option.map_some]
    rfl

theorem Printable.readsBack {v : Json} (h : Printable v) : ReadsBack v := by
  induction h with
  | null => exact readsBack_null
  | bool b => exact readsBack_bool b
  | number hn => exact readsBack_number hn
  | text s => exact readsBack_text s
  | array hvs ih => exact readsBack_array fun v hv => ⟨(hvs v hv).starts, ih v hv⟩
  | ofMembers _ ih => exact readsBack_ofMembers ih

/-- The octets of a value that can be printed are read as the value. -/
theorem read?_written {v : Json} (h : Printable v) : read? v.written = some v := by
  have hread := h.readsBack (2 * v.written.length + 1) [] (by omega) nofun
  rw [List.append_nil] at hread
  rw [read?, hread]
  rfl

/-- What is printed is read back. -/
theorem ofText?_plain {v : Json} (h : Printable v) : ofText? v.plain = some v := by
  rw [ofText?, plain, String.toList_ofList]
  exact read?_written h

end Playground.Json
