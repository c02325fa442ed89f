import Mathlib.Data.List.TakeWhile
import Playground.Json.Printer
import Playground.Json.Reader
import Playground.Proofs.Text.Digits
import Playground.Proofs.Text.Transcoding

/-!
# Literals are read back

A printed string is read as its text (`readString_escaped`), and a printed number as the number
(`readNumber_plain`).  A reader stops where the literal stops, whatever follows, so both are
stated in front of a rest.

* The characters of a string come one after the other, each escaped or not.  `Spells` says what
  some octets of a string make up, and puts them together.
* A number is read in front of a rest that cannot go on with it (`Ends`).
-/

namespace Playground.Json

open Text

/-! ## Octets -/

theorem encode_cons_of_ascii {c : Char} (h : c.toNat < 0x80) (s : List Char) :
    Utf8.encode (c :: s) = octet c :: Utf8.encode s := by
  have hc : Utf8.encodeChar c = [octet c] := by
    rw [Utf8.encodeChar]
    exact if_pos h
  rw [Utf8.encode, List.flatMap_cons, hc]
  rfl

theorem toNat_octet {c : Char} (h : c.toNat < 0x80) : (octet c).toNat = c.toNat :=
  Utf8.toNat_ofNat (by omega)

/-- Characters that are ASCII have octets of their own. -/
theorem octet_ne {c d : Char} (hc : c.toNat < 0x80) (hd : d.toNat < 0x80) (h : c ≠ d) :
    octet c ≠ octet d := by
  intro heq
  have hnat := congrArg UInt8.toNat heq
  rw [toNat_octet hc, toNat_octet hd] at hnat
  exact h (Char.toNat_inj.mp hnat)

/-! ## Strings -/

/-- The octets are read as parts of a string that make up a text. -/
def Spells (written : List UInt8) (s : List Char) : Prop :=
  ∃ items, (∀ found rest, readItems found (written ++ rest) =
      readItems (items.reverse ++ found) rest) ∧
    ∀ done rest, assemble? done (items ++ rest) = assemble? ((Utf8.encode s).reverse ++ done) rest

theorem Spells.nil : Spells [] [] := ⟨[], fun _ _ => rfl, fun _ _ => rfl⟩

theorem Spells.append {w w' : List UInt8} {s t : List Char} (h : Spells w s) (h' : Spells w' t) :
    Spells (w ++ w') (s ++ t) := by
  obtain ⟨items, hread, hmake⟩ := h
  obtain ⟨items', hread', hmake'⟩ := h'
  refine ⟨items ++ items', fun found rest => ?_, fun done rest => ?_⟩
  · rw [List.append_assoc, hread, hread', List.reverse_append, List.append_assoc]
  · rw [List.append_assoc, hmake, hmake', Utf8.encode_append, List.reverse_append,
      List.append_assoc]

theorem readItems_quote (found : List StringItem) (rest : List UInt8) :
    readItems found (octet '"' :: rest) = some (found.reverse, rest) := by
  rw [readItems.eq_def]
  exact if_pos rfl

theorem readItems_shortEscape {e x : UInt8} (he : e ≠ octet 'u') (h : shortEscape? e = some x)
    (found : List StringItem) (rest : List UInt8) :
    readItems found (octet '\\' :: e :: rest) = readItems (.octet x :: found) rest := by
  rw [readItems.eq_def]
  simp only [if_neg (show octet '\\' ≠ octet '"' by decide), if_neg he, h, if_true]

theorem readItems_unit {a b c d : UInt8} {u : Nat} (h : unit? a b c d = some u)
    (found : List StringItem) (rest : List UInt8) :
    readItems found (octet '\\' :: octet 'u' :: a :: b :: c :: d :: rest) =
      readItems (.unit u :: found) rest := by
  rw [readItems.eq_def]
  simp only [if_neg (show octet '\\' ≠ octet '"' by decide), h, if_true]

theorem readItems_octet {b : UInt8} (hquote : b ≠ octet '"') (hslash : b ≠ octet '\\')
    (hle : 0x20 ≤ b.toNat) (found : List StringItem) (rest : List UInt8) :
    readItems found (b :: rest) = readItems (.octet b :: found) rest := by
  have hlt : ¬ b < 0x20 := by
    rw [UInt8.lt_iff_toNat_lt]
    exact Nat.not_lt_of_le hle
  rw [readItems.eq_def]
  simp only [if_neg hquote, if_neg hslash, if_neg hlt]

/-- A short escape stands for the octet of its character. -/
theorem spells_shortEscape {e c : Char} (hc : c.toNat < 0x80) (he : octet e ≠ octet 'u')
    (h : shortEscape? (octet e) = some (octet c)) : Spells [octet '\\', octet e] [c] := by
  refine ⟨[.octet (octet c)], fun found rest => ?_, fun done rest => ?_⟩
  · exact readItems_shortEscape he h found rest
  · rw [encode_cons_of_ascii hc]
    rfl

/-- A numeric escape stands for its unit. -/
theorem spells_unit {c : Char} (hc : c.toNat < 0x20) :
    Spells [octet '\\', octet 'u', octet '0', octet '0', octet (lowerHex (c.toNat / 16)),
      octet (lowerHex (c.toNat % 16))] [c] := by
  have hunit : ∀ n < 0x20, unit? (octet '0') (octet '0') (octet (lowerHex (n / 16)))
      (octet (lowerHex (n % 16))) = some n := by decide
  refine ⟨[.unit c.toNat], fun found rest => ?_, fun done rest => ?_⟩
  · exact readItems_unit (hunit c.toNat hc) found rest
  · have hlow : Utf16.isLow c.toNat = false := by simp [Utf16.isLow]; omega
    have hhigh : Utf16.isHigh c.toNat = false := by simp [Utf16.isHigh]; omega
    rw [Utf8.encode_singleton, List.cons_append, assemble?.eq_def]
    simp [hlow, hhigh]

/-- Octets that are neither quotes nor backslashes nor control characters stand for
themselves. -/
theorem readItems_octets {bs : List UInt8} (h : ∀ b ∈ bs, b ≠ octet '"' ∧ b ≠ octet '\\' ∧
    0x20 ≤ b.toNat) (found : List StringItem) (rest : List UInt8) :
    readItems found (bs ++ rest) = readItems ((bs.map .octet).reverse ++ found) rest := by
  induction bs generalizing found with
  | nil => rfl
  | cons b bs ih =>
    obtain ⟨hquote, hslash, hle⟩ := h b (List.mem_cons_self ..)
    rw [List.cons_append, readItems_octet hquote hslash hle,
      ih fun d hd => h d (List.mem_cons_of_mem b hd)]
    simp

theorem assemble?_octets (bs : List UInt8) (done : List UInt8) (rest : List StringItem) :
    assemble? done (bs.map .octet ++ rest) = assemble? (bs.reverse ++ done) rest := by
  induction bs generalizing done with
  | nil => rfl
  | cons b bs ih =>
    rw [List.map_cons, List.cons_append, assemble?, ih]
    simp

theorem spells_plain {c : Char} (hquote : c ≠ '"') (hslash : c ≠ '\\') (hc : 0x20 ≤ c.toNat) :
    Spells (Utf8.encode [c]) [c] := by
  rw [Utf8.encode_singleton]
  refine ⟨(Utf8.encodeChar c).map .octet, readItems_octets ?_, fun done rest => ?_⟩
  · intro b hb
    by_cases hascii : c.toNat < 0x80
    · rw [← Utf8.encode_singleton, encode_cons_of_ascii hascii] at hb
      obtain rfl := List.mem_singleton.mp hb
      refine ⟨octet_ne hascii (by decide) hquote, octet_ne hascii (by decide) hslash, ?_⟩
      rwa [toNat_octet hascii]
    · have hle := Utf8.le_of_mem_encodeChar (Nat.le_of_not_lt hascii) hb
      refine ⟨?_, ?_, by omega⟩
      · rintro rfl
        exact absurd hle (by decide)
      · rintro rfl
        exact absurd hle (by decide)
  · rw [Utf8.encode_singleton]
    exact assemble?_octets _ _ _

theorem lowerHex_ascii : ∀ n < 16, (lowerHex n).toNat < 0x80 := by decide

/-- An escaped character spells the character. -/
theorem spells_escapeChar (c : Char) : Spells (Utf8.encode (escapeChar c)) [c] := by
  by_cases hquote : c = '"'
  · exact hquote ▸ spells_shortEscape (e := '"') (by decide) (by decide) (by decide)
  by_cases hslash : c = '\\'
  · exact hslash ▸ spells_shortEscape (e := '\\') (by decide) (by decide) (by decide)
  by_cases hb : c = '\x08'
  · exact hb ▸ spells_shortEscape (e := 'b') (by decide) (by decide) (by decide)
  by_cases hf : c = '\x0c'
  · exact hf ▸ spells_shortEscape (e := 'f') (by decide) (by decide) (by decide)
  by_cases hn : c = '\n'
  · exact hn ▸ spells_shortEscape (e := 'n') (by decide) (by decide) (by decide)
  by_cases hr : c = '\r'
  · exact hr ▸ spells_shortEscape (e := 'r') (by decide) (by decide) (by decide)
  by_cases ht : c = '\t'
  · exact ht ▸ spells_shortEscape (e := 't') (by decide) (by decide) (by decide)
  rw [escapeChar, if_neg hquote, if_neg hslash, if_neg hb, if_neg hf, if_neg hn, if_neg hr,
    if_neg ht]
  split
  · next hc =>
    have hhigh := lowerHex_ascii (c.toNat / 16) (by omega)
    have hlow := lowerHex_ascii (c.toNat % 16) (by omega)
    have hencode : Utf8.encode ['\\', 'u', '0', '0', lowerHex (c.toNat / 16),
        lowerHex (c.toNat % 16)] = [octet '\\', octet 'u', octet '0', octet '0',
          octet (lowerHex (c.toNat / 16)), octet (lowerHex (c.toNat % 16))] := by
      rw [Utf8.encode_of_ascii]
      · rfl
      · simp only [List.forall_mem_cons]
        exact ⟨by decide, by decide, by decide, by decide, hhigh, hlow, by simp⟩
    rw [hencode]
    exact spells_unit hc
  · next hc => exact spells_plain hquote hslash (Nat.le_of_not_lt hc)

theorem spells_flatMap (s : List Char) : Spells (Utf8.encode (s.flatMap escapeChar)) s := by
  induction s with
  | nil => exact .nil
  | cons c s ih =>
    rw [List.flatMap_cons, Utf8.encode_append]
    exact (spells_escapeChar c).append ih

/-- A text in quotes is read back behind its opening quote. -/
theorem readString_escaped (s : List Char) (rest : List UInt8) :
    readString (Utf8.encode (s.flatMap escapeChar) ++ octet '"' :: rest) =
      some (some (String.ofList s), rest) := by
  obtain ⟨items, hread, hmake⟩ := spells_flatMap s
  have hitems : assemble? [] items = some (Utf8.encode s) := by
    have h := hmake [] []
    rw [List.append_nil, List.append_nil] at h
    rw [h, assemble?, List.reverse_reverse]
  rw [readString, hread, List.append_nil, readItems_quote, List.reverse_reverse]
  simp only [Option.bind_eq_bind, Option.bind_some]
  rw [hitems, Option.bind_some, Utf8.decode?_encode]
  rfl

/-! ## Numbers -/

/-- The rest cannot go on with a number. -/
def Ends (rest : List UInt8) : Prop :=
  ∀ b ∈ rest.head?, isDigitOctet b = false ∧ b ≠ octet '.' ∧ b ≠ octet 'e' ∧ b ≠ octet 'E'

/-- The octets of some digits. -/
def digitOctets (n : Nat) : List UInt8 := (wordDigits n).map octet

theorem isDigitOctet_octet {c : Char} (h : c.isDigit = true) :
    isDigitOctet (octet c) = true ∧ (octet c).toNat - 0x30 = c.toNat - '0'.toNat := by
  simp only [Char.isDigit, Bool.and_eq_true, decide_eq_true_eq, UInt32.le_iff_toNat_le] at h
  have hlow : 48 ≤ c.toNat := h.1
  have hhigh : c.toNat ≤ 57 := h.2
  have hnat : (octet c).toNat = c.toNat := toNat_octet (by omega)
  refine ⟨?_, by rw [hnat]; rfl⟩
  simp only [isDigitOctet, Bool.and_eq_true, decide_eq_true_eq, UInt8.le_iff_toNat_le, hnat]
  exact ⟨hlow, hhigh⟩

theorem isDigitOctet_of_mem {n : Nat} {b : UInt8} (hb : b ∈ digitOctets n) :
    isDigitOctet b = true := by
  obtain ⟨c, hc, rfl⟩ := List.mem_map.mp hb
  exact (isDigitOctet_octet (isDigit_of_mem_wordDigits hc)).1

theorem digitOctets_ne_nil (n : Nat) : digitOctets n ≠ [] := by
  rw [digitOctets, Ne, List.map_eq_nil_iff]
  exact wordDigits_ne_nil n

theorem octetsValue_map {ds : List Char} (h : ∀ c ∈ ds, c.isDigit = true) :
    octetsValue (ds.map octet) = digitsValue ds := by
  rw [octetsValue, digitsValue, List.foldl_map]
  generalize 0 = n
  induction ds generalizing n with
  | nil => rfl
  | cons c ds ih =>
    rw [List.foldl_cons, List.foldl_cons, (isDigitOctet_octet (h c (List.mem_cons_self ..))).2]
    exact ih (fun d hd => h d (List.mem_cons_of_mem c hd)) _

theorem octetsValue_digitOctets (n : Nat) : octetsValue (digitOctets n) = n := by
  rw [digitOctets, octetsValue_map fun _ => isDigit_of_mem_wordDigits, digitsValue_wordDigits]

/-- A run of digits ends where the rest does not go on with it. -/
theorem digits_append {rest : List UInt8} (h : ∀ b ∈ rest.head?, isDigitOctet b = false) (n : Nat) :
    (digitOctets n ++ rest).takeWhile isDigitOctet = digitOctets n ∧
      (digitOctets n ++ rest).dropWhile isDigitOctet = rest := by
  have hall : ∀ b ∈ digitOctets n, isDigitOctet b = true := fun _ => isDigitOctet_of_mem
  rw [List.takeWhile_append_of_pos hall, List.dropWhile_append_of_pos hall]
  cases rest with
  | nil => simp
  | cons b rest =>
    have hb := h b rfl
    simp [hb]

/-- The written sign, if there is one. -/
def signOctets (negative : Bool) : List UInt8 := if negative then [octet '-'] else []

/-- The written power of ten, if there is one. -/
def exponentOctets (n : Number) : List UInt8 :=
  if n.isInteger then []
  else octet 'e' :: (signOctets (n.exponent < 0) ++ digitOctets n.exponent.natAbs)

theorem encode_digits (n : Nat) : Utf8.encode (Nat.toDigits 10 n) = digitOctets n :=
  Utf8.encode_of_ascii fun _ hc => ascii_of_isDigit (isDigit_of_mem_wordDigits hc)

theorem encode_sign (negative : Bool) :
    Utf8.encode (if negative then ['-'] else []) = signOctets negative := by
  cases negative <;> rfl

theorem encode_plain (n : Number) : Utf8.encode n.plain =
    signOctets n.negative ++ (digitOctets n.digits ++ exponentOctets n) := by
  have hsign := encode_sign (decide (n.exponent < 0))
  simp only [decide_eq_true_eq] at hsign
  rw [Number.plain, Utf8.encode_append, Utf8.encode_append, encode_sign, encode_digits,
    List.append_assoc, exponentOctets]
  split
  · rfl
  · rw [List.cons_append, encode_cons_of_ascii (by decide), Utf8.encode_append, hsign,
      encode_digits]

theorem exists_digitOctets_eq (n : Nat) :
    ∃ b bs, digitOctets n = b :: bs ∧ isDigitOctet b = true := by
  cases h : digitOctets n with
  | nil => exact absurd h (digitOctets_ne_nil n)
  | cons b bs => exact ⟨b, bs, rfl, isDigitOctet_of_mem (h ▸ List.mem_cons_self ..)⟩

theorem not_isDigitOctet_of_ends {rest : List UInt8} (h : Ends rest) :
    ∀ b ∈ rest.head?, isDigitOctet b = false := fun b hb => (h b hb).1

theorem readExponent_exponentOctets (n : Number) {rest : List UInt8} (h : Ends rest) :
    readExponent (exponentOctets n ++ rest) =
      some (if n.isInteger then none else some n.exponent, rest) := by
  cases hint : n.isInteger with
  | true =>
    simp only [exponentOctets, hint, if_true, List.nil_append]
    cases rest with
    | nil => rfl
    | cons b rest =>
      obtain ⟨-, -, he, hE⟩ := h b rfl
      simp only [readExponent, he, hE, or_self, if_false]
  | false =>
    simp only [exponentOctets, hint, Bool.false_eq_true, if_false, List.cons_append,
      List.append_assoc, readExponent]
    generalize hk : n.exponent.natAbs = k
    obtain ⟨b, bs, hb, hdigit⟩ := exists_digitOctets_eq k
    obtain ⟨htake, hdrop⟩ := digits_append (not_isDigitOctet_of_ends h) k
    have hminus : b ≠ octet '-' := by rintro rfl; cases hdigit
    have hplus : b ≠ octet '+' := by rintro rfl; cases hdigit
    have hne := digitOctets_ne_nil k
    by_cases hneg : n.exponent < 0
    · have habs : -(k : Int) = n.exponent := by omega
      simp [signOctets, hneg, htake, hdrop, hne, octetsValue_digitOctets, habs]
    · have habs : (k : Int) = n.exponent := by omega
      have hvalue := octetsValue_digitOctets k
      rw [hb, List.cons_append] at htake hdrop
      rw [hb] at hvalue
      simp [signOctets, hneg, hb, hminus, hplus, htake, hdrop, hvalue, habs]

/-- What follows the digits of a number does not go on with them, and is no fraction. -/
theorem head?_exponentOctets (n : Number) {rest : List UInt8} (h : Ends rest) :
    ∀ b ∈ (exponentOctets n ++ rest).head?, isDigitOctet b = false ∧ b ≠ octet '.' := by
  unfold exponentOctets
  split
  · exact fun b hb => ⟨(h b hb).1, (h b hb).2.1⟩
  · rintro b hb
    obtain rfl : octet 'e' = b := by simpa using hb
    decide

theorem after?_signOctets (negative : Bool) (n : Nat) (rest : List UInt8) :
    after? [octet '-'] (signOctets negative ++ (digitOctets n ++ rest)) =
      if negative then some (digitOctets n ++ rest) else none := by
  cases negative with
  | true => rfl
  | false =>
    obtain ⟨b, bs, hb, hdigit⟩ := exists_digitOctets_eq n
    have hminus : octet '-' ≠ b := by rintro rfl; cases hdigit
    simp [signOctets, hb, after?, hminus]

theorem readFraction_of_ne {s : List UInt8} (h : ∀ b ∈ s.head?, b ≠ octet '.') :
    readFraction s = some (none, s) := by
  cases s with
  | nil => rfl
  | cons b s =>
    have hb := h b rfl
    simp [readFraction, after?, Ne.symm hb]

/-- The digits of a number start with a zero only if there is no other one. -/
theorem head?_digitOctets (n : Nat) :
    ¬ ((digitOctets n).head? = some (octet '0') ∧ digitOctets n ≠ [octet '0']) := by
  rintro ⟨hhead, hne⟩
  by_cases hn : n = 0
  · subst hn
    exact hne rfl
  · obtain ⟨c, hc, heq⟩ := Option.map_eq_some_iff.mp (List.head?_map .. ▸ hhead)
    have hdigit := isDigit_of_mem_wordDigits (List.mem_of_mem_head? hc)
    have hascii := ascii_of_isDigit hdigit
    have hzero : c = '0' := by
      by_contra hne
      exact octet_ne hascii (by decide) hne heq
    exact head?_wordDigits_ne hn (hzero ▸ hc)

/-- The octet can be the first one of a number. -/
def OpensNumber (b : UInt8) : Prop := isDigitOctet b = true ∨ b = octet '-'

theorem OpensNumber.ne {b c : UInt8} (h : OpensNumber b) (hdigit : isDigitOctet c = false)
    (hminus : c ≠ octet '-') : b ≠ c := by
  rintro rfl
  cases h with
  | inl h => rw [hdigit] at h; cases h
  | inr h => exact hminus h

theorem OpensNumber.not_isBlank {b : UInt8} (h : OpensNumber b) : isBlank b = false := by
  simp [isBlank, h.ne (c := 0x20) rfl (by decide), h.ne (c := 0x0A) rfl (by decide),
    h.ne (c := 0x0D) rfl (by decide), h.ne (c := 0x09) rfl (by decide)]

theorem exists_encode_plain_eq (n : Number) :
    ∃ b bs, Utf8.encode n.plain = b :: bs ∧ OpensNumber b := by
  rw [encode_plain]
  cases n.negative with
  | true => exact ⟨octet '-', _, rfl, .inr rfl⟩
  | false =>
    obtain ⟨b, bs, hb, hdigit⟩ := exists_digitOctets_eq n.digits
    exact ⟨b, bs ++ exponentOctets n, by rw [hb]; rfl, .inl hdigit⟩

/-- A number whose power of ten can be written is read back. -/
theorem readNumber_plain {n : Number} (hn : n.isInteger = true → n.exponent = 0)
    {rest : List UInt8} (h : Ends rest) :
    readNumber (Utf8.encode n.plain ++ rest) = some (n, rest) := by
  have hhead := head?_exponentOctets n h
  obtain ⟨htake, hdrop⟩ := digits_append (fun b hb => (hhead b hb).1) n.digits
  have hne := digitOctets_ne_nil n.digits
  have hzero := head?_digitOctets n.digits
  have hfraction := readFraction_of_ne fun b hb => (hhead b hb).2
  have hvalue := octetsValue_digitOctets n.digits
  have hpower : (if n.isInteger then none else some n.exponent).getD 0 = n.exponent ∧
      (if n.isInteger then none else some n.exponent).isNone = n.isInteger := by
    split
    · next hint => exact ⟨(hn hint).symm, hint.symm⟩
    · next hint => exact ⟨rfl, (Bool.eq_false_iff.mpr hint).symm⟩
  obtain ⟨negative, digits, exponent, isInteger⟩ := n
  cases negative
  all_goals
    rw [encode_plain, List.append_assoc, List.append_assoc, readNumber, after?_signOctets]
    simp only [Bool.false_eq_true, if_false, if_true, signOctets, List.nil_append]
    rw [htake, hdrop, if_neg (not_or.mpr ⟨hne, hzero⟩)]
    simp [hfraction, readExponent_exponentOctets _ h, hvalue, hpower]

end Playground.Json
