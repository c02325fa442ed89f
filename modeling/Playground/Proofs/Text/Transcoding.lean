import Mathlib.Data.List.Basic
import Playground.Text.Percent
import Playground.Text.Utf16

/-!
# Encoded texts

A text is found again in its octets (`Utf8.decode?_encode`), in its units
(`Utf16.decode?_encode`) and behind percent signs (`Percent.decode?_encode`).  The
readers are machines over one octet or one unit, so it is enough that each character
brings the machine back to where it was with one more character read.
-/

namespace Playground.Text

/-- What the code point of a character can be. -/
theorem toNat_isValid (c : Char) : c.toNat < 0xD800 ∨ 0xDFFF < c.toNat ∧ c.toNat < 0x110000 :=
  c.valid

theorem toNat_ofNat_of_isValid {n : Nat} (h : n.isValidChar) : (Char.ofNat n).toNat = n := by
  rw [Char.ofNat, dif_pos h]
  rfl

/-! ## UTF-8 -/

namespace Utf8

theorem lead_one {n : Nat} (h : n < 0x80) : lead n = .item (.char (Char.ofNat n)) := by
  rw [lead, if_pos h]

theorem lead_two {k : Nat} (hlow : 2 ≤ k) (hhigh : k < 0x20) :
    lead (0xC0 + k) = .open ⟨k, 1, 0x80, 0xBF⟩ := by
  rw [lead, if_neg (by omega), if_neg (by omega), if_pos (by omega), Nat.add_sub_cancel_left]

/-- The first octet of three.  The bounds on the second one let through what is neither
overlong nor a surrogate. -/
theorem lead_three {k : Nat} (hk : k < 0x10) :
    ∃ low high, lead (0xE0 + k) = .open ⟨k, 2, low, high⟩ ∧
      ∀ x < 0x40, (k = 0 → 0x20 ≤ x) → (k = 0xD → x < 0x20) →
        low ≤ 0x80 + x ∧ 0x80 + x ≤ high := by
  rw [lead, if_neg (by omega), if_neg (by omega), if_neg (by omega)]
  by_cases hzero : k = 0
  · rw [if_pos (by omega)]
    exact ⟨0xA0, 0xBF, by rw [hzero], fun x hx h _ => by have := h hzero; omega⟩
  · rw [if_neg (by omega)]
    by_cases hsurrogate : k = 0xD
    · rw [if_pos (by omega)]
      exact ⟨0x80, 0x9F, by rw [hsurrogate], fun x hx _ h => by have := h hsurrogate; omega⟩
    · rw [if_neg (by omega), if_pos (by omega), Nat.add_sub_cancel_left]
      exact ⟨0x80, 0xBF, rfl, fun x hx _ _ => by omega⟩

/-- The first octet of four.  The bounds on the second one let through what is neither
overlong nor above all characters. -/
theorem lead_four {k : Nat} (hk : k < 5) :
    ∃ low high, lead (0xF0 + k) = .open ⟨k, 3, low, high⟩ ∧
      ∀ x < 0x40, (k = 0 → 0x10 ≤ x) → (k = 4 → x < 0x10) →
        low ≤ 0x80 + x ∧ 0x80 + x ≤ high := by
  rw [lead, if_neg (by omega), if_neg (by omega), if_neg (by omega), if_neg (by omega),
    if_neg (by omega), if_neg (by omega)]
  by_cases hzero : k = 0
  · rw [if_pos (by omega)]
    exact ⟨0x90, 0xBF, by rw [hzero], fun x hx h _ => by have := h hzero; omega⟩
  · rw [if_neg (by omega)]
    by_cases hlast : k = 4
    · rw [if_neg (by omega), if_pos (by omega)]
      exact ⟨0x80, 0x8F, by rw [hlast], fun x hx _ h => by have := h hlast; omega⟩
    · rw [if_pos (by omega), Nat.add_sub_cancel_left]
      exact ⟨0x80, 0xBF, rfl, fun x hx _ _ => by omega⟩

theorem toNat_ofNat {n : Nat} (h : n < 0x100) : (UInt8.ofNat n).toNat = n := by
  rw [UInt8.toNat_ofNat']
  exact Nat.mod_eq_of_lt h

theorem step_lead {found : List Item} {n : Nat} {p : Partial} (hn : n < 0x100)
    (h : lead n = .open p) : State.step ⟨found, none⟩ (UInt8.ofNat n) = ⟨found, some p⟩ := by
  rw [State.step]
  dsimp only
  rw [toNat_ofNat hn, State.start, h]

/-- An octet that goes on with a character adds six bits. -/
theorem step_tail {found : List Item} {bits missing low high x : Nat} (hx : x < 0x40)
    (h : low ≤ 0x80 + x ∧ 0x80 + x ≤ high) :
    State.step ⟨found, some ⟨bits, missing, low, high⟩⟩ (UInt8.ofNat (0x80 + x)) =
      if missing ≤ 1 then ⟨.char (Char.ofNat (bits * 64 + x)) :: found, none⟩
      else ⟨found, some ⟨bits * 64 + x, missing - 1, 0x80, 0xBF⟩⟩ := by
  have hmod : (0x80 + x) % 64 = x := by omega
  rw [State.step]
  dsimp only
  rw [toNat_ofNat (by omega), if_pos h, hmod]

/-- The octets of a character are read as the character. -/
theorem foldl_encodeChar (found : List Item) (c : Char) :
    (encodeChar c).foldl State.step ⟨found, none⟩ = ⟨.char c :: found, none⟩ := by
  have hvalid := toNat_isValid c
  have hchar : Char.ofNat c.toNat = c := Char.ofNat_toNat c
  generalize hn : c.toNat = n at hvalid hchar
  rw [encodeChar, hn]
  by_cases h1 : n < 0x80
  · rw [if_pos h1, List.foldl_cons, List.foldl_nil, State.step]
    dsimp only
    rw [toNat_ofNat (by omega), State.start, lead_one h1, hchar]
  · rw [if_neg h1]
    by_cases h2 : n < 0x800
    · have hlead : lead (0xC0 + n / 64) = .open ⟨n / 64, 1, 0x80, 0xBF⟩ :=
        lead_two (by omega) (by omega)
      have hbits : n / 64 * 64 + n % 64 = n := by omega
      rw [if_pos h2]
      simp only [List.foldl_cons, List.foldl_nil]
      rw [step_lead (by omega) hlead, step_tail (by omega) ⟨by omega, by omega⟩,
        if_pos (by omega), hbits, hchar]
    · rw [if_neg h2]
      by_cases h3 : n < 0x10000
      · obtain ⟨low, high, hlead, hsecond⟩ := lead_three (k := n / 4096) (by omega)
        have hbits : (n / 4096 * 64 + n / 64 % 64) * 64 + n % 64 = n := by omega
        rw [if_pos h3]
        simp only [List.foldl_cons, List.foldl_nil]
        rw [step_lead (by omega) hlead,
          step_tail (by omega) (hsecond _ (by omega) (by omega) (by omega)), if_neg (by omega),
          step_tail (by omega) ⟨by omega, by omega⟩, if_pos (by omega), hbits, hchar]
      · obtain ⟨low, high, hlead, hsecond⟩ := lead_four (k := n / 262144) (by omega)
        have hbits : ((n / 262144 * 64 + n / 4096 % 64) * 64 + n / 64 % 64) * 64 + n % 64 = n := by
          omega
        rw [if_neg h3]
        simp only [List.foldl_cons, List.foldl_nil]
        rw [step_lead (by omega) hlead,
          step_tail (by omega) (hsecond _ (by omega) (by omega) (by omega)), if_neg (by omega),
          step_tail (by omega) ⟨by omega, by omega⟩, if_neg (by omega),
          step_tail (by omega) ⟨by omega, by omega⟩, if_pos (by omega), hbits, hchar]

theorem foldl_encode (found : List Item) (s : List Char) :
    (encode s).foldl State.step ⟨found, none⟩ = ⟨(s.map Item.char).reverse ++ found, none⟩ := by
  induction s generalizing found with
  | nil => rfl
  | cons c s ih =>
    rw [encode] at ih
    rw [encode, List.flatMap_cons, List.foldl_append, foldl_encodeChar, ih, List.map_cons,
      List.reverse_cons, List.append_assoc, List.singleton_append]

theorem encode_append (s t : List Char) :
    encode (s ++ t) = encode s ++ encode t :=
  List.flatMap_append

theorem encode_singleton (c : Char) : encode [c] = encodeChar c :=
  List.flatMap_singleton ..

theorem decode?_encode (s : List Char) : decode? (encode s) = some s := by
  have hitems : items (encode s) = s.map Item.char := by
    rw [items, foldl_encode]
    simp
  rw [decode?, hitems]
  clear hitems
  induction s with
  | nil => rfl
  | cons c s ih =>
    rw [List.map_cons, List.mapM_cons, ih]
    rfl

/-- The octets of ASCII characters are their code points. -/
theorem encode_of_ascii {s : List Char} (h : ∀ c ∈ s, c.toNat < 0x80) :
    encode s = s.map fun c => UInt8.ofNat c.toNat := by
  induction s with
  | nil => rfl
  | cons c s ih =>
    have hc : encodeChar c = [UInt8.ofNat c.toNat] := by
      rw [encodeChar]
      exact if_pos (h c (List.mem_cons_self ..))
    have hs := ih fun d hd => h d (List.mem_cons_of_mem c hd)
    rw [encode] at hs
    rw [encode, List.flatMap_cons, hc, hs, List.map_cons, List.singleton_append]

/-- The octets of a character that is not ASCII are not ASCII either. -/
theorem le_of_mem_encodeChar {c : Char} (hc : 0x80 ≤ c.toNat) {b : UInt8}
    (hb : b ∈ encodeChar c) : 0x80 ≤ b.toNat := by
  have hvalid := toNat_isValid c
  have hoctet : ∀ n, 0x80 ≤ n → n < 0x100 → b = UInt8.ofNat n → 0x80 ≤ b.toNat := by
    rintro n hlow hhigh rfl
    rwa [toNat_ofNat hhigh]
  simp only [encodeChar] at hb
  split at hb
  · omega
  · repeat' split at hb
    all_goals simp only [List.mem_cons, List.not_mem_nil, or_false] at hb
    · rcases hb with hb | hb <;> exact hoctet _ (by omega) (by omega) hb
    · rcases hb with hb | hb | hb <;> exact hoctet _ (by omega) (by omega) hb
    · rcases hb with hb | hb | hb | hb <;> exact hoctet _ (by omega) (by omega) hb

theorem size_of_ascii {s : List Char} (h : ∀ c ∈ s, c.toNat < 0x80) : size s = s.length := by
  rw [← length_encode, encode_of_ascii h, List.length_map]

end Utf8

/-! ## UTF-16 -/

namespace Utf16

theorem toNat_ofNat {n : Nat} (h : n < 0x10000) : (UInt16.ofNat n).toNat = n := by
  rw [UInt16.toNat_ofNat']
  exact Nat.mod_eq_of_lt h

theorem step_single {text : List Char} {n : Nat} (hn : n < 0x10000)
    (h : n < 0xD800 ∨ 0xDFFF < n) :
    Reader.step ⟨text, none⟩ (UInt16.ofNat n) = some ⟨Char.ofNat n :: text, none⟩ := by
  have hhigh : isHigh n = false := by simp [isHigh]; omega
  have hlow : isLow n = false := by simp [isLow]; omega
  simp only [Reader.step, toNat_ofNat hn, hhigh, hlow]
  rfl

theorem step_high {text : List Char} {k : Nat} (hk : k < 0x400) :
    Reader.step ⟨text, none⟩ (UInt16.ofNat (0xD800 + k)) = some ⟨text, some (0xD800 + k)⟩ := by
  have hn : 0xD800 + k < 0x10000 := by omega
  have hhigh : isHigh (0xD800 + k) = true := by simp [isHigh]; omega
  simp only [Reader.step, toNat_ofNat hn, hhigh]
  rfl

theorem step_low {text : List Char} {high k : Nat} (hk : k < 0x400) :
    Reader.step ⟨text, some high⟩ (UInt16.ofNat (0xDC00 + k)) =
      some ⟨Char.ofNat (pairValue high (0xDC00 + k)) :: text, none⟩ := by
  have hn : 0xDC00 + k < 0x10000 := by omega
  have hlow : isLow (0xDC00 + k) = true := by simp [isLow]; omega
  simp only [Reader.step, toNat_ofNat hn, hlow]
  rfl

theorem pairValue_eq (a b : Nat) :
    pairValue (0xD800 + a) (0xDC00 + b) = 0x10000 + a * 0x400 + b := by
  unfold pairValue
  omega

theorem foldlM_pair (text : List Char) {a b : Nat} (ha : a < 0x400) (hb : b < 0x400) :
    [UInt16.ofNat (0xD800 + a), UInt16.ofNat (0xDC00 + b)].foldlM Reader.step ⟨text, none⟩ =
      some ⟨Char.ofNat (0x10000 + a * 0x400 + b) :: text, none⟩ := by
  rw [List.foldlM_cons, step_high ha]
  simp only [Option.bind_eq_bind, Option.bind_some]
  rw [List.foldlM_cons, step_low hb, pairValue_eq]
  rfl

/-- The units of a character are read as the character. -/
theorem foldlM_encodeChar (text : List Char) (c : Char) :
    (encodeChar c).foldlM Reader.step ⟨text, none⟩ = some ⟨c :: text, none⟩ := by
  have hvalid := toNat_isValid c
  have hchar : Char.ofNat c.toNat = c := Char.ofNat_toNat c
  generalize hn : c.toNat = n at hvalid hchar
  rw [encodeChar, hn]
  by_cases h : n < 0x10000
  · rw [if_pos h, List.foldlM_cons, step_single h (by omega), hchar]
    rfl
  · have hvalue : 0x10000 + (n - 0x10000) / 0x400 * 0x400 + (n - 0x10000) % 0x400 = n := by omega
    rw [if_neg h, foldlM_pair text (by omega) (by omega), hvalue, hchar]

theorem foldlM_encode (text s : List Char) :
    (encode s).foldlM Reader.step ⟨text, none⟩ = some ⟨s.reverse ++ text, none⟩ := by
  induction s generalizing text with
  | nil => rfl
  | cons c s ih =>
    rw [encode] at ih
    rw [encode, List.flatMap_cons, List.foldlM_append, foldlM_encodeChar]
    simp only [Option.bind_eq_bind, Option.bind_some]
    rw [ih, List.reverse_cons, List.append_assoc, List.singleton_append]

theorem decode?_encode (s : List Char) : decode? (encode s) = some s := by
  rw [decode?, foldlM_encode]
  simp

end Utf16

/-! ## Percent signs -/

namespace Percent

theorem decodeOctets_of_ne {b : UInt8} (h : b ≠ 0x25) (done s : List UInt8) :
    decodeOctets done (b :: s) = decodeOctets (b :: done) s := by
  rw [decodeOctets]
  intro _ _ _ hb
  exact absurd hb h

theorem decodeOctets_of_hexPair? {a b x : UInt8} (h : hexPair? a b = some x)
    (done s : List UInt8) :
    decodeOctets done (0x25 :: a :: b :: s) = decodeOctets (x :: done) s := by
  rw [decodeOctets, h]

/-- Octets that stand for themselves are ASCII, and the percent sign is not one. -/
def Plain (keeps : UInt8 → Bool) : Prop := ∀ b, keeps b = true → b.toNat < 0x80 ∧ b ≠ 0x25

theorem plain_isUnreserved : Plain isUnreserved := by
  have hall : ∀ n < 256, isUnreserved (UInt8.ofNat n) = true → n < 0x80 ∧ n ≠ 0x25 := by
    decide +kernel
  intro b hb
  have h := hall b.toNat (UInt8.toNat_lt b)
  rw [UInt8.ofNat_toNat] at h
  refine ⟨(h hb).1, ?_⟩
  rintro rfl
  exact absurd rfl (h hb).2

theorem upperHex_ascii : ∀ n < 16, (upperHex n).toNat < 0x80 := by decide

theorem hexValue?_upperHex : ∀ n < 16, hexValue? (UInt8.ofNat (upperHex n).toNat) = some n := by
  decide

/-- The octet of a character that is ASCII. -/
def octet (c : Char) : UInt8 := UInt8.ofNat c.toNat

theorem ascii_of_mem_encodeOctet {keeps : UInt8 → Bool} {b : UInt8} {c : Char}
    (hk : keeps b = true → b.toNat < 0x80) (hc : c ∈ encodeOctet keeps b) : c.toNat < 0x80 := by
  have hb := UInt8.toNat_lt b
  unfold encodeOctet at hc
  split at hc
  · next hkeeps =>
    have hlt := hk hkeeps
    rw [List.mem_singleton.mp hc, toNat_ofNat_of_isValid (Or.inl (by omega))]
    exact hlt
  · simp only [List.mem_cons, List.not_mem_nil, or_false] at hc
    rcases hc with rfl | rfl | rfl
    · decide
    · exact upperHex_ascii _ (by omega)
    · exact upperHex_ascii _ (by omega)

/-- An octet is read back as it was written. -/
theorem decodeOctets_encodeOctet {keeps : UInt8 → Bool} (hk : Plain keeps) (b : UInt8)
    (done s : List UInt8) :
    decodeOctets done ((encodeOctet keeps b).map octet ++ s) = decodeOctets (b :: done) s := by
  have hb := UInt8.toNat_lt b
  unfold encodeOctet
  split
  · next hkeeps =>
    obtain ⟨hlt, hne⟩ := hk b hkeeps
    have hoctet : octet (Char.ofNat b.toNat) = b := by
      rw [octet, toNat_ofNat_of_isValid (Or.inl (by omega)), UInt8.ofNat_toNat]
    rw [List.map_singleton, hoctet, List.singleton_append, decodeOctets_of_ne hne]
  · have hhex : hexPair? (octet (upperHex (b.toNat / 16))) (octet (upperHex (b.toNat % 16))) =
        some b := by
      have hhigh := hexValue?_upperHex (b.toNat / 16) (by omega)
      have hlow := hexValue?_upperHex (b.toNat % 16) (by omega)
      have hsum : b.toNat / 16 * 16 + b.toNat % 16 = b.toNat := by omega
      simp only [hexPair?, octet, hhigh, hlow, Option.bind_eq_bind, Option.bind_some, hsum,
        UInt8.ofNat_toNat]
      rfl
    exact decodeOctets_of_hexPair? hhex done s

theorem decodeOctets_flatMap {keeps : UInt8 → Bool} (hk : Plain keeps) (done bs : List UInt8) :
    decodeOctets done ((bs.flatMap (encodeOctet keeps)).map octet) = done.reverse ++ bs := by
  induction bs generalizing done with
  | nil =>
    rw [List.append_nil]
    rfl
  | cons b bs ih =>
    rw [List.flatMap_cons, List.map_append, decodeOctets_encodeOctet hk, ih, List.reverse_cons,
      List.append_assoc, List.singleton_append]

theorem decode?_encode {keeps : UInt8 → Bool} (hk : Plain keeps) (s : List Char) :
    decode? (encode keeps s) = some s := by
  have hascii : ∀ c ∈ encode keeps s, c.toNat < 0x80 := by
    intro c hc
    obtain ⟨b, -, hb⟩ := List.mem_flatMap.mp hc
    exact ascii_of_mem_encodeOctet (fun hkeeps => (hk b hkeeps).1) hb
  have hdecode : decode (encode keeps s) = Utf8.encode s := by
    rw [decode, Utf8.encode_of_ascii hascii]
    exact decodeOctets_flatMap hk [] (Utf8.encode s)
  rw [decode?, hdecode, Utf8.decode?_encode]

/-- Behind percent signs stand letters, digits and a few signs only. -/
theorem mem_encode_isUnreserved {s : List Char} {c : Char} (hc : c ∈ encode isUnreserved s) :
    c ≠ '&' ∧ c ≠ '=' := by
  have hall : ((List.range 256).all fun n => (encodeOctet isUnreserved (UInt8.ofNat n)).all fun c =>
      c != '&' && c != '=') = true := by decide +kernel
  obtain ⟨b, -, hb⟩ := List.mem_flatMap.mp hc
  have h := List.all_eq_true.mp hall b.toNat (List.mem_range.mpr (UInt8.toNat_lt b))
  rw [UInt8.ofNat_toNat] at h
  simpa using List.all_eq_true.mp h c hb

end Percent

end Playground.Text
