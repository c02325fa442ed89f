import Mathlib.Data.List.Flatten
import Playground.Proofs.Text.Octets

/-!
# Escapes written again

A text may hold escapes, a percent sign with two hexadecimal digits each.  Where these stand
for themselves, writing the text leaves its escapes as they are, and makes no new ones.  So the
written text stands for the same octets (`decode_encode`).  An escape is longer than what it
stands for, so a part of a text that stands for the whole text is the whole text
(`eq_of_decode?_of_sublist`).
-/

namespace Playground.Text.Percent

/-- Octets that stand for themselves are ASCII, and all that escapes are made of are some. -/
structure Faithful (keeps : UInt8 → Bool) : Prop where
  ascii : ∀ b, keeps b = true → b.toNat < 0x80
  percent : keeps 0x25 = true
  digit : ∀ b, (hexValue? b).isSome = true → keeps b = true

/-! ## Reading escapes -/

/-- The octet of the two digits at the start. -/
def leading? : List UInt8 → Option UInt8
  | a :: b :: _ => hexPair? a b
  | _ => none

theorem hexPair?_of_left {a : UInt8} (h : hexValue? a = none) (b : UInt8) :
    hexPair? a b = none := by
  rw [hexPair?, h]
  rfl

theorem hexPair?_of_right {b : UInt8} (h : hexValue? b = none) (a : UInt8) :
    hexPair? a b = none := by
  rw [hexPair?, h]
  cases hexValue? a <;> rfl

theorem isSome_of_hexPair? {a b x : UInt8} (h : hexPair? a b = some x) :
    (hexValue? a).isSome = true ∧ (hexValue? b).isSome = true := by
  constructor <;> rw [Option.isSome_iff_ne_none] <;> intro hnone
  · rw [hexPair?_of_left hnone] at h
    cases h
  · rw [hexPair?_of_right hnone] at h
    cases h

/-- An octet that an escape stands for comes from two digits behind the sign. -/
theorem exists_of_leading? {bs : List UInt8} {x : UInt8} (h : leading? bs = some x) :
    ∃ a b s, bs = a :: b :: s ∧ hexPair? a b = some x := by
  match bs, h with
  | a :: b :: s, h => exact ⟨a, b, s, rfl, h⟩

theorem decodeOctets_of_leading? {bs : List UInt8} (h : leading? bs = none) (done : List UInt8) :
    decodeOctets done (0x25 :: bs) = decodeOctets (0x25 :: done) bs := by
  match bs, h with
  | [], _ => rfl
  | [_], _ => rfl
  | a :: b :: s, h =>
    rw [leading?] at h
    rw [decodeOctets, h]

theorem length_decodeOctets_le (done bs : List UInt8) :
    (decodeOctets done bs).length ≤ done.length + bs.length := by
  fun_induction decodeOctets done bs with
  | case1 done => simp
  | case2 done a b s x h ih =>
    simp only [List.length_cons] at ih ⊢
    omega
  | case3 done a b s h ih =>
    simp only [List.length_cons] at ih ⊢
    omega
  | case4 done b s h ih =>
    simp only [List.length_cons] at ih ⊢
    omega

/-- Without a percent sign the octets stand for themselves. -/
theorem decodeOctets_of_notMem {bs : List UInt8} (h : 0x25 ∉ bs) (done : List UInt8) :
    decodeOctets done bs = done.reverse ++ bs := by
  induction bs generalizing done with
  | nil =>
    rw [List.append_nil]
    rfl
  | cons b bs ih =>
    rw [List.mem_cons, not_or] at h
    rw [decodeOctets_of_ne (Ne.symm h.1), ih h.2, List.reverse_cons, List.append_assoc,
      List.singleton_append]

/-- An octet that no escape is made of is left as it is. -/
theorem mem_decodeOctets {b : UInt8} (hsign : b ≠ 0x25) (hdigit : hexValue? b = none)
    {done bs : List UInt8} (h : b ∈ done ∨ b ∈ bs) : b ∈ decodeOctets done bs := by
  fun_induction decodeOctets done bs with
  | case1 done => simpa using h
  | case2 done a d s x hx ih =>
    obtain ⟨ha, hd⟩ := isSome_of_hexPair? hx
    have hne : ∀ {y : UInt8}, (hexValue? y).isSome = true → b ≠ y := by
      rintro y hy rfl
      rw [hdigit] at hy
      cases hy
    refine ih ?_
    simp only [List.mem_cons, hsign, hne ha, hne hd, false_or] at h ⊢
    exact h.imp_left Or.inr
  | case3 done a d s hx ih =>
    refine ih ?_
    simp only [List.mem_cons, hsign, false_or] at h ⊢
    exact h
  | case4 done d s hx ih =>
    refine ih ?_
    rw [List.mem_cons] at h ⊢
    rcases h with h | rfl | h
    · exact Or.inl (Or.inr h)
    · exact Or.inl (Or.inl rfl)
    · exact Or.inr h

/-! ## Writing escapes -/

/-- The octets as they are written. -/
def written (keeps : UInt8 → Bool) (bs : List UInt8) : List UInt8 :=
  (bs.flatMap (encodeOctet keeps)).map octet

section Written

variable {keeps : UInt8 → Bool} {b : UInt8}

theorem written_cons (keeps : UInt8 → Bool) (b : UInt8) (bs : List UInt8) :
    written keeps (b :: bs) = (encodeOctet keeps b).map octet ++ written keeps bs := by
  rw [written, List.flatMap_cons, List.map_append]
  rfl

theorem written_cons_of_kept (hk : Faithful keeps) (hb : keeps b = true) (bs : List UInt8) :
    written keeps (b :: bs) = b :: written keeps bs := by
  have hoctet : octet (Char.ofNat b.toNat) = b := by
    have hlt := hk.ascii b hb
    rw [octet, toNat_ofNat_of_isValid (Or.inl (by omega)), UInt8.ofNat_toNat]
  rw [written_cons, encodeOctet, if_pos hb, List.map_singleton, hoctet, List.singleton_append]

theorem written_cons_of_not_kept (hb : ¬ keeps b = true) (bs : List UInt8) :
    written keeps (b :: bs) = (encodeOctet (fun _ => false) b).map octet ++ written keeps bs := by
  rw [written_cons, encodeOctet, if_neg hb]
  rfl

/-- What is written for an octet that does not stand for itself starts with the sign. -/
theorem exists_written_cons_of_not_kept (hb : ¬ keeps b = true) (bs : List UInt8) :
    ∃ s, written keeps (b :: bs) = 0x25 :: s :=
  ⟨_, written_cons_of_not_kept hb bs⟩

/-- Writing makes no digits and takes none away. -/
theorem leading?_written (hk : Faithful keeps) (bs : List UInt8) :
    leading? (written keeps bs) = leading? bs := by
  have hnone : ∀ {a : UInt8}, ¬ keeps a = true → hexValue? a = none := fun {a} ha =>
    Option.not_isSome_iff_eq_none.mp fun h => ha (hk.digit a h)
  match bs with
  | [] => rfl
  | [a] =>
    by_cases ha : keeps a = true
    · rw [written_cons_of_kept hk ha]
      rfl
    · obtain ⟨s, hs⟩ := exists_written_cons_of_not_kept ha []
      rw [hs]
      cases s with
      | nil => rfl
      | cons d s => exact hexPair?_of_left (by decide) d
  | a :: b :: s =>
    by_cases ha : keeps a = true
    · rw [written_cons_of_kept hk ha]
      by_cases hb : keeps b = true
      · rw [written_cons_of_kept hk hb]
        rfl
      · obtain ⟨t, ht⟩ := exists_written_cons_of_not_kept hb s
        rw [ht, leading?, leading?, hexPair?_of_right (by decide), hexPair?_of_right (hnone hb)]
    · obtain ⟨t, ht⟩ := exists_written_cons_of_not_kept ha (b :: s)
      rw [ht, leading?, hexPair?_of_left (hnone ha)]
      cases t with
      | nil => rfl
      | cons d t => exact hexPair?_of_left (by decide) d

/-- What is written stands for the same octets. -/
theorem decodeOctets_written (hk : Faithful keeps) (done bs : List UInt8) :
    decodeOctets done (written keeps bs) = decodeOctets done bs := by
  induction hn : bs.length using Nat.strongRecOn generalizing done bs with
  | ind n ih =>
  subst hn
  match bs with
  | [] => rfl
  | b :: bs =>
    have hnext := fun done => ih bs.length (Nat.lt_add_one _) done bs rfl
    by_cases hb : b = 0x25
    · subst hb
      rw [written_cons_of_kept hk hk.percent]
      cases hx : leading? bs with
      | none =>
        rw [decodeOctets_of_leading? hx, decodeOctets_of_leading? (by rw [leading?_written hk, hx]),
          hnext]
      | some x =>
        -- Both digits stand for themselves, so the escape is still one.
        obtain ⟨a, d, s, rfl, hpair⟩ := exists_of_leading? hx
        obtain ⟨ha, hd⟩ := isSome_of_hexPair? hpair
        rw [written_cons_of_kept hk (hk.digit a ha), written_cons_of_kept hk (hk.digit d hd),
          decodeOctets_of_hexPair? hpair, decodeOctets_of_hexPair? hpair,
          ih s.length (by simp only [List.length_cons]; omega) _ s rfl]
    · rw [decodeOctets_of_ne hb]
      by_cases hkept : keeps b = true
      · rw [written_cons_of_kept hk hkept, decodeOctets_of_ne hb, hnext]
      · have hplain : Plain fun _ => false := fun _ h => nomatch h
        rw [written_cons_of_not_kept hkept, decodeOctets_encodeOctet hplain, hnext]

end Written

/-! ## Texts -/

/-- A written text stands for the octets that the text stands for. -/
theorem decode_encode {keeps : UInt8 → Bool} (hk : Faithful keeps) (s : List Char) :
    decode (encode keeps s) = decode s := by
  have hascii : ∀ c ∈ encode keeps s, c.toNat < 0x80 := by
    intro c hc
    obtain ⟨b, -, hb⟩ := List.mem_flatMap.mp hc
    exact ascii_of_mem_encodeOctet (hk.ascii b) hb
  rw [decode, Utf8.encode_of_ascii hascii]
  exact decodeOctets_written hk [] (Utf8.encode s)

theorem decode?_encode_of_faithful {keeps : UInt8 → Bool} (hk : Faithful keeps) (s : List Char) :
    decode? (encode keeps s) = decode? s := by
  rw [decode?, decode_encode hk, decode?]

/-- Without a percent sign a text stands for itself. -/
theorem decode?_of_notMem {s : List Char} (h : '%' ∉ s) : decode? s = some s := by
  have hsign : 0x25 ∉ Utf8.encode s := by
    intro hmem
    obtain ⟨c, hc, hb⟩ := List.mem_flatMap.mp hmem
    by_cases hascii : c.toNat < 0x80
    · rw [Utf8.encodeChar] at hb
      simp only [if_pos hascii, List.mem_singleton] at hb
      have hnat : c.toNat = '%'.toNat := by
        rw [← Utf8.toNat_ofNat (n := c.toNat) (by omega), ← hb]
        rfl
      exact h (Char.toNat_inj.mp hnat ▸ hc)
    · exact absurd (Utf8.le_of_mem_encodeChar (Nat.le_of_not_lt hascii) hb) (by decide)
  rw [decode?, decode, decodeOctets_of_notMem hsign]
  exact Utf8.decode?_encode s

/-- A part of a text that stands for the whole text is the whole text. -/
theorem eq_of_decode?_of_sublist {s t : List Char} (hpart : s.Sublist t)
    (h : decode? s = some t) : s = t := by
  have hlength : (Utf8.encode t).length ≤ (Utf8.encode s).length := by
    rw [← Utf8.eq_encode_of_decode? h, decode]
    simpa using length_decodeOctets_le [] (Utf8.encode s)
  have hoctets : Utf8.encode s = Utf8.encode t :=
    (hpart.flatMap Utf8.encodeChar).eq_of_length_le hlength
  have htext := Utf8.decode?_encode s
  rw [hoctets, Utf8.decode?_encode] at htext
  exact (Option.some.inj htext).symm

end Playground.Text.Percent
