import Playground.Proofs.Text.Transcoding

/-!
# Well formed octets

Octets are read as a text exactly if they are the octets of the text (`decode?_eq_some_iff`).
The machine stands between two characters, or within one of which it has read some octets
(`Opens`), or it has met an ill formed part and stays with it.  `Stands` says where it stands
behind the octets it has read.
-/

namespace Playground.Text.Utf8

/-! ## The octets of a code point -/

/-- An octet is the one of its number. -/
theorem eq_ofNat {b : UInt8} {n : Nat} (h : b.toNat = n) : b = UInt8.ofNat n := by
  rw [← h, UInt8.ofNat_toNat]

theorem encodeChar_one {n : Nat} (h : n < 0x80) : encodeChar (Char.ofNat n) = [UInt8.ofNat n] := by
  rw [encodeChar, toNat_ofNat_of_isValid (Or.inl (by omega))]
  exact if_pos h

theorem encodeChar_two {n : Nat} (hlow : 0x80 ≤ n) (hhigh : n < 0x800) :
    encodeChar (Char.ofNat n) = [UInt8.ofNat (0xC0 + n / 64), UInt8.ofNat (0x80 + n % 64)] := by
  rw [encodeChar, toNat_ofNat_of_isValid (Or.inl (by omega))]
  rw [if_neg (by omega), if_pos hhigh]

theorem encodeChar_three {n : Nat} (hlow : 0x800 ≤ n) (hhigh : n < 0x10000)
    (hvalid : n.isValidChar) : encodeChar (Char.ofNat n) =
      [UInt8.ofNat (0xE0 + n / 4096), UInt8.ofNat (0x80 + n / 64 % 64),
        UInt8.ofNat (0x80 + n % 64)] := by
  rw [encodeChar, toNat_ofNat_of_isValid hvalid]
  rw [if_neg (by omega), if_neg (by omega), if_pos hhigh]

theorem encodeChar_four {n : Nat} (hlow : 0x10000 ≤ n) (hhigh : n < 0x110000) :
    encodeChar (Char.ofNat n) =
      [UInt8.ofNat (0xF0 + n / 262144), UInt8.ofNat (0x80 + n / 4096 % 64),
        UInt8.ofNat (0x80 + n / 64 % 64), UInt8.ofNat (0x80 + n % 64)] := by
  rw [encodeChar, toNat_ofNat_of_isValid (Or.inr ⟨by omega, hhigh⟩)]
  rw [if_neg (by omega), if_neg (by omega), if_neg (by omega)]

/-! ## Within a character -/

/-- The octets open a character: with as many more as are missing, of which the first one is
within the bounds, they are the octets of the character. -/
def Opens (read : List UInt8) (bits low high : Nat) : Nat → Prop
  | 0 => False
  | 1 => ∀ b : UInt8, low ≤ b.toNat → b.toNat ≤ high →
      read ++ [b] = encodeChar (Char.ofNat (bits * 64 + b.toNat % 64))
  | missing + 2 => ∀ b : UInt8, low ≤ b.toNat → b.toNat ≤ high →
      Opens (read ++ [b]) (bits * 64 + b.toNat % 64) 0x80 0xBF (missing + 1)

theorem opens_two {a : UInt8} {k : Nat} (ha : a.toNat = 0xC0 + k) (hk : 2 ≤ k ∧ k < 0x20) :
    Opens [a] k 0x80 0xBF 1 := by
  intro b hlow hhigh
  rw [encodeChar_two (by omega) (by omega)]
  simp only [List.singleton_append, List.cons.injEq, and_true]
  exact ⟨eq_ofNat (by omega), eq_ofNat (by omega)⟩

/-- The bounds on the second octet keep out what is overlong and the surrogates. -/
theorem opens_three {a : UInt8} {k low high : Nat} (ha : a.toNat = 0xE0 + k) (hk : k < 0x10)
    (hbounds : 0x80 ≤ low ∧ high ≤ 0xBF) (hlow : k = 0 → 0xA0 ≤ low)
    (hhigh : k = 0xD → high ≤ 0x9F) : Opens [a] k low high 2 := by
  intro b hb hb' c hc hc'
  rw [encodeChar_three (by omega) (by omega) (by unfold Nat.isValidChar; omega)]
  simp only [List.cons_append, List.nil_append, List.cons.injEq, and_true]
  exact ⟨eq_ofNat (by omega), eq_ofNat (by omega), eq_ofNat (by omega)⟩

/-- The bounds on the second octet keep out what is overlong and what is above all
characters. -/
theorem opens_four {a : UInt8} {k low high : Nat} (ha : a.toNat = 0xF0 + k) (hk : k < 5)
    (hbounds : 0x80 ≤ low ∧ high ≤ 0xBF) (hlow : k = 0 → 0x90 ≤ low)
    (hhigh : k = 4 → high ≤ 0x8F) : Opens [a] k low high 3 := by
  intro b hb hb' c hc hc' d hd hd'
  rw [encodeChar_four (by omega) (by omega)]
  simp only [List.cons_append, List.nil_append, List.cons.injEq, and_true]
  exact ⟨eq_ofNat (by omega), eq_ofNat (by omega), eq_ofNat (by omega), eq_ofNat (by omega)⟩

/-- The first octet of a longer character opens it. -/
theorem opens_of_lead {a : UInt8} {p : Partial} (h : lead a.toNat = .open p) :
    Opens [a] p.bits p.low p.high p.missing := by
  unfold lead at h
  repeat' split at h
  all_goals simp only [Lead.open.injEq, reduceCtorEq] at h
  all_goals subst h; dsimp only
  · exact opens_two (by omega) (by omega)
  · exact opens_three (by omega) (by omega) (by omega) (by omega) (by omega)
  · exact opens_three (by omega) (by omega) (by omega) (by omega) (by omega)
  · exact opens_three (by omega) (by omega) (by omega) (by omega) (by omega)
  · exact opens_four (by omega) (by omega) (by omega) (by omega) (by omega)
  · exact opens_four (by omega) (by omega) (by omega) (by omega) (by omega)
  · exact opens_four (by omega) (by omega) (by omega) (by omega) (by omega)

/-- An octet that is an item of its own is a character of ASCII or ill formed. -/
theorem item_of_lead {a : UInt8} {i : Item} (h : lead a.toNat = .item i) :
    i = .bad ∨ ∃ c, i = .char c ∧ encodeChar c = [a] := by
  unfold lead at h
  repeat' split at h
  all_goals cases h
  · next ha =>
    refine Or.inr ⟨_, rfl, ?_⟩
    rw [encodeChar_one ha, UInt8.ofNat_toNat]
  · exact Or.inl rfl
  · exact Or.inl rfl

/-! ## Runs of the machine -/

/-- Where the machine stands behind some octets. -/
inductive Stands : List UInt8 → State → Prop where
  /-- Behind a text. -/
  | between (s : List Char) : Stands (encode s) ⟨(s.map Item.char).reverse, none⟩
  /-- Within the character that follows a text. -/
  | within (s : List Char) (read : List UInt8) (p : Partial)
      (opens : Opens read p.bits p.low p.high p.missing) :
      Stands (encode s ++ read) ⟨(s.map Item.char).reverse, some p⟩
  /-- Behind an ill formed part. -/
  | behind (bytes : List UInt8) (st : State) (bad_mem : .bad ∈ st.found) : Stands bytes st

theorem mem_start {found : List Item} {i : Item} (h : i ∈ found) (b : Nat) :
    i ∈ (State.start found b).found := by
  unfold State.start
  split
  · exact List.mem_cons_of_mem _ h
  · exact h

/-- What is found is not lost. -/
theorem mem_step {st : State} {i : Item} (h : i ∈ st.found) (b : UInt8) :
    i ∈ (st.step b).found := by
  unfold State.step
  split
  · exact mem_start h _
  · split
    · dsimp only
      split
      · exact List.mem_cons_of_mem _ h
      · exact h
    · exact mem_start (List.mem_cons_of_mem _ h) _

/-- One more octet takes the machine to where it stands behind it. -/
theorem Stands.step {bytes : List UInt8} {st : State} (h : Stands bytes st) (b : UInt8) :
    Stands (bytes ++ [b]) (st.step b) := by
  cases h with
  | behind bytes st hbad => exact .behind _ _ (mem_step hbad b)
  | between s =>
    show Stands _ (State.start _ b.toNat)
    unfold State.start
    cases hlead : lead b.toNat with
    | «open» p => exact .within s [b] p (opens_of_lead hlead)
    | item i =>
      rcases item_of_lead hlead with rfl | ⟨c, rfl, hc⟩
      · exact .behind _ _ (List.mem_cons_self ..)
      · have hnext := Stands.between (s ++ [c])
        rw [encode_append, encode_singleton, hc, List.map_append, List.reverse_append] at hnext
        exact hnext
  | within s read p hopens =>
    obtain ⟨bits, missing, low, high⟩ := p
    unfold State.step
    dsimp only at hopens ⊢
    split
    · next hb =>
      match missing, hopens with
      | 0, hopens => exact hopens.elim
      | 1, hopens =>
        have hnext := Stands.between (s ++ [Char.ofNat (bits * 64 + b.toNat % 64)])
        rw [encode_append, encode_singleton, ← hopens b hb.1 hb.2, ← List.append_assoc,
          List.map_append, List.reverse_append] at hnext
        exact hnext
      | missing + 2, hopens =>
        rw [if_neg (by omega), List.append_assoc]
        exact .within s _ _ (hopens b hb.1 hb.2)
    · exact .behind _ _ (mem_start (List.mem_cons_self ..) _)

theorem stands_foldl {bytes : List UInt8} {st : State} (h : Stands bytes st) (bs : List UInt8) :
    Stands (bytes ++ bs) (bs.foldl State.step st) := by
  induction bs generalizing bytes st with
  | nil => rwa [List.append_nil]
  | cons b bs ih =>
    rw [List.append_cons]
    exact ih (h.step b)

/-! ## Octets of ASCII -/

/-- The machine goes on within a character only with octets beyond ASCII. -/
def Awaits (st : State) : Prop := ∀ p ∈ st.current, 0x80 ≤ p.low

theorem low_of_lead {b : Nat} {p : Partial} (h : lead b = .open p) : 0x80 ≤ p.low := by
  unfold lead at h
  repeat' split at h
  all_goals simp only [Lead.open.injEq, reduceCtorEq] at h
  all_goals
    subst h
    exact Nat.le_of_ble_eq_true rfl

theorem awaits_start (found : List Item) (b : Nat) : Awaits (State.start found b) := by
  intro p hp
  unfold State.start at hp
  split at hp
  · cases hp
  · next hlead =>
    cases hp
    exact low_of_lead hlead

theorem awaits_step (st : State) (b : UInt8) : Awaits (st.step b) := by
  unfold State.step
  split
  · exact awaits_start _ _
  · split
    · dsimp only
      split
      · intro p hp
        cases hp
      · intro p hp
        cases hp
        exact Nat.le_refl 0x80
    · exact awaits_start _ _

/-- An octet of ASCII is a character wherever the machine stands. -/
theorem mem_step_of_ascii {st : State} (h : Awaits st) {b : UInt8} (hb : b.toNat < 0x80) :
    .char (Char.ofNat b.toNat) ∈ (st.step b).found := by
  have hstart : ∀ found, .char (Char.ofNat b.toNat) ∈ (State.start found b.toNat).found := by
    intro found
    rw [State.start, lead_one hb]
    exact List.mem_cons_self ..
  unfold State.step
  split
  · exact hstart _
  · next p hp =>
    rw [if_neg fun hbounds => by have := h p hp; omega]
    exact hstart _

theorem mem_items_of_ascii {bytes : List UInt8} {b : UInt8} (hmem : b ∈ bytes)
    (hb : b.toNat < 0x80) : .char (Char.ofNat b.toNat) ∈ items bytes := by
  have hfound : .char (Char.ofNat b.toNat) ∈ (bytes.foldl State.step ⟨[], none⟩).found := by
    obtain ⟨before, after, rfl⟩ := List.append_of_mem hmem
    rw [List.foldl_append, List.foldl_cons]
    have hawaits : Awaits (before.foldl State.step ⟨[], none⟩) :=
      List.foldlRecOn (motive := Awaits) before _ (fun _ hp => nomatch hp)
        fun st _ b _ => awaits_step st b
    exact List.foldlRecOn (motive := fun st : State => .char (Char.ofNat b.toNat) ∈ st.found)
      after _ (mem_step_of_ascii hawaits hb) fun _ h b _ => mem_step h b
  unfold items
  dsimp only
  rw [List.mem_reverse]
  split
  · exact List.mem_cons_of_mem _ hfound
  · exact hfound

/-- A character of ASCII is read wherever its octet stands. -/
theorem mem_decodeLossy_of_ascii {bytes : List UInt8} {b : UInt8} (hmem : b ∈ bytes)
    (hb : b.toNat < 0x80) : Char.ofNat b.toNat ∈ decodeLossy bytes :=
  List.mem_map.mpr ⟨_, mem_items_of_ascii hmem hb, rfl⟩

/-! ## Texts -/

/-- Items with an ill formed part are no text. -/
theorem mapM_char?_of_bad {is : List Item} (h : .bad ∈ is) : is.mapM Item.char? = none := by
  obtain ⟨before, after, rfl⟩ := List.append_of_mem h
  rw [List.mapM_append, List.mapM_cons]
  cases before.mapM Item.char? <;> rfl

/-- Only the octets of a text are read as the text. -/
theorem eq_encode_of_decode? {bytes : List UInt8} {s : List Char} (h : decode? bytes = some s) :
    bytes = encode s := by
  have hstands := stands_foldl (.between []) bytes
  change Stands bytes (bytes.foldl State.step ⟨[], none⟩) at hstands
  have hread := h
  unfold decode? items at h
  dsimp only at h
  generalize bytes.foldl State.step ⟨[], none⟩ = st at h hstands
  cases hstands with
  | between t =>
    rw [decode?_encode] at hread
    rw [Option.some.inj hread]
  | within t read p _ =>
    rw [mapM_char?_of_bad (by simp)] at h
    cases h
  | behind bytes st hbad =>
    rw [mapM_char?_of_bad (by split <;> simp [hbad])] at h
    cases h

/-- Octets are read as a text exactly if they are the octets of the text. -/
theorem decode?_eq_some_iff {bytes : List UInt8} {s : List Char} :
    decode? bytes = some s ↔ bytes = encode s :=
  ⟨eq_encode_of_decode?, fun h => h ▸ decode?_encode s⟩

end Playground.Text.Utf8
