import Mathlib.Data.List.Infix
import Playground.Proofs.Text.Escapes
import Playground.Proofs.Text.Pieces
import Playground.Url.Address

/-!
# Blanks and controls in a host

A host holds no blank and no control (`ofName?_of_edge`).  Such a character is no part of an
escape, so it is still there when the ASCII form is taken, which refuses it.  So an address of
the web loses its host when blanks are put behind its host or its port
(`withAuthority?_append_edges`).

The simple ASCII form keeps the laws (`simpleAscii_lawful`), since Punycode keeps what is ASCII.
-/

namespace Playground.Url

open Text

/-! ## The simple ASCII form -/

namespace Punycode

theorem Writer.prefix_step {p : List Char} {w : Writer} (h : p <+: w.text) (basic n : Nat)
    (c : Char) : p <+: (w.step basic n c).text := by
  unfold Writer.step
  split
  · exact h
  · split
    · exact h.trans (List.prefix_append ..)
    · exact h

/-- The ASCII form of a label starts with what is ASCII in it. -/
theorem filter_prefix_encode (label : List Char) :
    (label.filter fun c => c.toNat < 128) <+: encode label := by
  unfold encode
  dsimp only
  generalize hp : (label.filter fun c => decide (c.toNat < 128)) = p
  generalize hr : List.foldl _ _ (others label) = r
  subst hr
  refine List.foldlRecOn (motive := fun r : Writer × Nat => p <+: r.1.text) _ _
    (List.prefix_append ..) fun r hr n _ => ?_
  exact List.foldlRecOn (motive := fun w : Writer => p <+: w.text) label _ hr
    fun w hw c _ => Writer.prefix_step hw _ _ c

end Punycode

theorem mem_asciiLabel {label : List Char} {c : Char} (hc : c ∈ label) (hascii : c.toNat < 128) :
    c ∈ asciiLabel label := by
  unfold asciiLabel
  split
  · exact hc
  · refine List.mem_append_right _ ((Punycode.filter_prefix_encode label).subset ?_)
    exact List.mem_filter.mpr ⟨hc, decide_eq_true hascii⟩

theorem formed?_eq_none {ascii : List Char} {c : Char} (hc : c ∈ ascii)
    (hforbidden : isForbiddenInName c = true) : formed? ascii = none :=
  if_pos (Or.inr (List.any_eq_true.mpr ⟨c, hc, hforbidden⟩))

theorem toLower_of_edge : ∀ n ≤ 0x20, (Char.ofNat n).toLower = Char.ofNat n := by decide

theorem isForbiddenInName_of_edge : ∀ n ≤ 0x20, isForbiddenInName (Char.ofNat n) = true := by
  decide

theorem toNat_toLower_lt : ∀ n < 128, (Char.ofNat n).toLower.toNat < 128 := by decide

/-- Labels that are ASCII in lower case are as they were. -/
theorem map_asciiLabel_splitOn {s : List Char} (hs : (splitOn '.' s).all isPlainLabel) :
    (splitOn '.' (s.map Char.toLower)).map asciiLabel = splitOn '.' (s.map Char.toLower) := by
  have hascii : ∀ c ∈ s, c.toNat < 128 := by
    intro c hc
    by_cases hdot : c = '.'
    · rw [hdot]
      decide
    · obtain ⟨label, hlabel, hmem⟩ := exists_mem_splitOn hc hdot
      have hplain := List.all_eq_true.mp hs label hlabel
      rw [isPlainLabel, Bool.and_eq_true] at hplain
      exact of_decide_eq_true (List.all_eq_true.mp hplain.1 c hmem)
  refine (List.map_congr_left fun label hlabel => ?_).trans (List.map_id _)
  refine if_pos (List.all_eq_true.mpr fun c hc => decide_eq_true ?_)
  have hmem : c ∈ s.map Char.toLower := by
    rw [← join_splitOn '.' (s.map Char.toLower)]
    exact mem_join_of_mem hlabel hc
  obtain ⟨d, hd, rfl⟩ := List.mem_map.mp hmem
  rw [← Char.ofNat_toNat d]
  exact toNat_toLower_lt d.toNat (hascii d hd)

theorem simpleAscii_lawful : simpleAscii.Lawful where
  plain := by
    intro s hs
    rw [simpleAscii, map_asciiLabel_splitOn hs, join_splitOn]
  blank := by
    intro s c hc hle
    have hchar : Char.ofNat c.toNat = c := Char.ofNat_toNat c
    have hlower : c ∈ s.map Char.toLower := by
      have hself := toLower_of_edge c.toNat hle
      rw [hchar] at hself
      exact List.mem_map.mpr ⟨c, hc, hself⟩
    have hdot : c ≠ '.' := by
      rintro rfl
      exact absurd hle (by decide)
    obtain ⟨label, hlabel, hmem⟩ := exists_mem_splitOn hlower hdot
    have hascii : c ∈ asciiLabel label := mem_asciiLabel hmem (by omega)
    have hforbidden := isForbiddenInName_of_edge c.toNat hle
    rw [hchar] at hforbidden
    exact formed?_eq_none (mem_join_of_mem (List.mem_map_of_mem hlabel) hascii) hforbidden

/-! ## Names -/

/-- The octet of a blank or a control is no part of an escape. -/
theorem octet_of_edge : ∀ n ≤ 0x20, UInt8.ofNat n ≠ 0x25 ∧ hexValue? (UInt8.ofNat n) = none := by
  decide

section Lawful

variable {toAscii : ToAscii} (hlaw : toAscii.Lawful)
include hlaw

/-- A name of plain labels does not depend on the tables. -/
theorem ofName?_of_plain {s : List Char}
    (hs : (splitOn '.' (Utf8.decodeLossy (Percent.decode s))).all isPlainLabel) :
    ofName? toAscii s = ofName? simpleAscii s := by
  rw [ofName?, ofName?, hlaw.plain _ hs, simpleAscii_lawful.plain _ hs]

/-- A name holds no blank and no control. -/
theorem ofName?_of_edge {s : List Char} {c : Char} (hc : c ∈ s) (hedge : isEdge c = true) :
    ofName? toAscii s = none := by
  have hle : c.toNat ≤ 0x20 := of_decide_eq_true hedge
  have hchar : Char.ofNat c.toNat = c := Char.ofNat_toNat c
  have hnat : (UInt8.ofNat c.toNat).toNat = c.toNat := Utf8.toNat_ofNat (by omega)
  obtain ⟨hsign, hdigit⟩ := octet_of_edge c.toNat hle
  have hoctet : UInt8.ofNat c.toNat ∈ Utf8.encode s := by
    refine List.mem_flatMap.mpr ⟨c, hc, ?_⟩
    rw [Utf8.encodeChar, if_pos (by omega)]
    exact List.mem_singleton_self _
  have hlossy : c ∈ Utf8.decodeLossy (Percent.decode s) := by
    have hdecoded : UInt8.ofNat c.toNat ∈ Percent.decode s :=
      Percent.mem_decodeOctets hsign hdigit (Or.inr hoctet)
    have hmem := Utf8.mem_decodeLossy_of_ascii hdecoded (by omega)
    rwa [hnat, hchar] at hmem
  rw [ofName?, hlaw.blank _ c hlossy hle]
  rfl

end Lawful

/-! ## Hosts and ports -/

section Edges

variable {toAscii : ToAscii} {e : List Char}

theorem notMem_of_edges (he : ∀ c ∈ e, isEdge c = true) {sep : Char} (hsep : isEdge sep = false) :
    sep ∉ e := by
  intro hmem
  rw [he sep hmem] at hsep
  cases hsep

/-- A host does not end in a blank or a control. -/
theorem hostRead?_append_edges (hlaw : toAscii.Lawful) (he : ∀ c ∈ e, isEdge c = true)
    (hne : e ≠ []) (s : List Char) : Host.read? toAscii true (s ++ e) = none := by
  have hlast := List.getLast_mem hne
  unfold Host.read?
  split
  · next r heq =>
    split
    · next hbracket =>
      -- The last character is one of `e`, and not a bracket.
      have hend : (s ++ e).getLast? = some (e.getLast hne) := by
        rw [List.getLast?_append_of_ne_nil _ hne, List.getLast?_eq_getLast_of_ne_nil hne]
      rw [heq, List.getLast?_cons, hbracket] at hend
      have hedge := he _ hlast
      rw [← Option.some.inj hend] at hedge
      exact absurd hedge (by decide)
    · rfl
  · exact ofName?_of_edge hlaw (List.mem_append_right s hlast) (he _ hlast)

/-- A port does not end in a blank or a control. -/
theorem port?_append_edges (he : ∀ c ∈ e, isEdge c = true) (hne : e ≠ []) (scheme s : List Char) :
    port? scheme (s ++ e) = none := by
  have hlast := List.getLast_mem hne
  have hdigit : ∀ c : Char, isEdge c = true → c.isDigit = false := by
    intro c hc
    have hle : c.toNat ≤ 0x20 := of_decide_eq_true hc
    have hall : ∀ n ≤ 0x20, (Char.ofNat n).isDigit = false := by decide
    have h := hall c.toNat hle
    rwa [Char.ofNat_toNat] at h
  have hall : (s ++ e).all Char.isDigit = false :=
    List.all_eq_false.mpr ⟨_, List.mem_append_right s hlast, by simp [hdigit _ (he _ hlast)]⟩
  unfold port?
  rw [if_pos (by simp [hall])]

/-- A text without colons is put behind the port, or behind the host if there is no port. -/
theorem splitPort_append (he : ':' ∉ e) (inside : Bool) (s : List Char) :
    splitPort inside (s ++ e) =
      match (splitPort inside s).2 with
      | some t => ((splitPort inside s).1, some (t ++ e))
      | none => ((splitPort inside s).1 ++ e, none) := by
  induction s generalizing inside with
  | nil =>
    show splitPort inside e = (e, none)
    induction e generalizing inside with
    | nil => rfl
    | cons c e ih =>
      rw [List.mem_cons, not_or] at he
      have hc : ¬ (c = ':' ∧ (!inside) = true) := fun h => he.1 h.1.symm
      rw [splitPort, if_neg hc]
      dsimp only
      rw [ih he.2]
  | cons c s ih =>
    rw [List.cons_append, splitPort, splitPort]
    by_cases hc : c = ':' ∧ (!inside) = true
    · rw [if_pos hc, if_pos hc]
    · rw [if_neg hc, if_neg hc]
      dsimp only
      rw [ih]
      cases (splitPort ((inside || c = '[') && c ≠ ']') s).2 <;> rfl

theorem splitLast?_append {sep : Char} (he : sep ∉ e) (s : List Char) :
    splitLast? sep (s ++ e) = (splitLast? sep s).map fun p => (p.1, p.2 ++ e) := by
  have hreverse : sep ∉ e.reverse := fun h => he (List.mem_reverse.mp h)
  unfold splitLast?
  rw [List.reverse_append, splitFirst?_append_of_notMem hreverse, Option.map_map, Option.map_map]
  congr 1
  funext p
  simp

/-- Blanks behind the host or the port of an address of the web leave no address. -/
theorem withAuthority?_append_edges (hlaw : toAscii.Lawful) (he : ∀ c ∈ e, isEdge c = true)
    (hne : e ≠ []) {scheme : List Char} (hweb : isWeb scheme = true) (authority path : List Char)
    (query fragment : Option (List Char)) :
    withAuthority? toAscii scheme (authority ++ e) path query fragment = none := by
  have hplace : ∀ place : List Char,
      Host.read? toAscii true (splitPort false (place ++ e)).1 = none ∨
        port? scheme ((splitPort false (place ++ e)).2.getD []) = none := by
    intro place
    rw [splitPort_append (notMem_of_edges he (by decide))]
    split
    · next t _ => exact Or.inr (port?_append_edges he hne scheme t)
    · exact Or.inl (hostRead?_append_edges hlaw he hne _)
  unfold withAuthority?
  rw [splitLast?_append (notMem_of_edges he (by decide)), hweb]
  cases splitLast? '@' authority
  all_goals
    dsimp only [Option.map]
    split
    · rfl
    · rcases hplace _ with h | h
      · rw [h]
        rfl
      · rw [h]
        cases Host.read? toAscii true _ <;> rfl

end Edges

end Playground.Url
