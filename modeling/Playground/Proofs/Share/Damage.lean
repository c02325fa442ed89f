import Playground.Proofs.Share.Carrying
import Playground.Proofs.Share.RoundTrip
import Playground.Proofs.Share.Size
import Playground.Proofs.Text.Octets

/-!
# Damaged texts

What is left of a text of pairs when some of its pieces are damaged.  A piece is a pair if it
has a `=` and the octets behind it are those of a text (`IsPair`):

    compiler=g75      compiler is g75
    code=%4           code is %4, since no two digits follow the percent sign
    code=%ff          no pair, since the octet is no text
    junk              no pair

Of the pairs with one key the last one counts, whatever comes behind it that is no pair
(`intact_pairs_survive`).  The other pieces might as well not be there.
-/

namespace Playground.Share

open Text

/-- The piece is a pair of the key and the value.  The key ends at the first `=`, and the
value stands behind percent signs. -/
def IsPair (piece : List Char) (key value : String) : Prop :=
  ∃ written, piece = key.toList ++ '=' :: written ∧ '=' ∉ key.toList ∧
    Percent.decode written = Utf8.encode value.toList

/-- The piece is no pair. -/
def IsDamaged (piece : List Char) : Prop := ∀ key value, ¬IsPair piece key value

theorem pair?_eq_some_iff_isPair {piece : List Char} {key value : String} :
    pair? piece = some (key, value) ↔ IsPair piece key value := by
  rw [pair?_eq_some_iff, IsPair]
  simp only [Percent.decode?, Utf8.decode?_eq_some_iff]

theorem pair?_eq_none_iff {piece : List Char} : pair? piece = none ↔ IsDamaged piece := by
  rw [Option.eq_none_iff_forall_ne_some]
  constructor
  · intro h key value hpair
    exact h (key, value) (pair?_eq_some_iff_isPair.mpr hpair)
  · rintro h ⟨key, value⟩ hpair
    exact h key value (pair?_eq_some_iff_isPair.mp hpair)

/-- The key of a text is the last one of the pairs that the pieces give. -/
theorem get?_ofList_filterMap_iff {ps : List (List Char)} {key value : String} :
    (Fields.ofList (ps.filterMap pair?)).get? key = some value ↔
      ∃ before piece after, ps = before ++ piece :: after ∧ IsPair piece key value ∧
        ∀ p ∈ after, ∀ v, ¬IsPair p key v := by
  have hlater : ∀ after : List (List Char),
      key ∉ (after.filterMap pair?).map Prod.fst ↔ ∀ p ∈ after, ∀ v, ¬IsPair p key v := by
    intro after
    simp only [List.mem_map, List.mem_filterMap, Prod.exists, exists_and_right, exists_eq_right,
      not_exists, not_and, ← pair?_eq_some_iff_isPair]
    exact ⟨fun h p hp v => h v p hp, fun h v p hp => h p hp v⟩
  rw [Fields.get?_ofList_eq_some_iff]
  constructor
  · rintro ⟨first, last, hps, hkey⟩
    obtain ⟨before, rest, rfl, -, hrest⟩ := List.filterMap_eq_append_iff.mp hps
    obtain ⟨blank, piece, after, rfl, -, hpiece, rfl⟩ := List.filterMap_eq_cons_iff.mp hrest
    refine ⟨before ++ blank, piece, after, (List.append_assoc ..).symm, ?_, ?_⟩
    · exact pair?_eq_some_iff_isPair.mp hpiece
    · exact (hlater after).mp hkey
  · rintro ⟨before, piece, after, rfl, hpiece, hafter⟩
    refine ⟨before.filterMap pair?, after.filterMap pair?, ?_, (hlater after).mpr hafter⟩
    rw [List.filterMap_append, List.filterMap_cons_some (pair?_eq_some_iff_isPair.mpr hpiece)]

/-- The fields of pieces without separators are those of their pairs. -/
theorem fieldsOfQuery_join {ps : List (List Char)} (h : ∀ p ∈ ps, '&' ∉ p) :
    fieldsOfQuery (join '&' ps) = .ofList (ps.filterMap pair?) := by
  cases ps with
  | nil => rfl
  | cons p ps => rw [fieldsOfQuery, splitOn_join (List.cons_ne_nil p ps) h]

/-- A text of pieces, pressed into a fragment within the limits, has a field for each key of a
pair, with the value of the last pair of the key, and no other fields.  A damaged piece can be
left out. -/
theorem intact_pairs_survive (ps : List (List Char)) (hps : ∀ p ∈ ps, '&' ∉ p)
    (hfragment : (pressed (join '&' ps)).length ≤ maxFragment)
    (hpayload : (Utf16.encode (join '&' ps)).length ≤ maxPayload) :
    ∃ fields, fields? (String.ofList ('#' :: pressed (join '&' ps))) = some fields ∧
      (∀ key value, fields.get? key = some value ↔
        ∃ before piece after, ps = before ++ piece :: after ∧ IsPair piece key value ∧
          ∀ p ∈ after, ∀ v, ¬IsPair p key v) ∧
      ∀ before piece after, ps = before ++ piece :: after → IsDamaged piece →
        fields = fieldsOfQuery (join '&' (before ++ after)) := by
  refine ⟨fieldsOfQuery (join '&' ps), ?_, ?_, ?_⟩
  · have hpage : ('#' : Char) ∉ ([] : List Char) := List.not_mem_nil
    have hread := fieldsWithin?_pressed maxPayload hpage (join '&' ps)
    rw [if_pos ⟨hfragment, hpayload⟩] at hread
    exact hread
  · intro key value
    rw [fieldsOfQuery_join hps]
    exact get?_ofList_filterMap_iff
  · rintro before piece after rfl hdamaged
    have hothers : ∀ p ∈ before ++ after, '&' ∉ p := by
      intro p hp
      refine hps p ?_
      rw [List.mem_append, List.mem_cons]
      exact (List.mem_append.mp hp).imp_right Or.inr
    rw [fieldsOfQuery_join hps, fieldsOfQuery_join hothers, List.filterMap_append,
      List.filterMap_cons_none (pair?_eq_none_iff.mpr hdamaged), List.filterMap_append]

/-- The pieces of a text that has lost some of its values. -/
def damagedPieces : List (List Char) :=
  ["compiler=g75".toList, "junk".toList, "code=%F0%9F%98%80 = 100%".toList,
    "compiler=%FF".toList, "code=%zz%C3".toList, "=".toList]

theorem intact_pairs_survive_damagedPieces : (∀ p ∈ damagedPieces, '&' ∉ p) ∧
    (pressed (join '&' damagedPieces)).length ≤ maxFragment ∧
    (Utf16.encode (join '&' damagedPieces)).length ≤ maxPayload ∧
    ∃ fields, fields? (String.ofList ('#' :: pressed (join '&' damagedPieces))) = some fields ∧
      fields.get? "compiler" = some "g75" ∧ fields.get? "code" = some "😀 = 100%" ∧
      fields.get? "" = some "" := by
  have hps : ∀ p ∈ damagedPieces, '&' ∉ p := by decide +kernel
  have hlength : (Utf16.encode (join '&' damagedPieces)).length ≤ 3000 := by decide +kernel
  have hfragment := length_pressed_le hlength
  have hpayload : (Utf16.encode (join '&' damagedPieces)).length ≤ maxPayload :=
    Nat.le_trans hlength (by decide)
  obtain ⟨fields, hfields, hget, -⟩ := intact_pairs_survive damagedPieces hps hfragment hpayload
  refine ⟨hps, hfragment, hpayload, fields, hfields, ?_, ?_, ?_⟩
  all_goals rw [hget, ← get?_ofList_filterMap_iff]; decide +kernel

end Playground.Share
