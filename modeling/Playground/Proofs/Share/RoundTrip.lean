import Mathlib.Data.List.TakeWhile
import Playground.Proofs.Share.Expansion
import Playground.Proofs.Share.Packing
import Playground.Proofs.Share.Size
import Playground.Proofs.State.Fields
import Playground.Proofs.Text.Pieces
import Playground.Share.Link

/-!
# Links that are followed

A link that was made of a state gives back the fields of the state, if its fragment and
the text in it are within the limits, and nothing otherwise (`fields?_link`).  Each part
of a link is read as it was written: the fragment of the address, the letters, the codes,
the pairs and the values behind percent signs.
-/

namespace Playground

namespace Share

open Text

/-! ## Pairs -/

/-- A key can stand in a text of pairs. -/
def IsKey (key : String) : Prop := '&' ∉ key.toList ∧ '=' ∉ key.toList

theorem isKey_of_mem_keys : ∀ key ∈ State.keys, IsKey key := by
  unfold IsKey
  decide +kernel

theorem pair?_eq {p : String × String} (h : IsKey p.1) :
    pair? (p.1.toList ++ '=' :: Percent.encode Percent.isUnreserved p.2.toList) = some p := by
  rw [pair?, splitFirst?_append h.2]
  simp only [Option.bind_eq_bind, Option.bind_some]
  rw [Percent.decode?_encode Percent.plain_isUnreserved, Option.bind_some, String.ofList_toList,
    String.ofList_toList]
  rfl

/-- Pairs are found again in their text. -/
theorem fieldsOfQuery_query {ps : List (String × String)} (hne : ps ≠ [])
    (hkeys : ∀ p ∈ ps, IsKey p.1) : fieldsOfQuery (query ps) = .ofList ps := by
  have hsep : ∀ w ∈ ps.map fun p => p.1.toList ++ '=' ::
      Percent.encode Percent.isUnreserved p.2.toList, '&' ∉ w := by
    intro w hw hmem
    obtain ⟨p, hp, rfl⟩ := List.mem_map.mp hw
    simp only [List.mem_append, List.mem_cons] at hmem
    rcases hmem with hmem | hmem | hmem
    · exact (hkeys p hp).1 hmem
    · cases hmem
    · exact (Percent.mem_encode_isUnreserved hmem).1 rfl
  have hmap : ps.map (fun p => p.1.toList ++ '=' ::
      Percent.encode Percent.isUnreserved p.2.toList) ≠ [] := by simpa using hne
  rw [fieldsOfQuery, query, splitOn_join hmap hsep, List.filterMap_map]
  have hread : ∀ p ∈ ps, (pair? ∘ fun p : String × String => p.1.toList ++ '=' ::
      Percent.encode Percent.isUnreserved p.2.toList) p = some p :=
    fun p hp => pair?_eq (hkeys p hp)
  rw [List.filterMap_congr hread, List.filterMap_some]

/-! ## Letters -/

/-- A text is found again in its letters, if both are within the limits. -/
theorem payload?_pressed (limit : Nat) (s : List Char) :
    payload? limit (pressed s) =
      if (pressed s).length ≤ maxFragment ∧ (Utf16.encode s).length ≤ limit then some s
      else none := by
  obtain ⟨k, hunpack⟩ := unpack?_pack ((compress (Utf16.encode s)).flatMap Code.bits)
  obtain ⟨ps, hps, hunits, hsize⟩ :=
    expand?_compress (Utf16.encode s) (List.replicate k false)
  have hletters : Utf8.size (pressed s) = (pressed s).length := size_pack _
  rw [← pressed] at hunpack
  rw [payload?, hletters]
  by_cases hfragment : (pressed s).length ≤ maxFragment
  · rw [if_neg (Nat.not_lt_of_le hfragment), hunpack]
    simp only [Option.bind_eq_bind, Option.bind_some]
    rw [hps, Option.bind_some, hsize]
    by_cases hpayload : (Utf16.encode s).length ≤ limit
    · rw [if_neg (Nat.not_lt_of_le hpayload), if_pos ⟨hfragment, hpayload⟩, hunits]
      exact Utf16.decode?_encode s
    · rw [if_pos (Nat.lt_of_not_le hpayload), if_neg fun h => hpayload h.2]
      rfl
  · rw [if_pos (Nat.lt_of_not_le hfragment), if_neg fun h => hfragment h.1]
    rfl

/-! ## Links -/

/-- A text behind the first `#` of an address gives its fields, within the limits. -/
theorem fieldsWithin?_pressed (limit : Nat) {page : List Char} (hpage : '#' ∉ page)
    (s : List Char) :
    fieldsWithin? limit (String.ofList (page ++ '#' :: pressed s)) =
      if (pressed s).length ≤ maxFragment ∧ (Utf16.encode s).length ≤ limit then
        some (fieldsOfQuery s)
      else none := by
  have htrim : trim (pressed s) = pressed s := trim_pack _
  have hne : pressed s ≠ [] := pack_ne_nil _
  rw [fieldsWithin?, String.toList_ofList, splitFirst?_append hpage]
  simp only [Option.bind_eq_bind, Option.bind_some]
  rw [htrim, if_neg hne, payload?_pressed]
  split <;> rfl

theorem link_eq (base : String) (s : State) :
    link base s =
      String.ofList (withoutFragment base.toList ++ '#' :: pressed (query s.toPairs)) := by
  rw [link, fragment, ← String.ofList_append]

theorem hash_notMem_withoutFragment (url : List Char) : '#' ∉ withoutFragment url := by
  intro hmem
  have := List.mem_takeWhile_imp hmem
  simp at this

theorem fieldsWithin?_link (limit : Nat) (base : String) (s : State) :
    fieldsWithin? limit (link base s) =
      if (pressed (query s.toPairs)).length ≤ maxFragment ∧
        (Utf16.encode (query s.toPairs)).length ≤ limit then some s.toFields
      else none := by
  have hpairs : s.toPairs ≠ [] := List.cons_ne_nil _ _
  have hkeys : ∀ p ∈ s.toPairs, IsKey p.1 := fun p hp =>
    isKey_of_mem_keys p.1 (s.map_fst_toPairs ▸ List.mem_map_of_mem hp)
  rw [link_eq, fieldsWithin?_pressed limit (hash_notMem_withoutFragment base.toList),
    fieldsOfQuery_query hpairs hkeys]
  rfl

/-- Behind the sign of the fragment stand the letters of the text. -/
theorem tail_fragment (s : State) : (fragment s).toList.tail = pressed (query s.toPairs) := by
  rw [fragment, String.toList_ofList, List.tail_cons]

/-- A link that was made of a state gives back the four fields of the state within the
limits, and nothing beyond them.  Written in any order, they make any state that state. -/
theorem fields?_link (base : String) (s : State) :
    fields? (link base s) =
      (if (fragment s).toList.tail.length ≤ maxFragment ∧
        (Utf16.encode (query s.toPairs)).length ≤ maxPayload then some s.toFields
      else none) ∧
    s.toFields.toList = s.toPairs ∧
    (∀ t : State, t.apply s.toFields = s) ∧
    ∀ (t : State) (ps : List (String × String)), ps.Perm s.toFields.toList →
      ps.foldl (fun t p => t.set p.1 p.2) t = s := by
  refine ⟨?_, s.toList_toFields, ?_, ?_⟩
  · rw [tail_fragment]
    exact fieldsWithin?_link maxPayload base s
  · intro t
    rw [State.apply, s.toList_toFields]
    exact State.foldl_set_toPairs s t
  · intro t ps hps
    exact State.foldl_set_of_perm s t (s.toList_toFields ▸ hps)

/-- A state with the signs of a query in its code. -/
def queryState : State := ⟨"auto é = a & b; // 100%", "g93", "-std=c++2a", false⟩

theorem fields?_link_queryState :
    fields? (link "https://example.org/?q=1#old" queryState) = some queryState.toFields ∧
    queryState.toPairs.reverse.Perm queryState.toFields.toList ∧
    queryState.toPairs.reverse.foldl (fun t p => t.set p.1 p.2) .initial = queryState := by
  obtain ⟨hfields, hpairs, -, hany⟩ := fields?_link "https://example.org/?q=1#old" queryState
  have hperm : queryState.toPairs.reverse.Perm queryState.toFields.toList := by
    rw [hpairs]
    exact List.reverse_perm _
  have ⟨hletters, hpayload⟩ : Fits queryState := fits_of_length_le (by decide +kernel)
  rw [tail_fragment, if_pos ⟨hletters, hpayload⟩] at hfields
  exact ⟨hfields, hperm, hany .initial _ hperm⟩

end Share

end Playground
