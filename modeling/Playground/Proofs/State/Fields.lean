import Mathlib.Data.List.Induction
import Mathlib.Data.List.Nodup
import Playground.State

/-!
# Fields of a state

A map of fields is known by the texts of its keys (`get?_eq_some_iff`).  A state takes each
of its fields from a map that names it and keeps the others (`toPairs_apply`).

The fields of a state make any state that state, in whatever order they are written.

Maps compose: applying two of them one after the other is applying the first one with the
second written over it (`apply_extend`).
-/

namespace Playground

/-! ## Maps -/

namespace Fields

theorem get?_eq_some_iff {m : Fields} {key value : String} :
    m.get? key = some value ↔ (key, value) ∈ m.toList := by
  unfold get?
  constructor
  · intro h
    obtain ⟨p, hp, rfl⟩ := Option.map_eq_some_iff.mp h
    have hkey : p.1 = key := by simpa using List.find?_some hp
    rw [← hkey]
    exact List.mem_of_find?_eq_some hp
  · intro h
    cases hp : m.toList.find? (·.1 = key) with
    | none => simpa using List.find?_eq_none.mp hp _ h
    | some p =>
      have hkey : p.1 = key := by simpa using List.find?_some hp
      have heq : p = (key, value) :=
        List.inj_on_of_nodup_map m.nodup (List.mem_of_find?_eq_some hp) h hkey
      rw [heq]
      rfl

theorem get?_foldl_insert_eq_none_iff {ps : List (String × String)} {m : Fields} {key : String} :
    (ps.foldl (fun m p => m.insert p.1 p.2) m).get? key = none ↔
      m.get? key = none ∧ key ∉ ps.map Prod.fst := by
  induction ps generalizing m with
  | nil => simp
  | cons p ps ih =>
    rw [List.foldl_cons, ih, get?_insert, List.map_cons, List.mem_cons]
    by_cases h : key = p.1
    · simp [h]
    · simp [h]

/-- A list of pairs gives a map of the keys in it. -/
theorem get?_ofList_eq_none_iff {ps : List (String × String)} {key : String} :
    (ofList ps).get? key = none ↔ key ∉ ps.map Prod.fst := by
  rw [ofList, get?_foldl_insert_eq_none_iff]
  exact and_iff_right rfl

theorem ofList_concat (ps : List (String × String)) (p : String × String) :
    ofList (ps ++ [p]) = (ofList ps).insert p.1 p.2 := by
  rw [ofList, List.foldl_append]
  rfl

/-- Of several texts of a key the last one counts. -/
theorem get?_ofList_eq_some_iff {ps : List (String × String)} {key value : String} :
    (ofList ps).get? key = some value ↔
      ∃ before after, ps = before ++ (key, value) :: after ∧ key ∉ after.map Prod.fst := by
  induction ps using List.reverseRecOn with
  | nil => simp [ofList, get?_empty]
  | append_singleton ps p ih =>
    rw [ofList_concat, get?_insert]
    by_cases h : key = p.1
    · rw [if_pos h]
      constructor
      · intro hvalue
        refine ⟨ps, [], ?_, List.not_mem_nil⟩
        rw [h, ← Option.some.inj hvalue]
      · rintro ⟨before, after, hps, hkey⟩
        rcases List.eq_nil_or_concat' after with rfl | ⟨after, q, rfl⟩
        · rw [(List.append_inj' hps rfl).2 |> List.singleton_inj.mp]
        · rw [← List.cons_append, ← List.append_assoc] at hps
          obtain ⟨-, hq⟩ := List.append_inj' hps rfl
          rw [h, List.singleton_inj.mp hq] at hkey
          simp at hkey
    · rw [if_neg h, ih]
      constructor
      · rintro ⟨before, after, rfl, hkey⟩
        refine ⟨before, after ++ [p], by rw [List.append_assoc, List.cons_append], ?_⟩
        simpa [h] using hkey
      · rintro ⟨before, after, hps, hkey⟩
        rcases List.eq_nil_or_concat' after with rfl | ⟨after, q, rfl⟩
        · obtain ⟨-, hp⟩ := List.append_inj' hps rfl
          rw [List.singleton_inj.mp hp] at h
          exact absurd rfl h
        · rw [← List.cons_append, ← List.append_assoc] at hps
          obtain ⟨rfl, -⟩ := List.append_inj' hps rfl
          refine ⟨before, after, rfl, fun hmem => hkey ?_⟩
          rw [List.map_append]
          exact List.mem_append_left _ hmem

/-- A map that is written over another one has its texts, and otherwise those of the other. -/
theorem get?_extend (m n : Fields) (key : String) :
    (m.extend n).get? key = (n.get? key).or (m.get? key) := by
  have hn : n.get? key = (n.toList.find? (·.1 = key)).map Prod.snd := rfl
  rw [extend, hn]
  have hnodup := n.nodup
  generalize n.toList = ps at hnodup
  clear hn
  induction ps generalizing m with
  | nil => rfl
  | cons p ps ih =>
    rw [List.map_cons, List.nodup_cons] at hnodup
    rw [List.foldl_cons, ih _ hnodup.2, get?_insert]
    by_cases h : p.1 = key
    · have hnone : ps.find? (·.1 = key) = none := by
        rw [List.find?_eq_none]
        intro q hq hkey
        have hkey : q.1 = p.1 := (by simpa using hkey : q.1 = key).trans h.symm
        exact hnodup.1 (hkey ▸ List.mem_map_of_mem hq)
      rw [if_pos h.symm, hnone, List.find?_cons_of_pos (by simpa using h)]
      rfl
    · rw [if_neg (Ne.symm h), List.find?_cons_of_neg (by simpa using h)]

/-- Pairs with new keys are written behind those there are. -/
theorem toList_foldl_insert {ps : List (String × String)} {m : Fields}
    (h : ((m.toList ++ ps).map Prod.fst).Nodup) :
    (ps.foldl (fun m p => m.insert p.1 p.2) m).toList = m.toList ++ ps := by
  induction ps generalizing m with
  | nil => exact (List.append_nil _).symm
  | cons p ps ih =>
    have hkeys : ∀ q ∈ m.toList, q.1 ≠ p.1 := by
      intro q hq heq
      rw [List.map_append, List.nodup_append] at h
      exact h.2.2 q.1 (List.mem_map_of_mem hq) p.1 (List.mem_cons_self ..) heq
    have hinsert : (m.insert p.1 p.2).toList = m.toList ++ [p] := by
      show m.toList.filter (fun q => !decide (q.1 = p.1)) ++ [(p.1, p.2)] = _
      rw [List.filter_eq_self.mpr fun q hq => by simp [hkeys q hq]]
    rw [List.append_cons] at h
    rw [List.foldl_cons, ih (by rwa [hinsert]), hinsert, List.append_assoc, List.singleton_append]

theorem toList_ofList {ps : List (String × String)} (h : (ps.map Prod.fst).Nodup) :
    (ofList ps).toList = ps :=
  toList_foldl_insert (m := empty) h

end Fields

/-! ## States -/

namespace State

/-- The text of the field of a key when `value` has been written to it. -/
def written (key value : String) : String :=
  if key = "show_compiler_log" then flagText (value = "true") else value

theorem toPairs_set (s : State) (key value : String) :
    (s.set key value).toPairs =
      s.toPairs.map fun p => if p.1 = key then (p.1, written key value) else p := by
  unfold set
  split
  · next h => subst h; rfl
  · split
    · next h => subst h; rfl
    · split
      · next h => subst h; rfl
      · split
        · next h => subst h; rfl
        · next hcode hcompiler hflags hlog =>
          simp [toPairs, Ne.symm hcode, Ne.symm hcompiler, Ne.symm hflags, Ne.symm hlog]

theorem toPairs_foldl_set (s : State) {ps : List (String × String)}
    (hps : (ps.map Prod.fst).Nodup) :
    (ps.foldl (fun s p => s.set p.1 p.2) s).toPairs = s.toPairs.map fun p =>
      (p.1, ((ps.find? (·.1 = p.1)).map fun q => written p.1 q.2).getD p.2) := by
  induction ps generalizing s with
  | nil => simp
  | cons q ps ih =>
    rw [List.map_cons, List.nodup_cons] at hps
    rw [List.foldl_cons, ih _ hps.2, toPairs_set, List.map_map]
    apply List.map_congr_left
    intro p _
    rw [Function.comp_apply]
    by_cases h : q.1 = p.1
    · -- No later pair has the key again.
      have hnone : ps.find? (·.1 = q.1) = none := by
        rw [List.find?_eq_none]
        intro r hr hkey
        have hr1 : r.1 = q.1 := by simpa using hkey
        exact hps.1 (hr1 ▸ List.mem_map_of_mem hr)
      rw [if_pos h.symm, List.find?_cons_of_pos (by simpa using h)]
      dsimp only
      rw [← h, hnone]
      rfl
    · rw [if_neg (Ne.symm h), List.find?_cons_of_neg (by simpa using h)]

/-- A state takes the fields that a map names from it, and keeps the others. -/
theorem toPairs_apply (s : State) (m : Fields) :
    (s.apply m).toPairs =
      s.toPairs.map fun p => (p.1, ((m.get? p.1).map (written p.1)).getD p.2) := by
  rw [apply, toPairs_foldl_set s m.nodup]
  simp only [Fields.get?, Option.map_map]
  rfl

theorem nodup_keys : keys.Nodup := by decide

theorem toList_toFields (s : State) : s.toFields.toList = s.toPairs :=
  Fields.toList_ofList nodup_keys

/-- Two fields can be written in any order. -/
theorem set_set_comm (s : State) {k k' : String} (h : k ≠ k') (v v' : String) :
    (s.set k v).set k' v' = (s.set k' v').set k v := by
  unfold set
  repeat' split
  all_goals first | rfl | simp_all

theorem foldl_set_toPairs (s t : State) : s.toPairs.foldl (fun t p => t.set p.1 p.2) t = s := by
  obtain ⟨code, compiler, flags, log⟩ := s
  cases log <;> simp [toPairs, set, flagText]

/-- Pairs with different keys can be written in any order. -/
theorem foldl_set_perm (t : State) {ps qs : List (String × String)} (h : ps.Perm qs)
    (hqs : (qs.map Prod.fst).Nodup) :
    ps.foldl (fun t p => t.set p.1 p.2) t = qs.foldl (fun t p => t.set p.1 p.2) t := by
  refine h.foldl_eq' ?_ t
  intro p hp q hq u
  by_cases hkey : p.1 = q.1
  · have hpq : p = q :=
      List.inj_on_of_nodup_map hqs (h.mem_iff.mp hp) (h.mem_iff.mp hq) hkey
    rw [hpq]
  · exact u.set_set_comm hkey p.2 q.2

/-- The fields of a state make any state that state, in any order. -/
theorem foldl_set_of_perm (s t : State) {ps : List (String × String)} (h : ps.Perm s.toPairs) :
    ps.foldl (fun t p => t.set p.1 p.2) t = s :=
  (foldl_set_perm t h nodup_keys).trans (foldl_set_toPairs s t)

/-- The fields of a state as a map make any state that state. -/
theorem apply_toFields (s t : State) : t.apply s.toFields = s := by
  rw [apply, toList_toFields, foldl_set_toPairs]

/-! ## Maps that are applied -/

/-- The fields of a state tell which one it is. -/
theorem eq_of_toPairs_eq {s t : State} (h : s.toPairs = t.toPairs) : s = t := by
  rw [← foldl_set_toPairs s t, h, foldl_set_toPairs]

/-- Two maps that agree on the keys of the fields do the same to a state. -/
theorem apply_congr (s : State) {m n : Fields} (h : ∀ key ∈ keys, m.get? key = n.get? key) :
    s.apply m = s.apply n := by
  apply eq_of_toPairs_eq
  rw [toPairs_apply, toPairs_apply]
  refine List.map_congr_left fun p hp => ?_
  rw [h p.1 (s.map_fst_toPairs ▸ List.mem_map_of_mem hp)]

/-- A map that names no field changes nothing. -/
theorem apply_of_forall_eq_none (s : State) {m : Fields} (h : ∀ key ∈ keys, m.get? key = none) :
    s.apply m = s :=
  s.apply_congr (n := .empty) h

/-- Two maps one after the other are the second one written over the first. -/
theorem apply_extend (s : State) (m n : Fields) : s.apply (m.extend n) = (s.apply m).apply n := by
  apply eq_of_toPairs_eq
  rw [toPairs_apply, toPairs_apply, toPairs_apply, List.map_map]
  refine List.map_congr_left fun p _ => ?_
  rw [Function.comp_apply, Fields.get?_extend]
  cases n.get? p.1 <;> rfl

/-- A map that is applied again changes nothing more. -/
theorem apply_apply_self (s : State) (m : Fields) : (s.apply m).apply m = s.apply m := by
  rw [← apply_extend]
  refine s.apply_congr fun key _ => ?_
  rw [Fields.get?_extend, Option.or_self]

end State

end Playground
