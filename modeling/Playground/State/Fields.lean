/-!
# Fields

A finite map from keys to texts, the shape in which a state is stored and shared.
It is a list of pairs with distinct keys.  `get?_insert` describes a write.
-/

namespace Playground

/-- A map from keys to texts. -/
structure Fields where
  /-- The pairs of key and text. -/
  toList : List (String × String)
  /-- No key occurs twice. -/
  nodup : (toList.map Prod.fst).Nodup
deriving DecidableEq, Repr

namespace Fields

/-- The map without keys. -/
def empty : Fields := ⟨[], List.nodup_nil⟩

instance : Inhabited Fields := ⟨empty⟩

/-- The text of a key. -/
def get? (m : Fields) (key : String) : Option String :=
  (m.toList.find? (·.1 = key)).map Prod.snd

/-- The map with the text of one key written. -/
def insert (m : Fields) (key value : String) : Fields where
  toList := m.toList.filter (fun p => !decide (p.1 = key)) ++ [(key, value)]
  nodup := by
    rw [List.map_append, List.nodup_append]
    refine ⟨m.nodup.sublist (List.filter_sublist.map _), by simp, ?_⟩
    intro a ha b hb
    simp only [List.mem_map, List.mem_filter] at ha
    obtain ⟨p, ⟨_, hp⟩, rfl⟩ := ha
    simp only [List.map_cons, List.map_nil, List.mem_singleton] at hb
    subst hb
    simpa using hp

/-- The map of a list of pairs, where a later pair wins. -/
def ofList (ps : List (String × String)) : Fields :=
  ps.foldl (fun m p => m.insert p.1 p.2) empty

/-- The map `m` with every pair of `n` written over it. -/
def extend (m n : Fields) : Fields := n.toList.foldl (fun m p => m.insert p.1 p.2) m

/-- The map has no key. -/
def isEmpty (m : Fields) : Bool := m.toList.isEmpty

theorem get?_empty (key : String) : empty.get? key = none := rfl

theorem get?_insert (m : Fields) (key value k : String) :
    (m.insert key value).get? k = if k = key then some value else m.get? k := by
  simp only [get?, insert, List.find?_append, List.find?_filter]
  by_cases h : k = key
  · subst h
    have hn : (m.toList.find? fun p => decide ((!decide (p.1 = k)) = true ∧
        decide (p.1 = k) = true)) = none := by
      simp [List.find?_eq_none]
    rw [hn]
    simp
  · have hf : (fun p : String × String => decide ((!decide (p.1 = key)) = true ∧
        decide (p.1 = k) = true)) = fun p => decide (p.1 = k) := by
      funext p
      by_cases hp : p.1 = k
      · simp [hp, h]
      · simp [hp]
    rw [hf, if_neg h]
    cases m.toList.find? fun p => decide (p.1 = k) with
    | some p => simp
    | none => simp [Ne.symm h]

end Fields

end Playground
