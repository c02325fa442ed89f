import Playground.Json.Value

/-!
# Shapes of JSON values

How a value of a known type is read.  A record is an object with its fields in any
order, or an array of their values in the declared order.  An object may hold
fields that are not known, but none of the known ones twice.  An array may leave
out fields at its end and holds no more values than there are fields.
-/

namespace Playground.Json

/-- The text of a string. -/
def asText? : Json → Option String
  | .text s => some s
  | _ => none

/-- The truth value. -/
def asBool? : Json → Option Bool
  | .bool b => some b
  | _ => none

/-- The number below `wordBound`. -/
def asWord? : Json → Option Nat
  | .number n => n.word?
  | _ => none

/-- The integer of 32 bits. -/
def asInt32? : Json → Option Int
  | .number n => n.int32?
  | _ => none

/-- The elements of an array. -/
def asArray? : Json → Option (List Json)
  | .array vs => some vs
  | _ => none

/-- The elements of an array, each read by `read`. -/
def asList? {α : Type} (read : Json → Option α) (v : Json) : Option (List α) := do
  (← v.asArray?).mapM read

/-- What `read` reads, or nothing for null. -/
def asOption? {α : Type} (read : Json → Option α) : Json → Option (Option α)
  | .null => some none
  | v => (read v).map some

/-- The values of a known field in an object. -/
def valuesOf (name : String) (ms : List (Option String × Json)) : List Json :=
  (ms.filter fun m => m.1 = some name).map Prod.snd

/-- The value of a field that occurs at most once. -/
def single? : List Json → Option (Option Json)
  | [] => some none
  | [v] => some (some v)
  | _ => none

/-- The fields of an object, in the order of their names. -/
def memberFields? (names : List String) (ms : List (Option String × Json)) :
    Option (List (Option Json)) :=
  if ms.all fun m => m.1.isSome then names.mapM fun name => single? (valuesOf name ms)
  else none

/-- The fields of an array, in the order of their names. -/
def elementFields? (names : List String) (vs : List Json) : Option (List (Option Json)) :=
  if vs.length ≤ names.length then
    some (vs.map some ++ List.replicate (names.length - vs.length) none)
  else none

/-- The fields of a record, in the order of their names. -/
def fields? (names : List String) : Json → Option (List (Option Json))
  | .object ms => memberFields? names ms
  | .array vs => elementFields? names vs
  | _ => none

/-- The alternative of a value that is written as its name.  An object with the
name as its only key and null as the value of that key means the same. -/
def asName? : Json → Option String
  | .text s => some s
  | .object [(some s, .null)] => some s
  | _ => none

/-- Arrays and objects may be nested this deep where a value is read before its
type is known. -/
def maxDepth : Nat := 127

/-- The alternative of a tagged record: its name, and its fields without the tag.
The tag is a field of the object, or the first element of the array. -/
def tagged? (tag : String) (v : Json) : Option (String × Json) :=
  if v.depth ≤ maxDepth then
    match v with
    | .object ms =>
      match valuesOf tag ms with
      | [.text name] =>
        let rest := ms.filter fun m => m.1 ≠ some tag
        if isPlain (.object rest) then some (name, .object rest) else none
      | _ => none
    | .array (.text name :: vs) =>
      if isPlain (.array vs) then some (name, .array vs) else none
    | _ => none
  else none

end Playground.Json
