import Stylesheet.Plain.OfValue
import Stylesheet.Proofs.Table.LastWrites

/-!
# Plain forms follow the structure of values

The plain form of a value is made of the plain forms of its parts. The keys of a map become texts,
so that pairs of it may collapse: the first one gives the place and the last one the value.

* `Value.stripped`: a value without units, quotes and separators.
* `ofValue_stripped`: the plain form does not depend on them.
* `ofValue_structural`: undefined for references to functions only, element by element in a list,
  and written in order in a map.
-/

namespace Stylesheet

namespace Value

mutual

/-- A value without the units of its numbers, the quotes of its strings and the separators of its
lists, at any depth. -/
def stripped : Value → Value
  | list items _ => list (strippedAll items) .space
  | map pairs => map (strippedPairs pairs)
  | number x _ => number x none
  | string t _ => string t false
  | v => v

def strippedAll : List Value → List Value
  | [] => []
  | v :: vs => v.stripped :: strippedAll vs

def strippedPairs : List (Value × Value) → List (Value × Value)
  | [] => []
  | (k, v) :: rest => (k.stripped, v.stripped) :: strippedPairs rest

end

end Value

namespace Plain

/-! ### Lists and maps by their parts -/

theorem ofValues_eq_map (vs : List Value) : ofValues vs = vs.map ofValue := by
  induction vs with
  | nil => rfl
  | cons v vs ih => rw [ofValues, ih, List.map_cons]

theorem ofPairs_eq_map (pairs : List (Value × Value)) :
    ofPairs pairs = pairs.map fun p => ((ofValue p.1).keyText, ofValue p.2) := by
  induction pairs with
  | nil => rfl
  | cons p pairs ih => rw [ofPairs, ih, List.map_cons]

theorem ofValue_list (items : List Value) (separator : Separator) :
    ofValue (.list items separator) = .list (items.map ofValue) := by
  rw [ofValue, ofValues_eq_map]

/-- **The plain form of a map** is the table of its pairs, the later ones over the earlier. -/
theorem ofValue_map (pairs : List (Value × Value)) :
    ofValue (.map pairs) =
      .map (Table.ofList (pairs.map fun p => ((ofValue p.1).keyText, ofValue p.2))).entries := by
  rw [ofValue, ofEntries, ofPairs_eq_map]

/-- **Undefined** is the plain form of references to functions, and of nothing else. -/
theorem ofValue_eq_undefined {v : Value} :
    ofValue v = .undefined ↔ ∃ name, v = .function name := by
  constructor
  · intro h
    cases v with
    | function name => exact ⟨name, rfl⟩
    | map pairs =>
      rw [ofValue_map] at h
      cases h
    | _ => cases h
  · rintro ⟨name, rfl⟩
    rfl

/-! ### What the plain form does not depend on -/

mutual

/-- **Units, quotes and separators** do not show in the plain form. -/
theorem ofValue_stripped : ∀ v : Value, ofValue v.stripped = ofValue v
  | .list items _ => by
    rw [Value.stripped, ofValue, ofValue, ofValues_stripped items]
  | .map pairs => by
    rw [Value.stripped, ofValue, ofValue, ofPairs_stripped pairs]
  | .number _ _ | .string _ _ | .bool _ | .color _ | .null | .function _ => rfl

theorem ofValues_stripped : ∀ vs : List Value, ofValues (Value.strippedAll vs) = ofValues vs
  | [] => rfl
  | v :: vs => by
    rw [Value.strippedAll, ofValues, ofValues, ofValue_stripped v, ofValues_stripped vs]

/-- The texts of the keys do not depend on them either. -/
theorem ofPairs_stripped :
    ∀ pairs : List (Value × Value), ofPairs (Value.strippedPairs pairs) = ofPairs pairs
  | [] => rfl
  | (k, v) :: rest => by
    rw [Value.strippedPairs, ofPairs, ofPairs, ofValue_stripped k, ofValue_stripped v,
      ofPairs_stripped rest]

end

/-- **The plain form of a value follows its structure.** It is undefined for references to
functions only. The elements of a list stay in their places. A map has the texts of its keys in the
order in which they first came, each with the plain form of the last value under it. Two values
that differ in units, quotes and separators only have the same plain form. -/
theorem ofValue_structural :
    (∀ v, ofValue v = .undefined ↔ ∃ name, v = .function name) ∧
    (∀ items separator, ofValue (.list items separator) = .list (items.map ofValue)) ∧
    (∀ pairs, ∃ t : Table String Plain, ofValue (.map pairs) = .map t.entries ∧
      t.LastWrites (fun p => (ofValue p.1).keyText) (fun p => ofValue p.2) pairs) ∧
    ∀ v w : Value, v.stripped = w.stripped → ofValue v = ofValue w := by
  refine ⟨fun v => ofValue_eq_undefined, ofValue_list, ?_, ?_⟩
  · intro pairs
    exact ⟨_, ofValue_map pairs, Table.lastWrites_ofList _ _ pairs⟩
  · intro v w h
    rw [← ofValue_stripped v, h, ofValue_stripped w]

/-- Keys of all kinds that become the same text collapse, and two values that differ in a unit,
in quotes and in separators have one plain form. -/
theorem ofValue_structural_nested :
    let v : Value := .map [(.list [.string "a" true, .null] .comma, .function "f"),
      (.function "g", .number 1 (some "px")), (.string "a," false, .map []),
      (.map [], .list [.function "h"] .space)]
    let w : Value := .map [(.list [.string "a" false, .null] .space, .function "f"),
      (.function "g", .number 1 none), (.string "a," true, .map []),
      (.map [], .list [.function "h"] .comma)]
    ofValue v = .map [("a,", .map []), ("undefined", .number 1),
      ("[object Object]", .list [.undefined])] ∧ ofValue v = ofValue w :=
  ⟨rfl, ofValue_structural.2.2.2 _ _ rfl⟩

end Plain
end Stylesheet
