import Stylesheet.Value.Equality

/-!
# Maps

The pairs of a map under equality of keys: looking a key up, merging two maps, and removing keys.
The pairs keep their order; a merged key keeps its place and takes the new value.
-/

namespace Stylesheet
namespace Pairs

/-- The value under a key. -/
def get? (pairs : List (Value × Value)) (key : Value) : Option Value :=
  (pairs.find? (·.1.same key)).map (·.2)

def hasKey (pairs : List (Value × Value)) (key : Value) : Bool := pairs.any (·.1.same key)

/-- Set a key. -/
def put (key value : Value) : List (Value × Value) → List (Value × Value)
  | [] => [(key, value)]
  | p :: ps => if p.1.same key then (p.1, value) :: ps else p :: put key value ps

/-- Set every key of the second map in the first. -/
def merge (pairs others : List (Value × Value)) : List (Value × Value) :=
  others.foldl (fun ps p => put p.1 p.2 ps) pairs

/-- The pairs whose key is none of the given ones. -/
def remove (pairs : List (Value × Value)) (keys : List Value) : List (Value × Value) :=
  pairs.filter fun p => !keys.any (·.same p.1)

/-- Whether no key is equal to an earlier one. -/
def Distinct (pairs : List (Value × Value)) : Prop :=
  pairs.Pairwise fun p q => p.1.same q.1 = false

end Pairs
end Stylesheet
