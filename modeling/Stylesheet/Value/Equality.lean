import Stylesheet.Value.Basic

/-!
# Equality of values

Two values are equal if they look alike up to the quotes of strings. Numbers are equal when they
have the same unit and differ by next to nothing. Two maps are equal when they have the same
number of pairs and each pair of the first has an equal pair in the second.
-/

namespace Stylesheet
namespace Value

/-- Numbers that differ by less than this are equal. -/
def tolerance : Float := 1e-10

mutual

/-- Whether two values are equal. -/
def same : Value → Value → Bool
  | string s _, string t _ => s == t
  | number x u, number y v => u == v && (x - y).abs < tolerance
  | list xs s, list ys t => s == t && sameAll xs ys
  | map ps, map qs => ps.length == qs.length && pairsAmong ps qs
  | bool a, bool b => a == b
  | color c, color d => c == d
  | null, null => true
  | function f, function g => f == g
  | _, _ => false

/-- Whether two lists of values are equal place by place. -/
def sameAll : List Value → List Value → Bool
  | [], [] => true
  | x :: xs, y :: ys => x.same y && sameAll xs ys
  | _, _ => false

/-- Whether each pair of the first list has an equal pair in the second. -/
def pairsAmong : List (Value × Value) → List (Value × Value) → Bool
  | [], _ => true
  | (k, v) :: rest, qs => qs.any (fun q => k.same q.1 && v.same q.2) && pairsAmong rest qs

end

end Value
end Stylesheet
