import Stylesheet.Plain.Basic
import Stylesheet.Value.Basic

/-!
# Plain values of stylesheet values

Every value but a reference to a function has a plain form. Units, quotes and separators are
dropped, a color becomes its text, and the keys of a map become texts.
-/

namespace Stylesheet
namespace Plain

mutual

/-- The plain form of a value. -/
def ofValue : Value → Plain
  | .bool b => bool b
  | .color c => string c.text
  | .list items _ => list (ofValues items)
  | .map pairs => ofEntries (ofPairs pairs)
  | .number x _ => number x
  | .null => null
  | .string t _ => string t
  | .function _ => undefined

/-- The plain forms of the elements of a list. -/
def ofValues : List Value → List Plain
  | [] => []
  | v :: vs => ofValue v :: ofValues vs

/-- The plain forms of the pairs of a map. -/
def ofPairs : List (Value × Value) → List (String × Plain)
  | [] => []
  | (k, v) :: rest => ((ofValue k).keyText, ofValue v) :: ofPairs rest

end

end Plain
end Stylesheet
