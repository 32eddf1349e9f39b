import Stylesheet.Value.Color

/-!
# Values

What an expression evaluates to, and how a value prints. A string keeps whether it was quoted; the
pairs of a map keep their order.
-/

namespace Stylesheet

/-- What stands between the elements of a list. -/
inductive Separator where
  | space
  | comma
  deriving DecidableEq, Repr

def Separator.text : Separator → String
  | space => " "
  | comma => ", "

/-- The values of a stylesheet. -/
inductive Value where
  | bool (b : Bool)
  | color (c : Color)
  | list (items : List Value) (separator : Separator)
  | map (pairs : List (Value × Value))
  | number (value : Float) (unit : Option String)
  | null
  | string (text : String) (quoted : Bool)
  /-- A reference to a function. -/
  | function (name : String)

namespace Value

instance : Inhabited Value := ⟨null⟩

/-- A number without unit. -/
def bare (x : Float) : Value := number x none

def quoted (text : String) : Value := string text true

def unquoted (text : String) : Value := string text false

/-- Everything but `false` and `null`. -/
def isTruthy : Value → Bool
  | bool false | null => false
  | _ => true

def isNull : Value → Bool
  | null => true
  | _ => false

/-- The name of the type of a value. -/
def typeName : Value → String
  | bool _ => "bool"
  | color _ => "color"
  | list _ _ => "list"
  | map _ => "map"
  | number _ _ => "number"
  | null => "null"
  | string _ _ => "string"
  | function _ => "function"

/-- The elements of a value that is taken as a list. The elements of a map are its pairs, and any
other value is its own only element. -/
def elements : Value → List Value
  | list items _ => items
  | map pairs => pairs.map fun (k, v) => list [k, v] .space
  | v => [v]

mutual

/-- A value as it stands in a stylesheet. -/
def text : Value → String
  | bool b => if b then "true" else "false"
  | color c => c.text
  | list items separator => separator.text.intercalate (texts items)
  | map pairs => "(" ++ ", ".intercalate (pairTexts pairs) ++ ")"
  | number x unit => Number.short x ++ unit.getD ""
  | null => ""
  | string t true => "\"" ++ t ++ "\""
  | string t false => t
  | function name => "get-function(\"" ++ name ++ "\")"

/-- The texts of the elements of a list, of which nulls do not show. -/
def texts : List Value → List String
  | [] => []
  | null :: vs => texts vs
  | v :: vs => v.text :: texts vs

/-- The texts of the pairs of a map. -/
def pairTexts : List (Value × Value) → List String
  | [] => []
  | (k, v) :: rest => (k.text ++ ": " ++ v.text) :: pairTexts rest

end

/-- A value as it stands inside another text: a string without its quotes. -/
def plainText : Value → String
  | string t _ => t
  | v => v.text

end Value
end Stylesheet
