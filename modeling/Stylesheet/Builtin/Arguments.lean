import Stylesheet.Render.Error

/-!
# Arguments of built-in functions

How a built-in function looks at its arguments: their number, and the kind of value that it
expects of each.
-/

namespace Stylesheet
namespace Builtin

/-- What a call yields. -/
abbrev Result (α : Type) := Except CallFault α

/-- A call refused for its number of arguments. -/
def badCount {α : Type} (low high : Nat) (args : List Value) : Result α :=
  .error (.argumentCount low high args.length)

def numberOf : Value → Result (Float × Option String)
  | .number x unit => .ok (x, unit)
  | v => .error (.notANumber v)

def colorOf : Value → Result Color
  | .color c => .ok c
  | v => .error (.notAColor v)

/-- The text of a string and whether it is quoted. -/
def stringOf : Value → Result (String × Bool)
  | .string t quoted => .ok (t, quoted)
  | v => .error (.notAString v)

/-- The pairs of a map. An empty list is also an empty map. -/
def pairsOf : Value → Result (List (Value × Value))
  | .map pairs => .ok pairs
  | .list [] _ => .ok []
  | v => .error (.notAMap v)

/-- A function of one argument. -/
def one (f : Value → Result Value) (args : List Value) : Result Value :=
  match args with
  | [a] => f a
  | _ => badCount 1 1 args

/-- A function of two arguments. -/
def two (f : Value → Value → Result Value) (args : List Value) : Result Value :=
  match args with
  | [a, b] => f a b
  | _ => badCount 2 2 args

/-- The call as it stands in a stylesheet. -/
def written (name : String) (args : List Value) : Value :=
  .unquoted (name ++ "(" ++ ", ".intercalate (args.map Value.text) ++ ")")

end Builtin
end Stylesheet
