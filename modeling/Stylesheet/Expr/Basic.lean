import Stylesheet.Name
import Stylesheet.Value.Fault

/-!
# Expressions

What an expression asks for, once its items are read. An expression that is not well formed is
kept as far as it goes: the fault stands at the place where the evaluation meets it.
-/

namespace Stylesheet

/-- An expression. -/
inductive Expr where
  | literal (v : Value)
  /-- Nothing that can be evaluated. -/
  | invalid (f : Fault)
  /-- Something left over behind an expression. -/
  | trailing (e : Expr) (f : Fault)
  | variable (name : String)
  /-- A variable of a module. -/
  | member (space name : String)
  /-- A call, with its text in the source. An argument may have a keyword. -/
  | call (name : String) (arguments : List (Option Name × Expr)) (printed : String)
  /-- A call of a function of a module. -/
  | memberCall (space name : String) (arguments : List (Option Name × Expr))
  | list (items : List Expr) (separator : Separator)
  | map (pairs : List (Expr × Expr))
  /-- The text of a value. -/
  | interpolation (e : Expr)
  /-- The texts of two values with nothing between them. -/
  | glued (first second : Expr)
  | binary (op : Operator) (left right : Expr)
  | negative (e : Expr)
  | positive (e : Expr)
  | not (e : Expr)

namespace Expr

instance : Inhabited Expr := ⟨literal .null⟩

/-- The same reference to a variable or function, taken from a module. -/
def inNamespace (space : String) : Expr → Expr
  | .variable name => member space name
  | call name arguments _ => memberCall space name arguments
  | e => e

end Expr

/-- One element of an expression, blanks and marks told apart. -/
inductive Item where
  | space
  | comma
  | colon
  | op (text : String)
  | variable (name : String)
  /-- Anything else that has a value, with its text in the source. -/
  | atom (e : Expr) (printed : String)
  /-- A variable or function of a module. -/
  | member (e : Expr) (printed : String)

namespace Item

/-- How messages call an item. -/
def describe : Item → String
  | space => "whitespace"
  | comma => "\",\""
  | colon => "\":\""
  | op text => "\"" ++ text ++ "\""
  | .variable name => "\"$" ++ name ++ "\""
  | atom _ printed | member _ printed => "\"" ++ printed ++ "\""

def isSpace : Item → Bool
  | space => true
  | _ => false

def isColon : Item → Bool
  | colon => true
  | _ => false

/-- The expression of an item that may be glued to the one before it. -/
def atom? : Item → Option Expr
  | .variable name => some (.variable name)
  | atom e _ => some e
  | _ => none

/-- Whether an item starts another element of a list. -/
def startsElement : Item → Bool
  | op _ | .variable _ | atom _ _ | member _ _ => true
  | space | comma | colon => false

end Item
end Stylesheet
