import Stylesheet.Value.Basic

/-!
# Faults

What can be wrong with an operation, an expression or a rule when it is evaluated, and how each
fault is worded.
-/

namespace Stylesheet

/-- The two-place operations. -/
inductive Operator where
  | or
  | and
  | equal
  | unequal
  | less
  | lessEqual
  | greater
  | greaterEqual
  | plus
  | minus
  | times
  | slash
  | percent
  deriving DecidableEq, Repr

namespace Operator

def text : Operator → String
  | or => "or"
  | and => "and"
  | equal => "=="
  | unequal => "!="
  | less => "<"
  | lessEqual => "<="
  | greater => ">"
  | greaterEqual => ">="
  | plus => "+"
  | minus => "-"
  | times => "*"
  | slash => "/"
  | percent => "%"

/-- All of them, the loosest first. -/
def all : List Operator :=
  [or, and, equal, unequal, less, lessEqual, greater, greaterEqual, plus, minus, times, slash,
    percent]

/-- The operator with the given text. -/
def ofText? (t : String) : Option Operator := all.find? (·.text == t)

end Operator

/-- Why an evaluation cannot go on. -/
inductive Fault where
  /-- An operation that its operands do not have. -/
  | undefinedOperation (left : Value) (op : Operator) (right : Value)
  | incompatibleUnits (left right : String)
  /-- A product or quotient of numbers with units that has no unit of its own. -/
  | noCssValue (left : Value) (op : Operator) (right : Value)
  | unequalAlpha (left : Value) (op : Operator) (right : Value)
  | missingExpression
  /-- Something else where an expression should start. -/
  | notAnExpression (found : String)
  /-- Something left over after an expression. -/
  | leftOver (found : String)
  | missingColonInMap
  | duplicateKey (key : Value)
  /-- Something else where an argument should end. -/
  | argumentNotClosed (found : String)
  | positionalAfterKeyword
  | invalidNumber (text : String)
  | noNamespace (name : String)
  | elseWithoutIf
  | returnOutsideFunction
  | ruleInFunction
  /-- An at-rule that has no place in a function. -/
  | notInFunctions (keyword : String)
  /-- An at-rule that has its place at the top of a stylesheet only. -/
  | notHere (keyword : String)
  | eachWithoutIn
  | eachWithoutVariable
  | forWithoutFrom
  | forWithoutBound
  | forWithoutVariable
  | notAnInteger (value : Value)
  /-- A loop that runs longer than allowed. -/
  | loopLimit (keyword : String) (limit : Nat)
  | missingSignature
  | invalidParameters (function : String)
  | restNotLast (function : String)
  | missingUrl (keyword : String)
  | missingNamespace (keyword : String)
  | missingMap (keyword : String)
  /-- Something in a rule that loads a module that does not belong there. -/
  | unexpectedInRule (found keyword : String)
  | invalidConfiguration
  | namespaceTaken (name : String)
  | noBuiltinModule (url : String)
  | builtinConfigured
  /-- A configuration for a module that is loaded already. -/
  | alreadyLoaded (url : String)

namespace Fault

/-- An operation with its operands. -/
def operation (left : Value) (op : Operator) (right : Value) : String :=
  left.text ++ " " ++ op.text ++ " " ++ right.text

def message : Fault → String
  | undefinedOperation l op r => "Undefined operation \"" ++ operation l op r ++ "\"."
  | incompatibleUnits l r => "Incompatible units " ++ l ++ " and " ++ r ++ "."
  | noCssValue l op r => operation l op r ++ " isn't a valid CSS value."
  | unequalAlpha l op r => "Alpha channels must be equal: " ++ operation l op r ++ "."
  | missingExpression => "Expected expression."
  | notAnExpression found => "Expected expression, found " ++ found ++ "."
  | leftOver found => "Unexpected " ++ found ++ " in expression."
  | missingColonInMap => "Expected \":\" in map."
  | duplicateKey key => "Duplicate key " ++ key.text ++ " in map."
  | argumentNotClosed found => "Expected \",\" or \")\", found " ++ found ++ "."
  | positionalAfterKeyword => "Positional arguments must come before keyword arguments."
  | invalidNumber text => "Invalid number \"" ++ text ++ "\"."
  | noNamespace name => "There is no module with the namespace \"" ++ name ++ "\"."
  | elseWithoutIf => "@else must come after @if."
  | returnOutsideFunction => "@return may only be used within a function."
  | ruleInFunction => "Style rules are not allowed in functions."
  | notInFunctions keyword => "@" ++ keyword ++ " is not allowed in functions."
  | notHere keyword => "@" ++ keyword ++ " is not allowed here."
  | eachWithoutIn => "Expected \"in\" in @each."
  | eachWithoutVariable => "Expected a variable in @each."
  | forWithoutFrom => "Expected \"from\" in @for."
  | forWithoutBound => "Expected \"through\" or \"to\" in @for."
  | forWithoutVariable => "Expected a variable in @for."
  | notAnInteger value => value.text ++ " is not an integer."
  | loopLimit keyword limit =>
      "@" ++ keyword ++ " loop exceeded " ++ toString limit ++ " iterations."
  | missingSignature => "Expected a function signature after @function."
  | invalidParameters function => "Invalid parameter list for " ++ function ++ "()."
  | restNotLast function => "Rest parameter of " ++ function ++ "() must come last."
  | missingUrl keyword => "Expected a URL string after @" ++ keyword ++ "."
  | missingNamespace keyword => "Expected a namespace after \"as\" in @" ++ keyword ++ "."
  | missingMap keyword => "Expected a map after \"with\" in @" ++ keyword ++ "."
  | unexpectedInRule found keyword =>
      "Unexpected \"" ++ found ++ "\" in @" ++ keyword ++ " rule."
  | invalidConfiguration => "Expected \"$name: value\" pairs in \"with\" configuration."
  | namespaceTaken name => "There's already a module with namespace \"" ++ name ++ "\"."
  | noBuiltinModule url => "Can't find built-in module \"" ++ url ++ "\"."
  | builtinConfigured => "Built-in modules can't be configured."
  | alreadyLoaded url =>
      url ++ " was already loaded, so it can't be configured using \"with\"."

end Fault
end Stylesheet
