import Stylesheet.Path
import Stylesheet.Syntax.ParseError
import Stylesheet.Value.Fault

/-!
# Errors of a rendering

Why a rendering fails: a source that does not parse, an import that cannot be resolved or read,
an undefined variable, a call that is refused, a fault in an expression or rule, or an error that
the stylesheet raises itself.
-/

namespace Stylesheet

/-- Why a call fails. -/
inductive CallFault where
  | keywordUnsupported (keyword : String)
  | undefined
  | unsupported
  /-- A count of arguments outside the given bounds. -/
  | argumentCount (low high got : Nat)
  | noArguments
  | notANumber (value : Value)
  | notAColor (value : Value)
  | notAString (value : Value)
  | notAMap (value : Value)
  | missingMap
  | unexpectedUnit (unit : String)
  | invalidIndex (index : Float) (length : Nat)
  | invalidSeparator (text : String)
  /-- More calls inside each other than allowed. -/
  | depthLimit (limit : Nat)
  /-- A function of a module that is not loaded. -/
  | moduleNotLoaded (path : Path)
  | missingArgument (parameter : String)
  | tooManyArguments (allowed : Nat)
  | noSuchParameter (keyword : String)
  | withoutReturn
  /-- What a function of the host says. -/
  | host (message : String)

namespace CallFault

/-- A range of counts in words. -/
def range (low high : Nat) : String :=
  if low = high then toString low
  else if low + 1 = high then toString low ++ " or " ++ toString high
  else toString low ++ " to " ++ toString high

def message : CallFault → String
  | keywordUnsupported keyword => "keyword argument $" ++ keyword ++ " is not supported"
  | undefined => "undefined function"
  | unsupported => "is not supported by this evaluator"
  | argumentCount low high got =>
      "expected " ++ range low high ++ " arguments, got " ++ toString got
  | noArguments => "expected at least one argument"
  | notANumber v => v.text ++ " is not a number"
  | notAColor v => v.text ++ " is not a color"
  | notAString v => v.text ++ " is not a string"
  | notAMap v => v.text ++ " is not a map"
  | missingMap => "expected a map"
  | unexpectedUnit unit => "expected a unitless number, got unit " ++ unit
  | invalidIndex index length =>
      "invalid index " ++ Number.plain index ++ " for a list with " ++ toString length ++ " elements"
  | invalidSeparator text => "invalid separator " ++ text
  | depthLimit limit => "call depth limit of " ++ toString limit ++ " exceeded"
  | moduleNotLoaded path => "module " ++ path.quoted ++ " is not loaded"
  | missingArgument parameter => "missing argument $" ++ parameter
  | tooManyArguments allowed => "only " ++ toString allowed ++ " arguments allowed"
  | noSuchParameter keyword => "no parameter named $" ++ keyword
  | withoutReturn => "function finished without @return"
  | host message => message

end CallFault

/-- Why a file cannot be read. -/
inductive ReadFault where
  | notFound
  | isDirectory
  | notADirectory
  | notUtf8
  deriving DecidableEq, Repr

def ReadFault.message : ReadFault → String
  | notFound => "No such file or directory (os error 2)"
  | isDirectory => "Is a directory (os error 21)"
  | notADirectory => "Not a directory (os error 20)"
  | notUtf8 => "stream did not contain valid UTF-8"

/-- Why a rendering fails. -/
inductive RenderError where
  | parse (e : ParseError)
  /-- An imported file that does not parse. -/
  | importParse (file : Path) (e : ParseError)
  /-- An import that the importer refuses. -/
  | unresolved (url message : String)
  | unreadable (file : Path) (reason : ReadFault)
  /-- More imports inside each other than allowed. -/
  | importDepth (limit : Nat) (file : Path)
  | undefinedVariable (name : String)
  | call (function : String) (fault : CallFault)
  | fault (f : Fault)
  /-- An error that the stylesheet raises. -/
  | raised (text : String)

namespace RenderError

def message : RenderError → String
  | parse e => "Parse error: " ++ e.message
  | importParse file e => "Parse error in imported file " ++ file.quoted ++ ": " ++ e.message
  | unresolved url message => "Failed to resolve import \"" ++ url ++ "\": " ++ message
  | unreadable file reason =>
      "Failed to read imported file " ++ file.quoted ++ ": " ++ reason.message
  | importDepth limit file =>
      "Import depth limit of " ++ toString limit ++ " exceeded while importing " ++ file.quoted
  | undefinedVariable name => "Undefined variable: $" ++ name
  | call function f => "Error in function " ++ function ++ "(): " ++ f.message
  | fault f => f.message
  | raised text => "@error: " ++ text

end RenderError
end Stylesheet
