import Stylesheet.Syntax.Lexeme

/-!
# Parse errors

What can be wrong with a source: a character at which no token starts, a token where another was
expected, or an end where more was expected.
-/

namespace Stylesheet

/-- What a reader of tokens looks for. -/
inductive Expected where
  | statement
  | property
  | propertyName
  | colon
  | value
  | semicolon
  | openBrace
  | closeBrace
  | closeParen
  deriving DecidableEq, Repr

/-- How an expectation is worded. -/
def Expected.text : Expected → String
  | statement => "a statement"
  | property => "a property"
  | propertyName => "a property name"
  | colon => "':'"
  | value => "a value"
  | semicolon => "';'"
  | openBrace => "'\x7b'"
  | closeBrace => "'\x7d'"
  | closeParen => "')'"

/-- Why a source has no tree. -/
inductive ParseError where
  /-- No token starts at this byte. -/
  | unrecognized (offset : Nat)
  /-- A token with this text starts at this byte, where another was expected. -/
  | unexpected (found : String) (offset : Nat) (expected : Expected)
  /-- The source ends too early. -/
  | ended (expected : Expected)
  deriving DecidableEq, Repr

namespace ParseError

/-- A lexeme that is not what was expected. -/
def misfit (l : Lexeme) (expected : Expected) : ParseError := .unexpected l.text l.span.start expected

/-- The first lexeme is not what was expected, or there is none. -/
def here (ls : List Lexeme) (expected : Expected) : ParseError :=
  match ls with
  | [] => .ended expected
  | l :: _ => misfit l expected

def message : ParseError → String
  | unrecognized offset => "Unrecognized character at byte " ++ toString offset
  | unexpected found offset expected =>
      "Unexpected '" ++ found ++ "' at byte " ++ toString offset ++ ", expected " ++ expected.text
  | ended expected => "Unexpected end of input, expected " ++ expected.text

end ParseError
end Stylesheet
