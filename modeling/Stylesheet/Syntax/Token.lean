import Stylesheet.Syntax.Pattern

/-!
# Tokens

The kinds of token of a stylesheet, each with the pattern of its texts. Blanks and comments are
tokens too, so that nothing of the source is lost. A number holds its exponent and its unit, a
name may hold any character beyond ASCII.
-/

namespace Stylesheet

/-- The kinds of token. -/
inductive Token where
  | space
  | lineComment
  | blockComment
  /-- A name after a dollar sign. -/
  | variable
  /-- A name after an at sign. -/
  | atKeyword
  | number
  | stringDouble
  | stringSingle
  /-- A hash sign with an opening brace. -/
  | interpolationStart
  /-- A hash sign with letters, digits and dashes. -/
  | hash
  | ident
  /-- A word after an exclamation mark. -/
  | flag
  | operator
  | colon
  | semicolon
  | comma
  | openBrace
  | closeBrace
  | openParen
  | closeParen
  /-- A mark that only selectors and member references use. -/
  | delimiter
  deriving DecidableEq, Repr

namespace Token

/-! ### Classes of characters -/

def isLetter (c : Char) : Bool := ('a' ≤ c && c ≤ 'z') || ('A' ≤ c && c ≤ 'Z')

def isDigit (c : Char) : Bool := '0' ≤ c && c ≤ '9'

def isBeyondAscii (c : Char) : Bool := 0x7F < c.toNat

def isBlank (c : Char) : Bool :=
  c == ' ' || c == '\t' || c == '\r' || c == '\n' || c == '\x0c'

/-- Characters that start a name. -/
def isNameStart (c : Char) : Bool := isLetter c || c == '_' || isBeyondAscii c

/-- Characters that start a name after a dollar or at sign. -/
def isMarkedNameStart (c : Char) : Bool := isNameStart c || c == '-'

/-- Characters inside a name. -/
def isNameChar (c : Char) : Bool := isNameStart c || isDigit c || c == '-'

/-! ### The patterns -/

open Pattern

/-- A name after the mark. -/
def markedName (mark : Char) : Pattern :=
  inOrder [char mark, one isMarkedNameStart, many (one isNameChar)]

/-- A text between two of the given quotes. A backslash takes the next character along; a line
break stands neither alone nor after a backslash. -/
def quoted (quote : Char) : Pattern :=
  inOrder [char quote,
    many (either (one fun c => c != quote && c != '\\' && c != '\n')
      (seq (char '\\') (one (· != '\n')))),
    char quote]

def digits : Pattern := oneOrMore (one isDigit)

/-- Digits, or digits after a point with or without digits before it. -/
def mantissa : Pattern :=
  either digits (inOrder [many (one isDigit), char '.', digits])

def exponent : Pattern :=
  inOrder [one fun c => c == 'e' || c == 'E', optional (one fun c => c == '+' || c == '-'), digits]

def unit : Pattern := either (oneOrMore (one isLetter)) (char '%')

/-- The texts of each kind of token. -/
def pattern : Token → Pattern
  | space => oneOrMore (one isBlank)
  | lineComment => seq (literal "//") (many (one fun c => c != '\r' && c != '\n'))
  | blockComment =>
      inOrder [literal "/*",
        many (either (one (· != '*'))
          (seq (oneOrMore (char '*')) (one fun c => c != '*' && c != '/'))),
        oneOrMore (char '*'), char '/']
  | .variable => markedName '$'
  | atKeyword => markedName '@'
  | number => inOrder [mantissa, optional exponent, optional unit]
  | stringDouble => quoted '"'
  | stringSingle => quoted '\''
  | interpolationStart => literal "#\x7b"
  | hash =>
      seq (char '#') (oneOrMore (one fun c => isLetter c || isDigit c || c == '_' || c == '-'))
  | ident =>
      inOrder [optional (char '-'), optional (char '-'), one isNameStart, many (one isNameChar)]
  | flag => seq (char '!') (oneOrMore (one isLetter))
  | operator =>
      anyOf [literal "==", literal "!=", literal "<=", literal ">=", char '<', char '>', char '+',
        char '-', char '*', char '/', char '%']
  | colon => char ':'
  | semicolon => char ';'
  | comma => char ','
  | openBrace => char '\x7b'
  | closeBrace => char '\x7d'
  | openParen => char '('
  | closeParen => char ')'
  | delimiter => one fun c => ['.', '&', '[', ']', '~', '=', '|', '^'].contains c

/-- Every kind of token. -/
def kinds : List Token :=
  [space, lineComment, blockComment, .variable, atKeyword, number, stringDouble, stringSingle,
    interpolationStart, hash, ident, flag, operator, colon, semicolon, comma, openBrace,
    closeBrace, openParen, closeParen, delimiter]

theorem mem_kinds (t : Token) : t ∈ kinds := by cases t <;> decide

/-- Blanks and comments. -/
def isTrivia : Token → Bool
  | space | lineComment | blockComment => true
  | _ => false

end Token
end Stylesheet
