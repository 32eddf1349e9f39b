import Stylesheet.Text.Extending
import Stylesheet.Text.Unprintable

/-!
# Quoted texts

How messages show a path: between double quotes, with quotes, backslashes, line breaks and tabs
escaped, and every character that would not show by itself given by its code point.
-/

namespace Stylesheet
namespace Text

/-- The code point of a character as an escape. -/
def codePoint (c : Char) : List Char :=
  "\\u\x7b".toList ++ Nat.toDigits 16 c.toNat ++ ['\x7d']

/-- A character as it stands between quotes. -/
def quoteChar (c : Char) : List Char :=
  match c with
  | '\x00' => ['\\', '0']
  | '\t' => ['\\', 't']
  | '\r' => ['\\', 'r']
  | '\n' => ['\\', 'n']
  | '\\' => ['\\', '\\']
  | '"' => ['\\', '"']
  | '\'' => ['\\', '\'']
  | c =>
      if c.toNat < 0x20 || c.toNat == 0x7F then codePoint c
      else if c.toNat < 0x7F then [c]
      else if extending.has c || unprintable.has c then codePoint c
      else [c]

/-- A text between quotes. -/
def quoted (s : String) : String :=
  "\"" ++ String.ofList (s.toList.flatMap quoteChar) ++ "\""

end Text
end Stylesheet
