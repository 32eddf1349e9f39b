import Stylesheet.Text.CaseContext
import Stylesheet.Text.CaseTable

/-!
# Changing case

Texts in upper and lower case by the full Unicode mappings, under which one character may become
more. A capital sigma that ends a word becomes a final sigma.
-/

namespace Stylesheet
namespace Text

/-- A mapping of one character by its table of expansions and its runs. -/
def mapCase (expansions : List (Nat × List Nat)) (runs : List CaseRun) (c : Char) : List Char :=
  match expansions.lookup c.toNat with
  | some ns => ns.map Char.ofNat
  | none => [((runs.findSome? (·.image? c.toNat)).map Char.ofNat).getD c]

/-- A lower-case ASCII letter in upper case. -/
def asciiUpperChar (c : Char) : Char :=
  if 'a' ≤ c && c ≤ 'z' then Char.ofNat (c.toNat - 32) else c

/-- An upper-case ASCII letter in lower case. -/
def asciiLowerChar (c : Char) : Char :=
  if 'A' ≤ c && c ≤ 'Z' then Char.ofNat (c.toNat + 32) else c

/-- A text with its ASCII letters in lower case. -/
def asciiLower (s : String) : String := String.ofList (s.toList.map asciiLowerChar)

def upperChar (c : Char) : List Char :=
  if c.toNat < 128 then [asciiUpperChar c] else mapCase upperExpansions CaseRun.upper c

def lowerChar (c : Char) : List Char :=
  if c.toNat < 128 then [asciiLowerChar c] else mapCase lowerExpansions CaseRun.lower c

/-- Whether the first character that case rules do not pass over has a case. -/
def startsCased (cs : List Char) : Bool :=
  match cs.dropWhile caseIgnorable.has with
  | [] => false
  | c :: _ => cased.has c

/-- Characters in lower case, after characters that stand before them, the nearest first. -/
def lowerAfter (before : List Char) : List Char → List Char
  | [] => []
  | c :: cs =>
      let here :=
        if c = 'Σ' then [if startsCased before && !startsCased cs then 'ς' else 'σ']
        else lowerChar c
      here ++ lowerAfter (c :: before) cs

/-- A text in upper case. -/
def upper (s : String) : String := String.ofList (s.toList.flatMap upperChar)

/-- A text in lower case. -/
def lower (s : String) : String := String.ofList (lowerAfter [] s.toList)

end Text
end Stylesheet
