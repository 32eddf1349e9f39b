import Stylesheet.Number.Reading

/-!
# Number literals

A number in a stylesheet is cut into the digits that are read and the unit behind them. An `e`
belongs to the digits if digits follow it, with or without a sign, and to the unit if not.

* `cut_append`: the two parts make up the text.
-/

namespace Stylesheet
namespace Number

/-- The exponent in front of a text, if there is one, and what follows it. -/
def cutExponent (cs : List Char) : List Char × List Char :=
  match cs with
  | mark :: rest =>
      if mark == 'e' || mark == 'E' then
        let (sign, rest') := match rest with
          | s :: rest' => if s == '+' || s == '-' then ([s], rest') else ([], s :: rest')
          | [] => ([], [])
        let digits := rest'.takeWhile isDigit
        if digits.isEmpty then ([], cs) else (mark :: sign ++ digits, rest'.dropWhile isDigit)
      else ([], cs)
  | [] => ([], [])

def isDigitOrPoint (c : Char) : Bool := isDigit c || c == '.'

/-- The digits of a literal and its unit. -/
def cut (cs : List Char) : List Char × List Char :=
  let (exponent, unit) := cutExponent (cs.dropWhile isDigitOrPoint)
  (cs.takeWhile isDigitOrPoint ++ exponent, unit)

theorem cutExponent_append (cs : List Char) : (cutExponent cs).1 ++ (cutExponent cs).2 = cs := by
  unfold cutExponent
  split
  · split
    · next mark rest _ =>
      split
      next sign rest' h =>
        have hs : sign ++ rest' = rest := by
          revert h
          split
          · split <;> (intro h; cases h; rfl)
          · intro h; cases h; rfl
        dsimp only
        split
        · rfl
        · simp [← hs, List.takeWhile_append_dropWhile]
    · rfl
  · rfl

/-- **Nothing is lost** by cutting a literal. -/
theorem cut_append (cs : List Char) : (cut cs).1 ++ (cut cs).2 = cs := by
  have h := cutExponent_append (cs.dropWhile isDigitOrPoint)
  simp only [cut, List.append_assoc, h, List.takeWhile_append_dropWhile]

/-- The number and the unit of a literal. -/
def literal? (text : String) : Option (Float × Option String) :=
  let (digits, unit) := cut text.toList
  (read? digits).map fun x => (x, if unit.isEmpty then none else some (String.ofList unit))

end Number
end Stylesheet
