import Stylesheet.Syntax.Node

/-!
# Printing syntax trees

A printed tree is the text of its leaves in order, with the marks around them that the tree
leaves out: dollar, at and hash signs, quotes, comment marks, brackets and braces.

* `print_bare`: the places of a tree do not show in print.
-/

namespace Stylesheet
namespace Kind

/-- The marks before and after a node of this kind. -/
def marks : Kind → String × String
  | .variable => ("$", "")
  | .atKeyword => ("@", "")
  | .colorHex => ("#", "")
  | .flag => ("!", "")
  | .stringDouble => ("\"", "\"")
  | .stringSingle => ("'", "'")
  | .lineComment => ("//", "")
  | .blockComment => ("/*", "*/")
  | .arguments | .parentheses => ("(", ")")
  | .interpolation => ("#\x7b", "\x7d")
  | .block => ("\x7b", "\x7d")
  | _ => ("", "")

/-- A text between the marks of the kind. -/
def wrap (k : Kind) (inner : String) : String := k.marks.1 ++ inner ++ k.marks.2

end Kind

namespace Node

mutual

/-- The source text of a tree. -/
def print : Node → String
  | leaf k t _ => k.wrap t
  | single k c _ => k.wrap c.print
  | sequence k cs _ => k.wrap (printAll cs)

/-- The source text of trees one after the other. -/
def printAll : List Node → String
  | [] => ""
  | n :: ns => n.print ++ printAll ns

end

mutual

/-- **Places do not show in print.** -/
theorem print_bare : (n : Node) → n.bare.print = n.print
  | leaf _ _ _ => rfl
  | single _ c _ => by simp [bare, print, print_bare c]
  | sequence _ cs _ => by simp [bare, print, printAll_bareAll cs]

theorem printAll_bareAll : (ns : List Node) → printAll (bareAll ns) = printAll ns
  | [] => rfl
  | n :: ns => by simp [bareAll, printAll, print_bare n, printAll_bareAll ns]

end

theorem printAll_append (ms ns : List Node) : printAll (ms ++ ns) = printAll ms ++ printAll ns := by
  induction ms with
  | nil => simp [printAll]
  | cons m ms ih => simp [printAll, ih, String.append_assoc]

end Node
end Stylesheet
