import Stylesheet.Syntax.Query

/-!
# Outlines of syntax trees

A tree as indented lines, one node a line, for reading in a log: kind, place, and the text of a
leaf, shortened and with line breaks and tabs made visible.
-/

namespace Stylesheet
namespace Outline

/-- A text longer than fifty characters shows its first forty-seven. -/
def shorten (cs : List Char) : List Char :=
  if cs.length > 50 then cs.take 47 ++ "...".toList else cs

/-- Line breaks and tabs as they are written in a string. -/
def visible : Char → List Char
  | '\n' => ['\\', 'n']
  | '\t' => ['\\', 't']
  | '\r' => ['\\', 'r']
  | c => [c]

/-- The text of a leaf as an outline shows it. -/
def excerpt (text : String) : String := String.ofList ((shorten text.toList).flatMap visible)

/-- The kind and the place of a node, indented. -/
def heading (depth : Nat) (kind : Kind) (span : Option Span) : String :=
  let place := match span with
    | some s => "[" ++ toString s.start ++ ".." ++ toString s.stop ++ "]"
    | none => ""
  String.ofList (List.replicate (2 * depth) ' ') ++ kind.name ++ place

end Outline

namespace Node

mutual

/-- The lines of a node at a depth. -/
def outlineAt (depth : Nat) : Node → String
  | leaf k t s => Outline.heading depth k s ++ " '" ++ Outline.excerpt t ++ "'\n"
  | single k c s => Outline.heading depth k s ++ "\n" ++ c.outlineAt (depth + 1)
  | sequence k cs s => Outline.heading depth k s ++ "\n" ++ outlineAll (depth + 1) cs

/-- The lines of the nodes of a list. -/
def outlineAll (depth : Nat) : List Node → String
  | [] => ""
  | n :: ns => n.outlineAt depth ++ outlineAll depth ns

end

/-- The outline of a tree. -/
def outline (n : Node) : String := n.outlineAt 0

end Node
end Stylesheet
