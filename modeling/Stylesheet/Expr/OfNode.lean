import Stylesheet.Expr.Items
import Stylesheet.Number.Literal
import Stylesheet.Syntax.Print

/-!
# Expressions of syntax trees

The nodes of a value become items, and the items an expression. Comments become nothing; a name, a
point and a variable or call right behind each other are one item.
-/

namespace Stylesheet

/-- The characters of a string, a backslash taken away from the character after it. -/
def unescapeChars : List Char → List Char
  | [] => []
  | ['\\'] => []
  | '\\' :: c :: cs => c :: unescapeChars cs
  | c :: cs => c :: unescapeChars cs

/-- The text of a string with escapes. -/
def unescape (text : String) : String := String.ofList (unescapeChars text.toList)

namespace Value

/-- The value of a name that stands by itself. -/
def ofWord (word : String) : Value :=
  match word with
  | "true" => bool true
  | "false" => bool false
  | "null" => null
  | _ =>
      match Color.ofKeyword? word with
      | some c => color c
      | none => unquoted word

/-- The value of the digits behind a hash sign. -/
def ofHash (digits : String) : Value :=
  match Color.ofHex? digits with
  | some c => color c
  | none => unquoted ("#" ++ digits)

end Value

namespace Expr

/-- The number of a literal. -/
def ofNumber (text : String) : Expr :=
  match Number.literal? text with
  | some (x, unit) => literal (.number x unit)
  | none => invalid (.invalidNumber text)

/-- The expression of a leaf; a leaf that is no value stands for its text in the source. -/
def ofLeaf (k : Kind) (text : String) : Expr :=
  match k with
  | .number => ofNumber text
  | .stringDouble | .stringSingle => literal (.quoted (unescape text))
  | .identifier => literal (.ofWord text)
  | .colorHex => literal (.ofHash text)
  | .variable => .variable text
  | k => literal (.unquoted (k.wrap text))

/-- The item of a leaf; a comment is none. -/
def itemOfLeaf? (k : Kind) (text : String) : Option Item :=
  match k with
  | .lineComment | .blockComment => none
  | .space => some .space
  | .punctuation =>
      if text = "," then some .comma
      else if text = ":" then some .colon
      else some (.atom (ofLeaf k text) text)
  | .operator => some (.op text)
  | .identifier =>
      if text = "and" || text = "or" || text = "not" then some (.op text)
      else some (.atom (ofLeaf k text) text)
  | .variable => some (.variable text)
  | k => some (.atom (ofLeaf k text) (k.wrap text))

/-- Whether a name, a point and a third node refer to a member of a module. The words that are
operators are no names. -/
def isMember (space point member : Node) : Bool :=
  space.is .identifier && !(["and", "or", "not"].contains space.text) &&
    point.isLeaf .punctuation "." && (member.is .variable || member.is .function)

/-- A node with its expression. -/
structure Reading where
  node : Node
  expr : Expr

/-- The item of a node by itself. -/
def Reading.items (r : Reading) : List Item :=
  match r.node with
  | .leaf k text _ => (itemOfLeaf? k text).toList
  | n => [.atom r.expr n.print]

/-- The items of nodes that follow each other. -/
def joined : List Reading → List Item
  | a :: b :: c :: rest =>
      if isMember a.node b.node c.node then
        .member (c.expr.inNamespace a.node.text) (a.node.text ++ "." ++ c.node.print) :: joined rest
      else a.items ++ joined (b :: c :: rest)
  | [a, b] => a.items ++ b.items
  | [a] => a.items
  | [] => []

mutual

/-- The expression of a node: a value, a call, a bracket, or its text in the source. -/
def ofNode : Node → Expr
  | .leaf k text _ => ofLeaf k text
  | .single k c s => literal (.unquoted (Node.single k c s).print)
  | .sequence k cs s =>
      match k with
      | .function =>
          call ((cs.head?.map Node.text).getD "") (arguments false (argumentItems cs))
            (Node.sequence k cs s).print
      | .parentheses => parenthesized (joined (readings cs))
      | .interpolation => interpolation (expression (joined (readings cs)))
      | .value => expression (joined (readings cs))
      | _ => literal (.unquoted (Node.sequence k cs s).print)

/-- Nodes with their expressions. -/
def readings : List Node → List Reading
  | [] => []
  | n :: ns => ⟨n, ofNode n⟩ :: readings ns

/-- The items of the second of some nodes, which holds the arguments of a call. -/
def argumentItems : List Node → List Item
  | _ :: .sequence _ cs _ :: _ => joined (readings cs)
  | _ => []

end

/-- The items of nodes that follow each other. -/
def itemsOf (ns : List Node) : List Item := joined (readings ns)

/-- The expression of nodes that follow each other. -/
def ofNodes (ns : List Node) : Expr := expression (itemsOf ns)

end Expr
end Stylesheet
