import Stylesheet.Syntax.Span

/-!
# Syntax trees

A node has a kind, a place in the source if it came from one, and either text, or one child, or a
sequence of children. The kinds are those that reading a source produces; a tree built by hand
may use others.

* `bare_bare`: taking the places away twice is taking them away once.
-/

namespace Stylesheet

/-- What a node stands for. -/
inductive Kind where
  | stylesheet
  /-- A selector with its block. -/
  | rule
  | selector
  /-- Statements between braces. -/
  | block
  | declaration
  /-- The left side of a declaration. -/
  | property
  /-- The right side of a declaration. -/
  | value
  | atRule
  /-- The name of an at-rule, without the at sign. -/
  | atKeyword
  /-- The name of a variable, without the dollar sign. -/
  | variable
  | identifier
  /-- A number with its unit. -/
  | number
  | operator
  | punctuation
  /-- The text between two double quotes. -/
  | stringDouble
  /-- The text between two single quotes. -/
  | stringSingle
  /-- The digits after a hash sign. -/
  | colorHex
  /-- A name with its arguments. -/
  | function
  | arguments
  | parentheses
  | interpolation
  /-- The word after an exclamation mark. -/
  | flag
  | space
  | lineComment
  | blockComment
  /-- Any other name. -/
  | other (name : String)
  deriving DecidableEq, Repr

namespace Kind

/-- The kinds with a name of their own. -/
def known : List Kind :=
  [.stylesheet, .rule, .selector, .block, .declaration, .property, .value, .atRule, .atKeyword,
    .variable, .identifier, .number, .operator, .punctuation, .stringDouble, .stringSingle,
    .colorHex, .function, .arguments, .parentheses, .interpolation, .flag, .space, .lineComment,
    .blockComment]

/-- The name under which a kind is shown. -/
def name : Kind → String
  | stylesheet => "stylesheet"
  | rule => "rule"
  | selector => "selector"
  | block => "block"
  | declaration => "declaration"
  | property => "property"
  | value => "value"
  | atRule => "atrule"
  | atKeyword => "atkeyword"
  | .variable => "variable"
  | identifier => "identifier"
  | number => "number"
  | operator => "operator"
  | punctuation => "punctuation"
  | stringDouble => "string_double"
  | stringSingle => "string_single"
  | colorHex => "color_hex"
  | function => "function"
  | arguments => "arguments"
  | parentheses => "parentheses"
  | interpolation => "interpolation"
  | flag => "flag"
  | space => "space"
  | lineComment => "comment_singleline"
  | blockComment => "comment_multiline"
  | other n => n

/-- The kind with the given name. -/
def ofName (n : String) : Kind := (known.find? (·.name == n)).getD (.other n)

/-- Reading a name and showing it gives the name back. -/
theorem name_ofName (n : String) : (ofName n).name = n := by
  unfold ofName
  cases h : known.find? (·.name == n) with
  | none => rfl
  | some k => simpa using List.find?_some h

end Kind

/-- A node of a syntax tree. -/
inductive Node where
  | leaf (kind : Kind) (text : String) (span : Option Span)
  | single (kind : Kind) (child : Node) (span : Option Span)
  | sequence (kind : Kind) (children : List Node) (span : Option Span)

namespace Node

def kind : Node → Kind
  | leaf k _ _ | single k _ _ | sequence k _ _ => k

def span : Node → Option Span
  | leaf _ _ s | single _ _ s | sequence _ _ s => s

/-- The text of a leaf. -/
def text? : Node → Option String
  | leaf _ t _ => some t
  | _ => none

/-- The text of a leaf; other nodes count as blank. -/
def text (n : Node) : String := n.text?.getD ""

/-- The children, of which a leaf has none. -/
def children : Node → List Node
  | leaf _ _ _ => []
  | single _ c _ => [c]
  | sequence _ cs _ => cs

def is (n : Node) (k : Kind) : Bool := n.kind == k

/-- Whether the node is a leaf of this kind with this text. -/
def isLeaf (n : Node) (k : Kind) (t : String) : Bool := n.is k && n.text? == some t

/-- Blanks and comments. -/
def isTrivia (n : Node) : Bool := n.is .space || n.is .lineComment || n.is .blockComment

/-- The first child of a kind. -/
def firstChild? (n : Node) (k : Kind) : Option Node := n.children.find? (·.is k)

/-- Where the first child of a kind stands. -/
def firstChildIndex? (n : Node) (k : Kind) : Option Nat := n.children.findIdx? (·.is k)

mutual

/-- The same tree without places. -/
def bare : Node → Node
  | leaf k t _ => leaf k t none
  | single k c _ => single k c.bare none
  | sequence k cs _ => sequence k (bareAll cs) none

/-- `bare` on every node of a list. -/
def bareAll : List Node → List Node
  | [] => []
  | n :: ns => n.bare :: bareAll ns

end

mutual

/-- The node and everything below it, each node before its children. -/
def nodes : Node → List Node
  | leaf k t s => [leaf k t s]
  | single k c s => single k c s :: c.nodes
  | sequence k cs s => sequence k cs s :: nodesAll cs

/-- `nodes` of every node of a list. -/
def nodesAll : List Node → List Node
  | [] => []
  | n :: ns => n.nodes ++ nodesAll ns

end

@[simp] theorem kind_bare (n : Node) : n.bare.kind = n.kind := by cases n <;> rfl

theorem bareAll_eq_map (ns : List Node) : bareAll ns = ns.map bare := by
  induction ns with
  | nil => rfl
  | cons n ns ih => simp [bareAll, ih]

mutual

/-- **Taking the places away** is done once. -/
theorem bare_bare : (n : Node) → n.bare.bare = n.bare
  | leaf _ _ _ => rfl
  | single _ c _ => by simp [bare, bare_bare c]
  | sequence _ cs _ => by simp [bare, bareAll_bareAll cs]

theorem bareAll_bareAll : (ns : List Node) → bareAll (bareAll ns) = bareAll ns
  | [] => rfl
  | n :: ns => by simp [bareAll, bare_bare n, bareAll_bareAll ns]

end

end Node
end Stylesheet
