import Stylesheet.Syntax.Node

/-!
# Looking for nodes

Searches that go through a whole tree, each node before its children, and the tally of the kinds
of its nodes.

* `selectAll`, `find?`: all nodes of a kind and the first one.
* `tally`: how often each kind occurs, in the order of the names.
-/

namespace Stylesheet
namespace Node

/-- All nodes of a kind, in the order of the source. -/
def selectAll (n : Node) (k : Kind) : List Node := n.nodes.filter (·.is k)

mutual

/-- The first node of a kind. -/
def find? (k : Kind) : Node → Option Node
  | leaf l t s => if l = k then some (leaf l t s) else none
  | single l c s => if l = k then some (single l c s) else c.find? k
  | sequence l cs s => if l = k then some (sequence l cs s) else findAmong? k cs

/-- The first node of a kind in or below the nodes of a list. -/
def findAmong? (k : Kind) : List Node → Option Node
  | [] => none
  | n :: ns => (n.find? k).or (findAmong? k ns)

end

/-- One more of a kind, in a tally kept in the order of the names. -/
def count (k : Kind) : List (Kind × Nat) → List (Kind × Nat)
  | [] => [(k, 1)]
  | (l, n) :: rest =>
      if l = k then (l, n + 1) :: rest
      else if k.name < l.name then (k, 1) :: (l, n) :: rest
      else (l, n) :: count k rest

/-- How often each kind occurs in a tree. -/
def tally (n : Node) : List (Kind × Nat) := n.nodes.foldl (fun t m => count m.kind t) []

end Node
end Stylesheet
