import Stylesheet.Expr.Basic

/-!
# Precedence

A chain of operands with operators between them becomes a tree: the chain is cut at its loosest
operators, what lies between them is grouped by the tighter ones, and operators of one level apply
from left to right.

* `group`: the tree of a chain.
-/

namespace Stylesheet
namespace Expr

/-- The operators of each level, the loosest first. -/
def levels : List (List Operator) :=
  [[.or], [.and], [.equal, .unequal], [.less, .lessEqual, .greater, .greaterEqual],
    [.plus, .minus], [.times, .slash, .percent]]

/-- What follows an operand: operators, each with its right operand. -/
abbrev Chain := List (Operator × Expr)

/-- A chain cut at some operators: what comes before the first of them, and each of them with its
right operand and what follows up to the next. -/
def cutAt (ops : List Operator) : Chain → Chain × List (Operator × Expr × Chain)
  | [] => ([], [])
  | (op, e) :: rest =>
      let (first, parts) := cutAt ops rest
      if ops.contains op then ([], (op, e, first) :: parts) else ((op, e) :: first, parts)

/-- The tree of an operand and the chain that follows it. -/
def group : List (List Operator) → Expr → Chain → Expr
  | [], e, _ => e
  | ops :: tighter, e, chain =>
      let (first, parts) := cutAt ops chain
      parts.foldl (fun left (op, e, chain) => .binary op left (group tighter e chain))
        (group tighter e first)

/-- The tree of an operand and the chain that follows it, by the precedence of the operators. -/
def ofChain (e : Expr) (chain : Chain) : Expr := group levels e chain

end Expr
end Stylesheet
