import Stylesheet.Number.Binary
import Stylesheet.Render.State

/-!
# Loops

A body that runs once for each element of a list, for each number of a range, or as long as a
condition holds. A loop ends early with the first value that its body returns.

* `forEach`: the elements of a list.
* `countTo`: the numbers of a range, up or down, and no more of them than allowed.
* `whileHolds`: rounds as long as a condition holds, and no more of them than allowed.
-/

namespace Stylesheet
namespace Render

variable {σ : Type}

/-- Run a body for each element until it returns. -/
def forEach {α : Type} (body : α → Render σ (Option Value)) : List α → Render σ (Option Value)
  | [] => pure none
  | a :: as => do
      match ← body a with
      | some v => return some v
      | none => forEach body as

/-- The variables of one round of an `@each` loop: one variable takes the whole element, and
several take its elements. -/
def eachFrame (names : List Name) (element : Value) : Bindings :=
  match names with
  | [n] => Table.empty.insert n element
  | _ =>
      let parts := element.elements
      Table.ofList (names.zipIdx.map fun (n, i) => (n, (parts[i]?).getD .null))

/-- Run a body for a number of rounds, each with its index, until it returns. No more rounds are
run than allowed. -/
def count (limit : Nat) (step : Int) (body : Int → Render σ (Option Value)) :
    (allowed rounds : Nat) → (index : Int) → Render σ (Option Value)
  | _, 0, _ => pure none
  | 0, _ + 1, _ => fault (.loopLimit "for" limit)
  | allowed + 1, rounds + 1, index => do
      match ← body index with
      | some v => return some v
      | none => count limit step body allowed rounds (index + step)

/-- The integer that a value stands for, and its unit. -/
def integer (v : Value) : Render σ (Int × Option String) :=
  match v with
  | .number x unit => if Number.isWhole x then pure (Number.toWord x, unit) else fault (.notAnInteger v)
  | _ => fault (.notAnInteger v)

/-- Run a body from one number to another, up or down. -/
def countTo (limit : Nat) (first last : Int) (inclusive : Bool)
    (body : Int → Render σ (Option Value)) : Render σ (Option Value) :=
  let rounds := (last - first).natAbs + if inclusive then 1 else 0
  count limit (if first ≤ last then 1 else -1) body limit rounds first

/-- Run a body as long as a condition holds. No more rounds are run than allowed. -/
def whileHolds (limit : Nat) (condition : Render σ Value) (body : Render σ (Option Value)) :
    (allowed : Nat) → Render σ (Option Value)
  | 0 => do
      if (← condition).isTruthy then fault (.loopLimit "while" limit) else return none
  | allowed + 1 => do
      if (← condition).isTruthy then
        match ← body with
        | some v => return some v
        | none => whileHolds limit condition body allowed
      else return none

end Render
end Stylesheet
