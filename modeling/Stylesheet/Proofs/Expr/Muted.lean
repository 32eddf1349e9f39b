import Stylesheet.Expr.Items
import Stylesheet.Render.Eval

/-!
# Code without the texts that it was read from

A fault tells what it was met at, and a call keeps its text in case it is left to the browser. All
that these texts decide is what messages say and what such a call is written as. Code that is muted
has none but those of the calls that are left to the browser.

* `Expr.mute`: an expression without these texts.
* `Expr.ofChain_mute`: operands are put together the same way with and without them.
-/

namespace Stylesheet

namespace Fault

/-- The same fault, without what it was met at. -/
def mute : Fault → Fault
  | notAnExpression _ => notAnExpression ""
  | leftOver _ => leftOver ""
  | argumentNotClosed _ => argumentNotClosed ""
  | unexpectedInRule _ keyword => unexpectedInRule "" keyword
  | f => f

@[simp] theorem mute_mute (f : Fault) : f.mute.mute = f.mute := by cases f <;> rfl

end Fault

/-- Whether a call by the name may be left to the browser. -/
def isBrowserName (name : String) : Bool :=
  Eval.browserFunctions.contains (Text.asciiLower name)

namespace Expr

mutual

/-- The same expression, without the texts that it was read from. -/
def mute : Expr → Expr
  | literal v => literal v
  | invalid f => invalid f.mute
  | trailing e f => trailing e.mute f.mute
  | .variable name => .variable name
  | member space name => member space name
  | call name args printed =>
      call name (muteArguments args) (if isBrowserName name then printed else "")
  | memberCall space name args => memberCall space name (muteArguments args)
  | list es separator => list (muteAll es) separator
  | map ps => map (mutePairs ps)
  | interpolation e => interpolation e.mute
  | glued a b => glued a.mute b.mute
  | binary op a b => binary op a.mute b.mute
  | negative e => negative e.mute
  | positive e => positive e.mute
  | not e => not e.mute

def muteAll : List Expr → List Expr
  | [] => []
  | e :: es => e.mute :: muteAll es

def mutePairs : List (Expr × Expr) → List (Expr × Expr)
  | [] => []
  | (k, v) :: ps => (k.mute, v.mute) :: mutePairs ps

def muteArguments : List (Option Name × Expr) → List (Option Name × Expr)
  | [] => []
  | (k, e) :: args => (k, e.mute) :: muteArguments args

end

theorem muteAll_eq_map (es : List Expr) : muteAll es = es.map mute := by
  induction es with
  | nil => rfl
  | cons e es ih => rw [muteAll, ih, List.map_cons]

mutual

/-- Nothing is left to mute. -/
theorem mute_mute (e : Expr) : e.mute.mute = e.mute := by
  cases e with
  | literal | «variable» | member => rfl
  | invalid f => rw [mute, mute, Fault.mute_mute]
  | trailing e f => rw [mute, mute, mute_mute e, Fault.mute_mute]
  | call name args printed =>
    rw [mute, mute, muteArguments_mute args]
    cases isBrowserName name <;> rfl
  | memberCall space name args => rw [mute, mute, muteArguments_mute args]
  | list es separator => rw [mute, mute, muteAll_mute es]
  | map ps => rw [mute, mute, mutePairs_mute ps]
  | interpolation e | negative e | positive e | not e => rw [mute, mute, mute_mute e]
  | glued a b | binary op a b => rw [mute, mute, mute_mute a, mute_mute b]

theorem muteAll_mute (es : List Expr) : muteAll (muteAll es) = muteAll es := by
  match es with
  | [] => rfl
  | e :: es => rw [muteAll, muteAll, mute_mute e, muteAll_mute es]

theorem mutePairs_mute (ps : List (Expr × Expr)) : mutePairs (mutePairs ps) = mutePairs ps := by
  match ps with
  | [] => rfl
  | (k, v) :: ps => rw [mutePairs, mutePairs, mute_mute k, mute_mute v, mutePairs_mute ps]

theorem muteArguments_mute (args : List (Option Name × Expr)) :
    muteArguments (muteArguments args) = muteArguments args := by
  match args with
  | [] => rfl
  | (k, e) :: args => rw [muteArguments, muteArguments, mute_mute e, muteArguments_mute args]

end

/-- What is made of equal expressions in a namespace is equal. -/
theorem inNamespace_mute {e e' : Expr} (h : e'.mute = e.mute) (space : String) :
    (e'.inNamespace space).mute = (e.inNamespace space).mute := by
  have key (e : Expr) : (e.inNamespace space).mute = (e.mute.inNamespace space).mute := by
    cases e with
    | call name args printed => rw [inNamespace, mute, mute, inNamespace, mute, muteArguments_mute]
    | «variable» => rfl
    | _ => exact (mute_mute _).symm
  rw [key, h, ← key]

/-! ### Chains of operands -/

/-- The same chain, without the texts that it was read from. -/
def Chain.mute (chain : Chain) : Chain := List.map (fun (op, e) => (op, e.mute)) chain

theorem cutAt_mute (ops : List Operator) (chain : Chain) :
    cutAt ops chain.mute = ((cutAt ops chain).1.mute,
      (cutAt ops chain).2.map fun (op, e, chain) => (op, e.mute, Chain.mute chain)) := by
  induction chain with
  | nil => rfl
  | cons link chain ih =>
    obtain ⟨op, e⟩ := link
    have hcons : Chain.mute ((op, e) :: chain) = (op, e.mute) :: Chain.mute chain := rfl
    simp only [hcons, cutAt, ih]
    split
    · rfl
    · rfl

theorem group_mute (levels : List (List Operator)) (e : Expr) (chain : Chain) :
    (group levels e chain).mute = group levels e.mute chain.mute := by
  induction levels generalizing e chain with
  | nil => rfl
  | cons ops tighter ih =>
    have hparts (parts : List (Operator × Expr × Chain)) (left : Expr) :
        (parts.foldl (fun left (op, e, chain) => .binary op left (group tighter e chain))
          left).mute =
        (parts.map fun (op, e, chain) => (op, e.mute, Chain.mute chain)).foldl
          (fun left (op, e, chain) => .binary op left (group tighter e chain)) left.mute := by
      induction parts generalizing left with
      | nil => rfl
      | cons part parts ih' =>
        rw [List.foldl_cons, ih', List.map_cons, List.foldl_cons, mute, ih]
    simp only [group, cutAt_mute, hparts, ih]

/-- **Operands are put together** by their operators alone. -/
theorem ofChain_mute (e : Expr) (chain : Chain) :
    (ofChain e chain).mute = ofChain e.mute chain.mute := group_mute _ _ _

end Expr

/-- The same item, without the text that it was read from. -/
def Item.mute : Item → Item
  | atom e _ => atom e.mute ""
  | member e _ => member e.mute ""
  | i => i

end Stylesheet
