import Stylesheet.Render.Load
import Stylesheet.Render.Loops

/-!
# Running statements

Statements run one after the other. In a function they end with the first `@return`; elsewhere
there is none. Imports and rules that load modules run where the stylesheet itself runs, not
inside loops and functions.

* `Place`: where statements stand, which decides what they may do.
* `Stmt.exec`, `Stmt.execAll`: one statement, and several in order.
-/

namespace Stylesheet

/-- Where statements stand. -/
inductive Place (σ : Type) where
  /-- In a stylesheet, in its blocks and under its conditions. -/
  | top (loader : Loader σ)
  /-- In the body of a loop of a stylesheet. -/
  | loop
  | function

namespace Place

variable {σ : Type}

/-- Where the body of a loop stands. -/
def inner : Place σ → Place σ
  | top _ => loop
  | p => p

def isFunction : Place σ → Bool
  | function => true
  | _ => false

end Place

namespace Render

variable {σ : Type} [Log.Sink σ]

/-! ### Declarations and reports -/

/-- Declare a variable. One with a default stays as it is if it has a value other than null. -/
def declare (eval : Expr → Render σ Value) (name : String) (value : Expr)
    (isDefault isGlobal : Bool) : Render σ Unit := do
  let n := Name.ofString name
  let bound := ((← sheet).scopes.find? n).any fun v => !v.isNull
  if isDefault && bound then pure ()
  else
    let v ← eval value
    if isGlobal then modifyScopes (·.setGlobal n v) else Eval.assign n v

/-- Declare a function. It belongs to the stylesheet that is running. -/
def declareFunction (s : Signature) (body : List Stmt) : Render σ Unit := do
  let n := Name.ofString s.name
  report .trace ("Declared function " ++ n.text ++ "()")
  modifySheet fun sheet =>
    { sheet with functions := sheet.functions.insert n ⟨s.parameters, body, sheet.path⟩ }

/-- Report a value, or fail with it. -/
def reportValue (what : Report) (v : Value) : Render σ Unit :=
  match what with
  | .error => throw (.raised v.plainText)
  | .warn => report .warn ("@warn: " ++ v.plainText)
  | .debug => report .debug ("@debug: " ++ v.text)

end Render

namespace Stmt

variable {σ : Type} [Log.Sink σ] (host : Host σ) (limits : Limits) (caller : Caller σ)

/-- A step that returns nothing. -/
def silent (act : Render σ Unit) : Render σ (Option Value) := do
  act
  return none

mutual

/-- Run a statement. The result is the value of an `@return`. -/
def exec (place : Place σ) : Stmt → Render σ (Option Value)
  | inert => pure none
  | declare name value isDefault isGlobal =>
      silent (Render.declare (·.eval host caller) name value isDefault isGlobal)
  | rule body =>
      if place.isFunction then Render.fault .ruleInFunction
      else Render.inScope ⟨.empty, false⟩ (execAll place body)
  | .scoped keyword body =>
      if place.isFunction then Render.fault (.notInFunctions keyword)
      else Render.inScope ⟨.empty, false⟩ (execAll place body)
  | choose links otherwise => execLinks place (execAll place otherwise) links
  | strayElse => Render.fault .elseWithoutIf
  | each header body => do
      let h ← Render.ofFault header
      let list ← h.list.eval host caller
      Render.forEach
        (fun element =>
          Render.inScope ⟨Render.eachFrame h.names element, true⟩ (execAll place.inner body))
        list.elements
  | .for header body => do
      let h ← Render.ofFault header
      let (first, unit) ← Render.integer (← h.first.eval host caller)
      let (last, _) ← Render.integer (← h.last.eval host caller)
      Render.countTo limits.rounds first last h.inclusive fun index =>
        Render.inScope ⟨Table.empty.insert h.counter (.number (Float.ofInt index) unit), true⟩
          (execAll place.inner body)
  | .while condition body =>
      Render.whileHolds limits.rounds (condition.eval host caller)
        (Render.inScope ⟨.empty, true⟩ (execAll place.inner body)) limits.rounds
  | report what value => do
      Render.reportValue what (← value.eval host caller)
      return none
  | .return value =>
      if place.isFunction then return some (← value.eval host caller)
      else Render.fault .returnOutsideFunction
  | function signature body =>
      if place.isFunction then Render.fault (.notHere "function")
      else do
        Render.declareFunction (← Render.ofFault signature) body
        return none
  | imports urls =>
      match place with
      | .top loader => silent (urls.forM loader.importFile)
      | _ => Render.fault (.notHere "import")
  | load what header =>
      match place with
      | .top loader => do
          let h ← Render.ofFault header
          let eval := Expr.eval host caller
          match what with
          | .use => silent (Render.use eval loader h)
          | .forward => silent (Render.forward eval loader h)
      | _ => Render.fault (.notHere what.keyword)
  | other keyword =>
      if place.isFunction then Render.fault (.notInFunctions keyword)
      else silent (Render.report .debug ("Skipping @" ++ keyword ++ " rule"))

/-- Run statements in order until one returns. -/
def execAll (place : Place σ) : List Stmt → Render σ (Option Value)
  | [] => pure none
  | s :: ss => do
      match ← exec place s with
      | some v => return some v
      | none => execAll place ss

/-- Run the block of the first condition that holds, or what is run otherwise. -/
def execLinks (place : Place σ) (otherwise : Render σ (Option Value)) :
    List (Expr × List Stmt) → Render σ (Option Value)
  | [] => otherwise
  | (condition, body) :: links => do
      if (← condition.eval host caller).isTruthy then execAll place body
      else execLinks place otherwise links

end

end Stmt
end Stylesheet
