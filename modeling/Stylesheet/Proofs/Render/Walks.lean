import Stylesheet.Proofs.Render.Chains

/-!
# Two walks over the nodes of a stylesheet

Statements can run straight from the nodes of the tree, by two walks that are written apart. One
runs what stands in a stylesheet, where a rule may load other files. The other one runs the bodies
of loops and functions, where none may, and hands on the value of a `@return`. Each finds out at
every link of an `@if` chain whether a block of the chain ran.

* `Walk.execNodes`: the walk that may return.
* `Walk.evalNodes`: the walk that may load files.
* `Walk.execNodes_eq`: what the first one does is what the statements do.
-/

namespace Stylesheet

open Render

variable {σ : Type}

/-- Where the walk that may return is. -/
inductive Within where
  | stylesheet
  | function
  deriving DecidableEq

/-- Where the statements stand that it runs. -/
def Within.place : Within → Place σ
  | stylesheet => .loop
  | function => .function

namespace Walk

variable [Log.Sink σ] (host : Host σ) (limits : Limits) (caller : Caller σ)

/-! ### What both walks share -/

/-- Run a declaration. -/
def declaration (n : Node) : Render σ Unit := do
  let _ ← (Stmt.ofDeclaration n).exec host limits caller .loop

/-- Decide one link of a chain: the chain behind it, and whether its block runs. -/
def conditional (keyword : String) (params : List Node) (chain : Option Bool) :
    Render σ (Option Bool × Bool) := do
  if keyword = "if" then
    let taken := (← (Expr.ofNodes params).eval host caller).isTruthy
    return (some taken, taken)
  else
    match chain with
    | none => fault .elseWithoutIf
    | some already =>
        let condition := Stmt.elseIf? params
        if already then return (condition.map fun _ => true, false)
        else
          match condition with
          | some c =>
              let taken := (← c.eval host caller).isTruthy
              return (some taken, taken)
          | none => return (none, true)

/-! ### The walk that may return -/

def each (params : List Node) (block : Render σ (Option Value)) : Render σ (Option Value) := do
  let h ← ofFault (Rule.each params)
  let list ← h.list.eval host caller
  forEach (fun element => inScope ⟨eachFrame h.names element, true⟩ block) list.elements

def «for» (params : List Node) (block : Render σ (Option Value)) : Render σ (Option Value) := do
  let h ← ofFault (Rule.for? params)
  let (first, unit) ← integer (← h.first.eval host caller)
  let (last, _) ← integer (← h.last.eval host caller)
  countTo limits.rounds first last h.inclusive fun index =>
    inScope ⟨Table.empty.insert h.counter (.number (Float.ofInt index) unit), true⟩ block

def «while» (params : List Node) (block : Render σ (Option Value)) : Render σ (Option Value) :=
  whileHolds limits.rounds ((Expr.ofNodes params).eval host caller)
    (inScope ⟨.empty, true⟩ block) limits.rounds

def report (what : Report) (params : List Node) : Render σ (Option Value) := do
  reportValue what (← (Expr.ofNodes params).eval host caller)
  return none

/-- Run an at-rule that is no link of a chain. -/
def atRule (within : Within) (keyword : String) (params cs : List Node)
    (block : Render σ (Option Value)) : Render σ (Option Value) :=
  match keyword with
  | "return" =>
      match within with
      | .function => do return some (← (Expr.ofNodes params).eval host caller)
      | .stylesheet => fault .returnOutsideFunction
  | "each" => each host caller params block
  | "for" => «for» host limits caller params block
  | "while" => «while» host limits caller params block
  | "error" => report host caller .error params
  | "warn" => report host caller .warn params
  | "debug" => report host caller .debug params
  | "function" =>
      match within with
      | .stylesheet => do
          declareFunction (← ofFault (Rule.signature params)) (Stmt.block cs)
          return none
      | .function => fault (.notHere keyword)
  | "media" | "supports" | "at-root" =>
      match within with
      | .stylesheet => inScope ⟨.empty, false⟩ block
      | .function => fault (.notInFunctions keyword)
  | "import" | "use" | "forward" => fault (.notHere keyword)
  | _ =>
      match within with
      | .function => fault (.notInFunctions keyword)
      | .stylesheet => do
          Render.report .debug ("Skipping @" ++ keyword ++ " rule")
          return none

mutual

/-- Run a node behind a chain: the chain behind it, and the value of a `@return`. -/
def execNode (within : Within) (chain : Option Bool) : Node → Render σ (Option Bool × Option Value)
  | .leaf _ _ _ | .single _ _ _ => return (chain, none)
  | .sequence k cs s =>
      match k with
      | .declaration => do
          declaration host limits caller (.sequence k cs s)
          return (none, none)
      | .rule =>
          match within with
          | .function => fault .ruleInFunction
          | .stylesheet => do return (none, ← inScope ⟨.empty, false⟩ (execBlock within cs))
      | .atRule =>
          let keyword := (cs.head?.map Node.text).getD ""
          let params := Rule.parameters cs
          match keyword with
          | "if" | "else" => do
              let (next, taken) ← conditional host caller keyword params chain
              if taken then return (next, ← execBlock within cs) else return (next, none)
          | _ => do
              let block := execBlock within cs
              return (none, ← atRule host limits caller within keyword params cs block)
      | _ => return (chain, none)

/-- Run the first block among some nodes. -/
def execBlock (within : Within) : List Node → Render σ (Option Value)
  | [] => return none
  | .sequence .block cs _ :: _ => execNodes within none cs
  | _ :: ns => execBlock within ns

/-- Run nodes until one returns. -/
def execNodes (within : Within) (chain : Option Bool) : List Node → Render σ (Option Value)
  | [] => return none
  | n :: ns => do
      match ← execNode within chain n with
      | (_, some v) => return some v
      | (next, none) => execNodes within next ns

end

/-! ### The walk that may load files -/

section

variable (loader : Loader σ)

mutual

/-- Run a node behind a chain, and the result is the chain behind it. -/
def evalNode (chain : Option Bool) : Node → Render σ (Option Bool)
  | .leaf _ _ _ | .single _ _ _ => return chain
  | .sequence k cs s =>
      match k with
      | .declaration => do
          declaration host limits caller (.sequence k cs s)
          return none
      | .rule => do
          inScope ⟨.empty, false⟩ (evalBlock cs)
          return none
      | .atRule =>
          let keyword := (cs.head?.map Node.text).getD ""
          let params := Rule.parameters cs
          match keyword with
          | "if" | "else" => do
              let (next, taken) ← conditional host caller keyword params chain
              if taken then evalBlock cs
              return next
          | "import" => do
              (Stmt.importUrls params).forM loader.importFile
              return none
          | "use" => do
              Render.use (·.eval host caller) loader (← ofFault (Rule.load .use params))
              return none
          | "forward" => do
              Render.forward (·.eval host caller) loader (← ofFault (Rule.load .forward params))
              return none
          | "media" | "supports" | "at-root" => do
              inScope ⟨.empty, false⟩ (evalBlock cs)
              return none
          | _ => do
              let block := execBlock host limits caller .stylesheet cs
              let _ ← atRule host limits caller .stylesheet keyword params cs block
              return none
      | _ => return chain

/-- Run the first block among some nodes. -/
def evalBlock : List Node → Render σ Unit
  | [] => return ()
  | .sequence .block cs _ :: _ => evalNodes none cs
  | _ :: ns => evalBlock ns

/-- Run nodes in order. -/
def evalNodes (chain : Option Bool) : List Node → Render σ Unit
  | [] => return ()
  | n :: ns => do
      let next ← evalNode chain n
      evalNodes next ns

end

end

/-! ### The walk that may return runs the statements -/

/-- An at-rule that is no link of a chain is a statement, which the walk runs. -/
theorem exec_ofAtRule (within : Within) (keyword : String) (params cs : List Node)
    (chain : Option Bool) (hif : keyword ≠ "if") (helse : keyword ≠ "else") :
    (Stmt.ofAtRule keyword params (Stmt.block cs)).exec host limits caller within.place chain =
      (do return (none, ← atRule host limits caller within keyword params cs
        (Stmt.execAll host limits caller within.place (Stmt.block cs)))) := by
  unfold Stmt.ofAtRule
  split
  case h_1 => exact absurd rfl hif
  case h_2 => exact absurd rfl helse
  case h_17 =>
    -- no other keyword has a rule in either dispatch
    unfold atRule
    split
    case h_15 => cases within <;> rfl
    all_goals contradiction
  all_goals cases within <;> rfl

/-- A link of a chain is decided as the walk decides it. -/
theorem exec_link (place : Place σ) (keyword : String) (params : List Node) (body : List Stmt)
    (chain : Option Bool) (hk : keyword = "if" ∨ keyword = "else") :
    (Stmt.ofAtRule keyword params body).exec host limits caller place chain = (do
      let (next, taken) ← conditional host caller keyword params chain
      if taken then return (next, ← Stmt.execAll host limits caller place body)
      else return (next, none)) := by
  have link (condition : Expr) :
      (do
        let ran ← Piece.link host limits caller place condition body
        return (some ran.isSome, ran.join)) =
      (do
        if (← condition.eval host caller).isTruthy then
          return (some true, ← Stmt.execAll host limits caller place body)
        else return (some false, none)) := by
    simp only [Piece.link, bind_assoc]
    refine bind_congr fun v => ?_
    split <;> simp
  have decided (condition : Expr) :
      (do
        let (next, taken) ← (do
          let taken := (← condition.eval host caller).isTruthy
          return (some taken, taken))
        if taken then return (next, ← Stmt.execAll host limits caller place body)
        else return (next, none)) =
      (do
        if (← condition.eval host caller).isTruthy then
          return (some true, ← Stmt.execAll host limits caller place body)
        else return (some false, none)) := by
    simp only [bind_assoc, pure_bind]
    refine bind_congr fun v => ?_
    cases v.isTruthy <;> rfl
  rcases hk with rfl | rfl
  · exact (link _).trans (decided _).symm
  · have hne : ("else" : String) ≠ "if" := by decide
    have hrule : Stmt.ofAtRule "else" params body =
        match Stmt.elseIf? params with
        | some c => .elseIfLink c body
        | none => .elseLink body := rfl
    rw [hrule]
    unfold conditional
    rw [if_neg hne]
    cases Stmt.elseIf? params with
    | some c =>
      rcases chain with _ | _ | _
      · rfl
      · exact (link c).trans (decided c).symm
      · rfl
    | none =>
      rcases chain with _ | _ | _
      · rfl
      · rfl
      · rfl

theorem exec_ofDeclaration (place : Place σ) (n : Node) :
    (Stmt.ofDeclaration n).exec host limits caller place =
      Stmt.silent (declaration host limits caller n) := by
  unfold declaration Stmt.ofDeclaration
  split
  · rfl
  · simp [Stmt.exec, Stmt.silent]

mutual

theorem execNode_eq (within : Within) (chain : Option Bool) (n : Node) :
    execNode host limits caller within chain n =
      Piece.exec? host limits caller within.place chain (Stmt.piece? n) := by
  cases n with
  | leaf k t s => rfl
  | single k c s => rfl
  | sequence k cs s =>
    have hblock := execBlock_eq within cs
    cases k with
    | declaration =>
      change _ = (do
        return (none, ← (Stmt.ofDeclaration (.sequence .declaration cs s)).exec host limits caller
          _))
      rw [exec_ofDeclaration]
      simp [execNode, Stmt.silent]
    | rule =>
      unfold execNode
      rw [hblock]
      cases within <;> rfl
    | atRule =>
      unfold execNode
      rw [hblock]
      -- the pieces of an at-rule are told apart by its keyword as well
      change _ = (Stmt.ofAtRule _ _ _).exec host limits caller within.place chain
      dsimp only
      split
      · next hk => exact (exec_link host limits caller _ _ _ _ chain (.inl hk)).symm
      · next hk => exact (exec_link host limits caller _ _ _ _ chain (.inr hk)).symm
      · next hif helse =>
        exact (exec_ofAtRule host limits caller within _ _ cs chain hif helse).symm
    | _ => rfl

theorem execBlock_eq (within : Within) (ns : List Node) :
    execBlock host limits caller within ns =
      Stmt.execAll host limits caller within.place (Stmt.block ns) := by
  match ns with
  | [] => rfl
  | .leaf _ _ _ :: ns => exact execBlock_eq within ns
  | .single _ _ _ :: ns => exact execBlock_eq within ns
  | .sequence k cs s :: ns =>
    have hpieces := execNodes_eq within none cs
    have hblock := execBlock_eq within ns
    by_cases hk : k = .block
    · subst hk
      rw [execBlock, Stmt.block, Piece.execAll_eq, hpieces]
    · simp [execBlock, Stmt.block, hk, hblock]

/-- **The walk that may return** runs the statements of the nodes. -/
theorem execNodes_eq (within : Within) (chain : Option Bool) (ns : List Node) :
    execNodes host limits caller within chain ns =
      Piece.execAll host limits caller within.place chain (Stmt.pieces ns) := by
  match ns with
  | [] => rfl
  | n :: ns =>
    rw [execNodes, Stmt.pieces, Piece.execAll_toList_append, execNode_eq within chain n]
    refine bind_congr fun ⟨next, r⟩ => ?_
    cases r with
    | none => exact execNodes_eq within next ns
    | some v => rfl

end

end Walk
end Stylesheet
