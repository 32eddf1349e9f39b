import Stylesheet.Render.Run

/-!
# Renderings with notes

The statements run as before, and notes are taken of them by a record that says what is noted and
when. There is one such interpreter for all records. Only what holds other statements, hands values
on or reaches other files is said again; every other statement runs by its own definition.

* `Notes`: what is noted of a rendering.
* `Noted.exec`, `Noted.callAt`, `Noted.runFile`: statements, calls and files with notes.
* `Noted.runFile_none`: if nothing is noted, nothing is changed.
-/

namespace Stylesheet

/-! ### Notes -/

/-- How the bodies of `@for` and `@while` loops are run round after round. -/
structure Loops (τ : Type) where
  countTo (first last : Int) (inclusive : Bool) (body : Int → Render τ (Option Value)) :
    Render τ (Option Value)
  whileHolds (condition : Render τ Value) (body : Render τ (Option Value)) :
    Render τ (Option Value)

/-- As many rounds as allowed. -/
def Loops.within {τ : Type} (limits : Limits) : Loops τ where
  countTo := Render.countTo limits.rounds
  whileHolds condition body := Render.whileHolds limits.rounds condition body limits.rounds

/-- **What is noted of a rendering.** Nothing is, unless it is said otherwise. -/
structure Notes (τ : Type) where
  /-- Before every statement. -/
  before : Render τ Unit := pure ()
  /-- Behind every statement. -/
  behind : Render τ Unit := pure ()
  /-- Before every default that stands in for an argument. -/
  default : Render τ Unit := pure ()
  /-- Where a round of a loop starts, and where the body of a function does, before its parameters
  are bound and behind that. -/
  start : Render τ Unit := pure ()
  /-- Of a value that goes to a variable. -/
  value : Value → Render τ Unit := fun _ => pure ()
  /-- Before a `!global` declaration sets a variable. One that leaves a default as it is sets
  none. -/
  global : Render τ Unit := pure ()
  /-- Before a function is declared. -/
  declaring : Signature → List Stmt → Render τ Unit := fun _ _ => pure ()
  /-- Around a rule that loads a module. -/
  load : Render τ (Option Value) → Render τ (Option Value) := id
  /-- Around the body of a function that is called. -/
  call : UserFunction → Arguments → Render τ (Option Value) → Render τ (Option Value) :=
    fun _ _ => id
  /-- Around the statements of a file that is imported. -/
  imported : Render τ Unit → Render τ Unit := id
  /-- Before a file is read. -/
  read : Path → Render τ Unit := fun _ => pure ()
  /-- Where a rule gets a module that is kept. -/
  shared : Path → Module → Render τ Unit := fun _ _ => pure ()
  /-- Around a file that is run as a module, and kept then. -/
  loaded : Path → Render τ (Path × Module) → Render τ (Path × Module) := fun _ => id
  /-- Before a module is kept. -/
  kept : Path → Module → Render τ Unit := fun _ _ => pure ()
  loops : Limits → Loops τ := Loops.within

/-- Nothing is noted. -/
def Notes.none {τ : Type} : Notes τ where

/-! ### Places -/

/-- Where statements stand, without what they reach from there. -/
inductive Ground where
  | function
  | loop
  | top

def Place.ground {τ : Type} : Place τ → Ground
  | .top _ => .top
  | .loop => .loop
  | .function => .function

namespace Render

variable {τ : Type} [Log.Sink τ] (host : Host τ) (limits : Limits)

/-- How the statements of a file reach others, when imports may lie so many inside each other. -/
def loaderAt : Nat → Origin → Loader τ
  | 0, origin => loader host limits none origin
  | n + 1, origin => loader host limits (some (runFile host limits n)) origin

theorem runFile_eq (n : Nat) (origin : Origin) (body : List Stmt) :
    runFile host limits n origin body =
      runFile.run host limits (loaderAt host limits n origin) body := by
  cases n <;> rfl

/-- Runs the statements of the source that is rendered. -/
def entry (body : List Stmt) : Render τ (Option Value) :=
  Stmt.execAll host limits (callAt host limits limits.calls)
    (.top (loaderAt host limits limits.imports .entry)) body

/-- The value of an expression at the top of the source that is rendered. -/
def value (e : Expr) : Render τ Value := e.eval host (callAt host limits limits.calls)

end Render

namespace Noted

variable {τ : Type} [Log.Sink τ] (notes : Notes τ) (host : Host τ) (limits : Limits)

/-! ### Statements -/

section

variable (caller : Caller τ)

/-- The value of an expression that goes to a variable. -/
def evaluate (e : Expr) : Render τ Value := do
  let v ← e.eval host caller
  notes.value v
  return v

/-- The value of a declaration, which is noted if it goes to a variable of the stylesheet. -/
def declared (isGlobal : Bool) (e : Expr) : Render τ Value := do
  let v ← evaluate notes host caller e
  if isGlobal then notes.global
  return v

mutual

/-- Run a statement with notes. The result is the value of an `@return`. -/
def exec (place : Place τ) : Stmt → Render τ (Option Value)
  | .declare name value isDefault isGlobal =>
      Stmt.silent
        (Render.declare (declared notes host caller isGlobal) name value isDefault isGlobal)
  | .rule body =>
      if place.isFunction then Render.fault .ruleInFunction
      else Render.inScope ⟨.empty, false⟩ (execAll place body)
  | .scoped keyword body =>
      if place.isFunction then Render.fault (.notInFunctions keyword)
      else Render.inScope ⟨.empty, false⟩ (execAll place body)
  | .choose links otherwise => execLinks place (execAll place otherwise) links
  | .each header body => do
      let h ← Render.ofFault header
      let list ← h.list.eval host caller
      Render.forEach
        (fun element => Render.inScope ⟨Render.eachFrame h.names element, true⟩ do
          notes.start
          execAll place.inner body)
        list.elements
  | .for header body => do
      let h ← Render.ofFault header
      let (first, unit) ← Render.integer (← h.first.eval host caller)
      let (last, _) ← Render.integer (← h.last.eval host caller)
      (notes.loops limits).countTo first last h.inclusive fun index =>
        Render.inScope ⟨Table.empty.insert h.counter (.number (Float.ofInt index) unit), true⟩ do
          notes.start
          execAll place.inner body
  | .while condition body =>
      (notes.loops limits).whileHolds (condition.eval host caller)
        (Render.inScope ⟨.empty, true⟩ do
          notes.start
          execAll place.inner body)
  | .function signature body =>
      if place.isFunction then Render.fault (.notHere "function")
      else do
        let s ← Render.ofFault signature
        notes.declaring s body
        Render.declareFunction s body
        return none
  | .load what header =>
      match place with
      | .top loader => notes.load do
          let h ← Render.ofFault header
          match what with
          | .use => Stmt.silent (Render.use (evaluate notes host caller) loader h)
          | .forward => Stmt.silent (Render.forward (evaluate notes host caller) loader h)
      | _ => Render.fault (.notHere what.keyword)
  | s => s.exec host limits caller place

/-- Run statements in order until one returns, with notes before and behind each. -/
def execAll (place : Place τ) : List Stmt → Render τ (Option Value)
  | [] => pure none
  | s :: ss => do
      notes.before
      let r ← exec place s
      notes.behind
      match r with
      | some v => return some v
      | none => execAll place ss

/-- Run the block of the first condition that holds, or what is run otherwise. -/
def execLinks (place : Place τ) (otherwise : Render τ (Option Value)) :
    List (Expr × List Stmt) → Render τ (Option Value)
  | [] => otherwise
  | (condition, body) :: links => do
      if (← condition.eval host caller).isTruthy then execAll place body
      else execLinks place otherwise links

end

/-! ### Calls -/

/-- The value that stands in for a missing argument. -/
def default (e : Expr) : Render τ Value := do
  notes.default
  evaluate notes host caller e

/-- Call a function of a stylesheet with notes. -/
def invoke : Caller τ := fun name f args => do
  let result ← notes.call f args <| Render.atHome name f do
    notes.start
    Eval.bind (default notes host caller) name f.parameters.length f.parameters args
    notes.start
    execAll notes host limits caller .function f.body
  match result with
  | some v => return v
  | none => throw (.call name .withoutReturn)

end

/-- Calls functions of stylesheets with notes, at most so many inside each other. -/
def callAt : Nat → Caller τ
  | 0, name, _, _ => throw (.call name (.depthLimit limits.calls))
  | n + 1, name, f, args => invoke notes host limits (callAt n) name f args

/-! ### Files -/

/-- Import a file with notes. -/
def importFile (next : Option (Runner τ)) (origin : Origin) (url : String) : Render τ Unit := do
  if Render.isCssImport url then
    Render.report .trace ("Leaving plain CSS import " ++ url ++ " untouched")
  else
    let p ← Render.resolve host origin url
    let run ← Render.open? limits next p
    notes.read p
    let body ← Render.readSheet host p
    Render.around (notes.imported (run (.file p) body)) (fun s => { s with namespaces := .none })
      fun before after => { after with namespaces := before.namespaces }

/-- The module of a URL, with notes. -/
def moduleOf (next : Option (Runner τ)) (origin : Origin) (url : String)
    (configuration : Bindings) : Render τ (Path × Module) := do
  let p ← Render.resolve host origin url
  match ← Render.module? p with
  | some m =>
      if configuration.size = 0 then do
        notes.shared p m
        return (p, m)
      else Render.fault (.alreadyLoaded url)
  | none =>
      let run ← Render.open? limits next p
      notes.read p
      let body ← Render.readSheet host p
      notes.loaded p do
        let m ← Render.runModule run p configuration body
        notes.kept p m
        Render.keep p m
        return (p, m)

/-- How the statements of one file reach others, with notes. -/
def loader (next : Option (Runner τ)) (origin : Origin) : Loader τ :=
  ⟨importFile notes host limits next origin, moduleOf notes host limits next origin⟩

/-- Runs the statements at the top of a file with notes. -/
def top (loader : Loader τ) (body : List Stmt) : Render τ (Option Value) :=
  execAll notes host limits (callAt notes host limits limits.calls) (.top loader) body

/-- The same without a result, since none of them returns. -/
def run (loader : Loader τ) (body : List Stmt) : Render τ Unit := do
  let _ ← top notes host limits loader body

/-- Runs the statements of a file with notes, in which imports may lie so many inside each other. -/
def runFile : Nat → Runner τ
  | 0, origin, body => run notes host limits (loader notes host limits none origin) body
  | n + 1, origin, body =>
      run notes host limits (loader notes host limits (some (runFile n)) origin) body

/-- How the statements of a file with notes reach others. -/
def loaderAt : Nat → Origin → Loader τ
  | 0, origin => loader notes host limits none origin
  | n + 1, origin => loader notes host limits (some (runFile notes host limits n)) origin

/-- Runs the statements of the source that is rendered, with notes. -/
def entry (body : List Stmt) : Render τ (Option Value) :=
  top notes host limits (loaderAt notes host limits limits.imports .entry) body

/-- The value of an expression at the top of the source that is rendered, with notes. -/
def value (e : Expr) : Render τ Value := e.eval host (callAt notes host limits limits.calls)

/-- **A rendering with notes.** -/
def render : Engine τ := fun host source =>
  renderBy (runFile notes host limits limits.imports) source

theorem runFile_eq (n : Nat) (origin : Origin) (body : List Stmt) :
    runFile notes host limits n origin body =
      run notes host limits (loaderAt notes host limits n origin) body := by
  cases n <;> rfl

theorem runFile_entry (body : List Stmt) :
    runFile notes host limits limits.imports .entry body =
      (do let _ ← entry notes host limits body) := runFile_eq _ _ _ _ _ _

/-! ### Statements in parts -/

theorem execAll_append (caller : Caller τ) (place : Place τ) (ss ss' : List Stmt) :
    execAll notes host limits caller place (ss ++ ss') =
      (do
        match ← execAll notes host limits caller place ss with
        | some v => return some v
        | none => execAll notes host limits caller place ss') := by
  induction ss with
  | nil => rfl
  | cons s ss ih =>
    simp only [List.cons_append, execAll, ih, bind_assoc]
    -- a statement that returns ends both sides alike
    refine bind_congr fun _ => bind_congr fun r => bind_congr fun _ => ?_
    cases r with
    | some v => rfl
    | none => rfl

theorem entry_append (ss ss' : List Stmt) :
    entry notes host limits (ss ++ ss') =
      (do
        match ← entry notes host limits ss with
        | some v => return some v
        | none => entry notes host limits ss') :=
  execAll_append notes host limits _ _ ss ss'

omit [Log.Sink τ] in
/-- If nothing is noted of variables of the stylesheet, a declaration is as good as any other. -/
theorem declared_eq (caller : Caller τ) (h : notes.global = pure ()) (isGlobal : Bool) :
    declared notes host caller isGlobal = evaluate notes host caller := by
  funext e
  unfold declared
  rw [h]
  cases isGlobal <;> exact bind_pure _

/-! ### Without notes -/

section

variable (caller : Caller τ)

omit [Log.Sink τ] in
theorem evaluate_none : evaluate .none host caller = (·.eval host caller) := by
  funext e
  exact bind_pure _

omit [Log.Sink τ] in
theorem declared_none (isGlobal : Bool) :
    declared .none host caller isGlobal = (·.eval host caller) := by
  rw [declared_eq .none host caller rfl, evaluate_none]

omit [Log.Sink τ] in
theorem default_none : default .none host caller = (·.eval host caller) :=
  evaluate_none host caller

mutual

theorem exec_none (place : Place τ) (s : Stmt) :
    exec .none host limits caller place s = s.exec host limits caller place := by
  cases s with
  | declare name e isDefault isGlobal => rw [exec, Stmt.exec, declared_none]
  | rule body => rw [exec, Stmt.exec, execAll_none]
  | «scoped» keyword body => rw [exec, Stmt.exec, execAll_none]
  | choose links otherwise => rw [exec, Stmt.exec, execAll_none, execLinks_none]
  | each header body =>
    simp only [exec, Stmt.exec, execAll_none]
    rfl
  | «for» header body =>
    simp only [exec, Stmt.exec, execAll_none]
    rfl
  | «while» condition body =>
    simp only [exec, Stmt.exec, execAll_none]
    rfl
  | function signature body =>
    rw [exec, Stmt.exec]
    rfl
  | load what header =>
    cases place with
    | top loader =>
      simp only [exec, Stmt.exec, evaluate_none]
      rfl
    | loop => rfl
    | function => rfl
  | _ => rfl

theorem execAll_none (place : Place τ) (ss : List Stmt) :
    execAll .none host limits caller place ss = Stmt.execAll host limits caller place ss := by
  match ss with
  | [] => rw [execAll, Stmt.execAll]
  | s :: ss =>
    rw [execAll, Stmt.execAll, exec_none, execAll_none]
    rfl

theorem execLinks_none (place : Place τ) (otherwise : Render τ (Option Value))
    (links : List (Expr × List Stmt)) :
    execLinks .none host limits caller place otherwise links =
      Stmt.execLinks host limits caller place otherwise links := by
  match links with
  | [] => rw [execLinks, Stmt.execLinks]
  | (condition, body) :: links =>
    simp only [execLinks, Stmt.execLinks, execAll_none, execLinks_none]

end

end

theorem callAt_none (n : Nat) : callAt .none host limits n = Render.callAt host limits n := by
  induction n with
  | zero => rfl
  | succ n ih =>
    funext name f args
    rw [callAt, Render.callAt, ih]
    unfold invoke Render.invoke
    rw [default_none, execAll_none]
    rfl

theorem loader_none (next : Option (Runner τ)) (origin : Origin) :
    loader .none host limits next origin = Render.loader host limits next origin := rfl

theorem run_none (loader : Loader τ) (body : List Stmt) :
    run .none host limits loader body = Render.runFile.run host limits loader body := by
  unfold run top
  rw [callAt_none, execAll_none]
  rfl

/-- **If nothing is noted,** nothing is changed. -/
theorem runFile_none (n : Nat) : runFile .none host limits n = Render.runFile host limits n := by
  induction n with
  | zero =>
    funext origin body
    rw [runFile, loader_none, run_none]
    rfl
  | succ n ih =>
    funext origin body
    rw [runFile, loader_none, run_none, ih]
    rfl

theorem loaderAt_none (n : Nat) (origin : Origin) :
    loaderAt .none host limits n origin = Render.loaderAt host limits n origin := by
  cases n with
  | zero => rfl
  | succ n =>
    rw [loaderAt, loader_none, runFile_none]
    rfl

theorem entry_none : entry .none host limits = Render.entry host limits := by
  funext body
  unfold entry top Render.entry
  rw [loaderAt_none, callAt_none, execAll_none]

theorem value_none : value .none host limits = Render.value host limits := by
  funext e
  unfold value Render.value
  rw [callAt_none]

theorem render_none : render (τ := τ) .none limits = Stylesheet.render limits := by
  funext host source
  rw [render, runFile_none]
  rfl

end Noted

/-- The statements of a source run in parts. -/
theorem Render.entry_append {τ : Type} [Log.Sink τ] (host : Host τ) (limits : Limits)
    (ss ss' : List Stmt) :
    Render.entry host limits (ss ++ ss') =
      (do
        match ← Render.entry host limits ss with
        | some v => return some v
        | none => Render.entry host limits ss') := by
  rw [← Noted.entry_none]
  exact Noted.entry_append .none host limits ss ss'

end Stylesheet
