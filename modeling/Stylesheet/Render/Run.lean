import Stylesheet.Render.Exec

/-!
# Rendering a stylesheet

A rendering runs the statements of a source from the first to the last or to the first error. The
limits are what it recurses on: a call may make calls with one call less inside each other, and a
file may import files with one import less inside each other.

* `invoke`: a call of a function of a stylesheet.
* `render`: a whole rendering.
-/

namespace Stylesheet
namespace Render

variable {σ : Type} [Log.Sink σ] (host : Host σ) (limits : Limits)

/-- Run a step where the body of a function runs: in the stylesheet that declares it. That of
another module is loaded, and what the function does to its variables is forgotten. -/
def atHome {α : Type} (name : String) (f : UserFunction) (act : Render σ α) : Render σ α := do
  match f.home with
  | none => inFrame act
  | some p =>
      if (← sheet).path == some p then inFrame act
      else
        match ← module? p with
        | some m => inSheet (.ofModule m p) (inFrame act)
        | none => throw (.call name (.moduleNotLoaded p))

/-- Call a function of a stylesheet: bind the arguments and run the body. -/
def invoke (caller : Caller σ) : Caller σ := fun name f args => do
  let result ← atHome name f do
    Eval.bind (·.eval host caller) name f.parameters.length f.parameters args
    Stmt.execAll host limits caller .function f.body
  match result with
  | some v => return v
  | none => throw (.call name .withoutReturn)

/-- Calls functions of stylesheets, at most so many inside each other. -/
def callAt : Nat → Caller σ
  | 0, name, _, _ => throw (.call name (.depthLimit limits.calls))
  | n + 1, name, f, args => invoke host limits (callAt n) name f args

/-- Runs the statements of a file, in which imports may lie so many inside each other. -/
def runFile : Nat → Runner σ
  | 0, origin, body => run (loader host limits none origin) body
  | n + 1, origin, body => run (loader host limits (some (runFile n)) origin) body
where
  run (loader : Loader σ) (body : List Stmt) : Render σ Unit := do
    let _ ← Stmt.execAll host limits (callAt host limits limits.calls) (.top loader) body

end Render

/-- Renders a source for a host. -/
abbrev Engine (σ : Type) := Host σ → String → StateM σ (Except RenderError Unit)

/-- Parse a source and run its statements. -/
def renderBy {σ : Type} (run : Runner σ) (source : String) : StateM σ (Except RenderError Unit) := do
  match parse source with
  | .error e => return .error (.parse e)
  | .ok tree =>
      let start : State σ := ⟨.start .empty none, .empty, ← get⟩
      let (result, s) := (run .entry (Stmt.ofTree tree)).run start
      set s.host
      return result

/-- **Render** a source for a host, within limits. -/
def render {σ : Type} [Log.Sink σ] (limits : Limits) : Engine σ := fun host source =>
  renderBy (Render.runFile host limits limits.imports) source

end Stylesheet
