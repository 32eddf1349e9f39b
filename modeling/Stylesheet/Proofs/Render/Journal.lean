import Stylesheet.Proofs.Render.History
import Stylesheet.Proofs.Render.Noted

/-!
# Renderings with a journal

The same rendering, which keeps a journal: the states that it passes, the values that go from hand
to hand, the calls and files that it opens and closes, and the rounds of its loops. How deep it is
and how often the body of a loop has run is counted as it goes, and compared with the limits where
a call, a file or a round starts. What it recurses on is a clock that says nothing about the
stylesheet; a rendering whose clock runs out says so in the journal.

* `Entry`, `Journal.depth`: what is entered in a journal, and how deep a rendering is by it.
* `Journal.notes`: what is entered of statements and calls, and the loops that count their rounds.
* `Journal.callAt`, `Journal.runFile`: calls and files with a journal.
* `Journal.render`: a whole rendering with a journal.
-/

namespace Stylesheet

open Render

/-- What lies inside each other in a rendering: calls of functions of stylesheets, and files that
are imported or loaded. -/
inductive Nesting where
  | call
  | file
  deriving DecidableEq, Repr

/-- What is entered in the journal of a rendering. -/
inductive Entry where
  /-- A state that the rendering passes: the stylesheet that is running, and the modules. -/
  | passed (sheet : Sheet) (modules : Table Path Module)
  /-- Values that are assigned, bound to parameters, passed to a function or returned by one. -/
  | used (vs : List Value)
  /-- What a function of the host returns. -/
  | answered (v : Value)
  | opened (what : Nesting)
  | closed (what : Nesting)
  /-- The body of a `@for` or `@while` loop runs, for the given time since the loop started. -/
  | round (n : Nat)
  /-- The clock has run out. -/
  | stopped

/-- What is entered so far, the latest first. -/
abbrev Journal := List Entry

namespace Journal

variable {σ α : Type}

/-- How many calls or files are open. -/
def depth (what : Nesting) : Journal → Nat
  | [] => 0
  | .opened w :: es => if w = what then depth what es + 1 else depth what es
  | .closed w :: es => if w = what then depth what es - 1 else depth what es
  | _ :: es => depth what es

/-- A step that keeps a journal. -/
abbrev Step (σ α : Type) := Render (Traced Entry σ) α

/-! ### Entries -/

/-- Enter the state that is passed. -/
def look : Step σ Unit := do
  let s ← get
  Traced.note (.passed s.sheet s.modules)

/-- Enter values that are used. -/
def use (vs : List Value) : Step σ Unit := Traced.note (.used vs)

/-- The journal so far. -/
def soFar : Step σ Journal := return (← get).host.history

/-- Run a step inside a call or a file, whether it fails or not. -/
def inside (what : Nesting) (act : Step σ α) : Step σ α := do
  Traced.note (.opened what)
  Traced.closing (fun _ => .closed what) act

/-- Stop because the clock has run out. -/
def stop : Step σ α := do
  Traced.note .stopped
  throw (.raised "")

/-! ### Hosts -/

/-- The value among the answers of a host. -/
def answers : Except String Value → Journal
  | .ok v => [.answered v]
  | .error _ => []

/-- A function of the host, whose arguments and result are entered. -/
def asked (f : HostFunction σ) : HostFunction (Traced Entry σ) := fun args t =>
  let (r, inner) := f args t.inner
  (r, ⟨inner, answers r ++ .used args :: t.history⟩)

/-- The same host, which enters what passes between it and the stylesheets. -/
def host (h : Host σ) : Host (Traced Entry σ) :=
  { Traced.host h with functions := ⟨h.functions.entries.map fun (n, f) => (n, asked f)⟩ }

/-! ### Loops -/

/-- Run a body once more, unless it has run as often as allowed. -/
def round (keyword : String) (limit done : Nat) (body : Step σ (Option Value)) :
    Step σ (Option Value) :=
  if limit ≤ done then fault (.loopLimit keyword limit)
  else do
    Traced.note (.round (done + 1))
    body

/-- Run a body for each index up to the one at which to stop. -/
def count (limit : Nat) (step stopAt : Int) (body : Int → Step σ (Option Value)) :
    (clock done : Nat) → (index : Int) → Step σ (Option Value)
  | 0, _, _ => stop
  | clock + 1, done, index =>
      if index = stopAt then pure none
      else do
        match ← round "for" limit done (body index) with
        | some v => return some v
        | none => count limit step stopAt body clock (done + 1) (index + step)

/-- Run a body from one number to another, up or down. -/
def countTo (clock limit : Nat) (first last : Int) (inclusive : Bool)
    (body : Int → Step σ (Option Value)) : Step σ (Option Value) :=
  let step : Int := if first ≤ last then 1 else -1
  count limit step (if inclusive then last + step else last) body clock 0 first

/-- Run a body as long as a condition holds. -/
def whileHolds (limit : Nat) (condition : Step σ Value) (body : Step σ (Option Value)) :
    (clock done : Nat) → Step σ (Option Value)
  | 0, _ => stop
  | clock + 1, done => do
      if (← condition).isTruthy then
        match ← round "while" limit done body with
        | some v => return some v
        | none => whileHolds limit condition body clock (done + 1)
      else return none

/-! ### Statements and calls -/

/-- What a call enters: the state of the caller and the arguments, and what is returned. -/
def call (args : Arguments) (act : Step σ (Option Value)) : Step σ (Option Value) := do
  look
  use (args.positional ++ args.named.map (·.2))
  let result ← inside .call act
  match result with
  | some v => use [v]
  | none => pure ()
  return result

/-- **What is entered of statements and calls:** the state before and behind each statement, where a
round of a loop or a function starts, where all parameters are bound, and before every default. -/
def notes (clock : Nat) : Notes (Traced Entry σ) where
  before := look
  behind := look
  default := look
  start := look
  value v := use [v]
  call _ := call
  loops limits := {
    countTo := countTo clock limits.rounds
    whileHolds := fun condition body => whileHolds limits.rounds condition body clock 0 }

variable [Log.Sink σ] (clock : Nat) (h : Host (Traced Entry σ)) (limits : Limits)

/-- Calls functions of stylesheets, unless as many calls are open as allowed. -/
def callAt : Nat → Caller (Traced Entry σ)
  | 0, _, _, _ => stop
  | c + 1, name, f, args => do
      if limits.calls ≤ depth .call (← soFar) then throw (.call name (.depthLimit limits.calls))
      else Noted.invoke (notes clock) h limits (callAt c) name f args

/-! ### Files -/

/-- What runs another file, unless as many files are open as allowed. -/
def next? (run : Runner (Traced Entry σ)) : Step σ (Option (Runner (Traced Entry σ))) := do
  if limits.imports ≤ depth .file (← soFar) then return none
  else return some fun origin body => inside .file (run origin body)

/-- How the statements of one file reach others. -/
def loader (run : Runner (Traced Entry σ)) (origin : Origin) : Loader (Traced Entry σ) where
  importFile url := do
    look
    importFile h limits (← next? limits run) origin url
  moduleOf url bindings := do
    let loaded ← moduleOf h limits (← next? limits run) origin url bindings
    look
    return loaded

/-- Runs the statements at the top of a file. -/
def run (loader : Loader (Traced Entry σ)) (body : List Stmt) : Step σ Unit := do
  look
  let _ ← Noted.execAll (notes clock) h limits (callAt clock h limits clock) (.top loader) body

/-- Runs the statements of a file. -/
def runFile : Nat → Runner (Traced Entry σ)
  | 0, _, _ => stop
  | c + 1, origin, body => run clock h limits (loader h limits (runFile c) origin) body

/-- **A rendering with a journal.** -/
def render (h : Host σ) (source : String) :
    StateM (Traced Entry σ) (Except RenderError Unit) :=
  renderBy (runFile clock (host h) limits clock) source

/-- A clock that outlasts every rendering within some limits. -/
def ample (limits : Limits) : Nat := limits.imports + limits.calls + limits.rounds + 1

end Journal
end Stylesheet
