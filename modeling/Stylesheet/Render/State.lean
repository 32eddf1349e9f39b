import Stylesheet.Log
import Stylesheet.Render.Scope
import Stylesheet.Rule.Basic

/-!
# The state of a rendering

A rendering runs one stylesheet at a time, keeps the modules that are loaded, and works on the
state of its host. The state outlives an error: what was done before it stays done.

* `Host`: who resolves imports, reads files and answers calls.
* `State`: the stylesheet that is running, the loaded modules and the state of the host.
* `Render`: a step of a rendering.
-/

namespace Stylesheet

/-! ### The host -/

/-- Where an import is asked for. -/
inductive Origin where
  /-- The source that is rendered, which has no path of its own. -/
  | entry
  | file (p : Path)

/-- Answers an import with the path of a file, or with the reason why there is none. -/
abbrev Importer (σ : Type) := String → Origin → StateM σ (Except String Path)

/-- Answers a call with a value, or with the reason why it is refused. -/
abbrev HostFunction (σ : Type) := List Value → StateM σ (Except String Value)

/-- Functions of the host by their names. -/
abbrev Registry (σ : Type) := Table Name (HostFunction σ)

namespace Registry

variable {σ : Type}

/-- Register a function; another one of the same name gives way. -/
def register (r : Registry σ) (name : String) (f : HostFunction σ) : Registry σ :=
  r.insert (.ofString name) f

/-- The function of a name. -/
def function? (r : Registry σ) (name : String) : Option (HostFunction σ) :=
  r.find? (.ofString name)

end Registry

/-- What a rendering asks its host for. -/
structure Host (σ : Type) where
  importer : Importer σ
  functions : Registry σ
  read : Path → Except ReadFault String

/-- What bounds a rendering. -/
structure Limits where
  /-- Imports inside each other. -/
  imports : Nat
  /-- Calls of functions of the stylesheet inside each other. -/
  calls : Nat
  /-- Rounds of one loop. -/
  rounds : Nat
  deriving DecidableEq, Repr

def Limits.standard : Limits := ⟨64, 100, 100000⟩

/-! ### Stylesheets and modules -/

/-- A function of a stylesheet. -/
structure UserFunction where
  parameters : List Parameter
  body : List Stmt
  /-- The module in which it is declared; none for the entry. -/
  home : Option Path

/-- What a namespace stands for. -/
inductive Namespace where
  | library (l : Builtin.Library)
  /-- A loaded module. -/
  | module (path : Path)

/-- The namespaces of a stylesheet, and the built-in modules that it uses without one. -/
structure Namespaces where
  named : Table Name Namespace
  flat : List Builtin.Library

def Namespaces.none : Namespaces := ⟨.empty, []⟩

/-- The members of a loaded module. -/
structure Module where
  bindings : Bindings
  functions : Table Name UserFunction
  namespaces : Namespaces

/-- The stylesheet that is running. -/
structure Sheet where
  scopes : Scopes
  functions : Table Name UserFunction
  namespaces : Namespaces
  /-- Its path; none for the entry. -/
  path : Option Path

namespace Sheet

/-- A stylesheet before its first statement. -/
def start (bindings : Bindings) (path : Option Path) : Sheet :=
  ⟨⟨[], bindings⟩, .empty, .none, path⟩

/-- A stylesheet in which code of a loaded module runs. -/
def ofModule (m : Module) (path : Path) : Sheet :=
  ⟨⟨[], m.bindings⟩, m.functions, m.namespaces, some path⟩

/-- The members of a stylesheet after its last statement. -/
def toModule (s : Sheet) : Module := ⟨s.scopes.global, s.functions, s.namespaces⟩

/-- The same stylesheet with every member of a module, under its name behind a front. -/
def merge (s : Sheet) (m : Module) (front : Name) : Sheet :=
  let fronted {α : Type} (t : Table Name α) : List (Name × α) :=
    t.entries.map fun (n, a) => (front ++ n, a)
  { s with
    scopes := { s.scopes with global := s.scopes.global.insertAll (fronted m.bindings) }
    functions := s.functions.insertAll (fronted m.functions) }

end Sheet

/-! ### The state -/

/-- The state of a rendering. -/
structure State (σ : Type) where
  sheet : Sheet
  modules : Table Path Module
  host : σ

/-- A step of a rendering. -/
abbrev Render (σ α : Type) := ExceptT RenderError (StateM (State σ)) α

namespace Render

variable {σ α : Type}

/-- Fail with a fault. -/
def fault (f : Fault) : Render σ α := throw (.fault f)

/-- Fail if the result is a fault. -/
def ofFault : Except Fault α → Render σ α
  | .ok a => pure a
  | .error f => fault f

def ofExcept : Except RenderError α → Render σ α
  | .ok a => pure a
  | .error e => throw e

/-- The stylesheet that is running. -/
def sheet : Render σ Sheet := return (← get).sheet

def modifySheet (f : Sheet → Sheet) : Render σ Unit :=
  modify fun s => { s with sheet := f s.sheet }

def modifyScopes (f : Scopes → Scopes) : Render σ Unit :=
  modifySheet fun s => { s with scopes := f s.scopes }

/-- A step of the host. -/
def ofHost (step : StateM σ α) : Render σ α :=
  ExceptT.mk fun s =>
    let (a, host) := step s.host
    (.ok a, { s with host })

/-- A step that is undone in part in the stylesheet that is running, whether it fails or not:
`leave` gets the stylesheet before it and the one behind it. -/
def around (act : Render σ α) (enter : Sheet → Sheet) (leave : Sheet → Sheet → Sheet) :
    Render σ α :=
  ExceptT.mk fun s =>
    let (r, s') := act.run { s with sheet := enter s.sheet }
    (r, { s' with sheet := leave s.sheet s'.sheet })

/-- Run a step inside a block. -/
def inScope (scope : Scope) (act : Render σ α) : Render σ α :=
  around act (fun s => { s with scopes := s.scopes.push scope })
    (fun _ s => { s with scopes := s.scopes.pop })

/-- Run a step in another stylesheet. What it does to that stylesheet is forgotten. -/
def inSheet (other : Sheet) (act : Render σ α) : Render σ α :=
  around act (fun _ => other) (fun before _ => before)

/-- Run a step in a block that sees the variables of the stylesheet and no open block. -/
def inFrame (act : Render σ α) : Render σ α :=
  let withLocals (locals : List Scope) (s : Sheet) : Sheet :=
    { s with scopes := { s.scopes with locals } }
  around act (withLocals [⟨.empty, false⟩])
    (fun before after => withLocals before.scopes.locals after)

/-- The loaded module of a path. -/
def module? (p : Path) : Render σ (Option Module) := return (← get).modules.find? p

/-- Keep a module that is loaded. -/
def keep (p : Path) (m : Module) : Render σ Unit :=
  modify fun s => { s with modules := s.modules.insert p m }

variable [Log.Sink σ]

/-- Report a text. -/
def report (level : Log.Level) (text : String) : Render σ Unit :=
  ofHost (Log.report level .evaluator text)

end Render
end Stylesheet
