import Stylesheet.Log
import Stylesheet.Render.Eval
import Stylesheet.Rule.OfNode
import Stylesheet.Syntax.Parse

/-!
# Imports and modules

How a stylesheet reaches other files. An imported file runs in the stylesheet that imports it, and
only its namespaces are its own. A module runs once in a stylesheet of its own; its members are
kept, and come under a namespace or among those of the stylesheet that loads it.

* `importFile`, `moduleOf`: how one file reaches another.
* `use`, `forward`: the rules that load modules.
-/

namespace Stylesheet

/-- Runs the statements of a file that is imported. -/
abbrev Runner (σ : Type) := Origin → List Stmt → Render σ Unit

/-- How the statements of a stylesheet reach other files. -/
structure Loader (σ : Type) where
  /-- Imports the file of a URL. -/
  importFile : String → Render σ Unit
  /-- The module of a URL, loaded with values for some of its variables. -/
  moduleOf : String → Bindings → Render σ (Path × Module)

namespace Render

variable {σ : Type}

/-- Whether an import is left to the browser. -/
def isCssImport (url : String) : Bool :=
  let cs := url.toList
  ["url(", "http://", "https://", "//"].any (·.toList.isPrefixOf cs) || ".css".toList.isSuffixOf cs

/-- The path of an import. -/
def resolve (host : Host σ) (origin : Origin) (url : String) : Render σ Path := do
  match ← ofHost (host.importer url origin) with
  | .ok p => return p
  | .error message => throw (.unresolved url message)

variable [Log.Sink σ]

/-- The statements of a file. -/
def readSheet (host : Host σ) (p : Path) : Render σ (List Stmt) := do
  report .trace ("Loading " ++ p.quoted)
  match host.read p with
  | .error reason => throw (.unreadable p reason)
  | .ok source =>
      match parse source with
      | .error e => throw (.importParse p e)
      | .ok tree => return Stmt.ofTree tree

/-- What runs a file, if another one may be opened. -/
def open? (limits : Limits) (next : Option (Runner σ)) (p : Path) : Render σ (Runner σ) :=
  match next with
  | some run => pure run
  | none => throw (.importDepth limits.imports p)

/-- Import a file: its members become members of the stylesheet that imports it, but it has
namespaces of its own. -/
def importFile (host : Host σ) (limits : Limits) (next : Option (Runner σ)) (origin : Origin)
    (url : String) : Render σ Unit := do
  if isCssImport url then report .trace ("Leaving plain CSS import " ++ url ++ " untouched")
  else
    let p ← resolve host origin url
    let run ← open? limits next p
    let body ← readSheet host p
    around (run (.file p) body) (fun s => { s with namespaces := .none })
      fun before after => { after with namespaces := before.namespaces }

/-- Run a file as a module, in a stylesheet of its own, up to its members. -/
def runModule (run : Runner σ) (p : Path) (bindings : Bindings) (body : List Stmt) :
    Render σ Module := do
  let m ← inSheet (.start bindings (some p)) do
    run (.file p) body
    return (← sheet).toModule
  report .debug ("Loaded module " ++ p.quoted ++ " with " ++ toString m.bindings.size ++
    " variables and " ++ toString m.functions.size ++ " functions")
  return m

/-- The module of a URL. A module is loaded once and is shared after that. -/
def moduleOf (host : Host σ) (limits : Limits) (next : Option (Runner σ)) (origin : Origin)
    (url : String) (configuration : Bindings) : Render σ (Path × Module) := do
  let p ← resolve host origin url
  match ← module? p with
  | some m => if configuration.size = 0 then return (p, m) else fault (.alreadyLoaded url)
  | none =>
      let run ← open? limits next p
      let body ← readSheet host p
      let m ← runModule run p configuration body
      keep p m
      return (p, m)

/-- How the statements of one file reach others. `next` runs the statements of another file; it is
none if no further file may be opened. -/
def loader (host : Host σ) (limits : Limits) (next : Option (Runner σ)) (origin : Origin) :
    Loader σ :=
  ⟨importFile host limits next origin, moduleOf host limits next origin⟩

/-- The variables of a module that are set when it is loaded. -/
def configure (eval : Expr → Render σ Value) (h : LoadHeader) : Render σ Bindings := do
  match h.configuration with
  | none => return .empty
  | some c =>
      let settings ← ofFault c
      settings.foldlM (fun (t : Bindings) (n, e) => return t.insert n (← eval e)) .empty

/-- The built-in module of a name. -/
def libraryOf (url name : String) : Render σ Builtin.Library :=
  match Builtin.Library.ofName? name with
  | some l => pure l
  | none => fault (.noBuiltinModule url)

/-- Use a built-in module without a namespace. -/
def useFlat (l : Builtin.Library) : Render σ Unit := modifySheet fun s =>
  { s with namespaces := { s.namespaces with flat := s.namespaces.flat ++ [l] } }

/-- Let a namespace stand for a module. -/
def nameModule (n : Name) (space : Namespace) : Render σ Unit := modifySheet fun s =>
  { s with namespaces := { s.namespaces with named := s.namespaces.named.insert n space } }

/-- Fail if a namespace stands for a module already. -/
def ensureFree (space : Option Name) : Render σ Unit := do
  match space with
  | none => pure ()
  | some n =>
      if (← sheet).namespaces.named.contains n then fault (.namespaceTaken n.text) else pure ()

/-- Use a built-in module. -/
def useLibrary (h : LoadHeader) (l : Builtin.Library) : Render σ Unit :=
  if h.configuration.isSome then fault .builtinConfigured
  else
    match h.namespace? with
    | some n => nameModule n (.library l)
    | none => useFlat l

/-- Use a module: its members come under a namespace, or among those of the stylesheet. -/
def use (eval : Expr → Render σ Value) (loader : Loader σ) (h : LoadHeader) : Render σ Unit := do
  ensureFree h.namespace?
  match h.libraryName? with
  | some library => useLibrary h (← libraryOf h.url library)
  | none =>
      let (p, m) ← loader.moduleOf h.url (← configure eval h)
      match h.namespace? with
      | some n => nameModule n (.module p)
      | none => modifySheet (·.merge m h.front)

/-- Forward a module: its members become members of the stylesheet. -/
def forward (eval : Expr → Render σ Value) (loader : Loader σ) (h : LoadHeader) :
    Render σ Unit := do
  match h.libraryName? with
  | some library => useFlat (← libraryOf h.url library)
  | none =>
      let (_, m) ← loader.moduleOf h.url (← configure eval h)
      modifySheet (·.merge m h.front)

end Render
end Stylesheet
