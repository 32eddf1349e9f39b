import Stylesheet.Export
import Stylesheet.Extract.Basic
import Stylesheet.Import.Tracked
import Stylesheet.Plain.OfValue
import Stylesheet.Render.Run
import Stylesheet.Syntax.Outline

/-!
# Extracting variables

The variables of a source: its declarations are wrapped in calls of the export function, the
result is rendered, and the calls are collected with the files that were imported.

* `hook`: what the export function does.
* `extract`: a whole extraction.
-/

namespace Stylesheet
namespace Extraction

/-- Why an extraction fails. -/
inductive Error where
  | parse (e : ParseError)
  | wrap (e : Export.Error)
  | render (e : RenderError)

def Error.message : Error → String
  | parse e => "Failed to parse stylesheet: " ++ e.message
  | wrap e => "Failed to rewrite declarations: " ++ e.message
  | render e => "Failed to render stylesheet: " ++ e.message

/-- The state of an extraction: that of the imports, and the variables so far. -/
structure Collected (σ : Type) where
  imports : Import.Tracked σ
  /-- The variables exported, the latest first. -/
  exported : List Exported

namespace Collected

variable {σ α : Type}

def start (inner : σ) : Collected σ := ⟨.start inner, []⟩

instance [Log.Sink σ] : Log.Sink (Collected σ) :=
  ⟨fun r c => { c with imports := Log.Sink.write r c.imports }⟩

/-- A step of the imports. -/
def lift (step : StateM (Import.Tracked σ) α) : StateM (Collected σ) α := fun c =>
  let (a, imports) := step c.imports
  (a, { c with imports })

/-- What is collected. -/
def extraction (c : Collected σ) : Extraction := ⟨c.exported.reverse, c.imports.dependencies⟩

end Collected

/-- The value that a call of the export function exports: the second argument, or a list of all
after the first. -/
def exportedValue? : List Value → Option (Value × Value)
  | name :: value :: [] => some (name, value)
  | name :: v :: w :: vs => some (name, .list (v :: w :: vs) .comma)
  | _ => none

variable {σ : Type} [Log.Sink σ]

/-- **The export function:** keep the name and the value, and give the value back. -/
def hook : HostFunction (Collected σ) := fun args => do
  match exportedValue? args with
  | none =>
      return .error ("expected a name and a value, got " ++ toString args.length ++ " arguments")
  | some (name, value) =>
      let x : Exported := ⟨.ofValue name, .ofValue value⟩
      if x.name.isUndefined && x.value.isUndefined then
        Log.report .debug .extractor
          ("Dropping export of " ++ name.text ++ " with no plain name or value")
      else modify fun c => { c with exported := x :: c.exported }
      return .ok value

/-- What is reported about a tree that is going to be rendered. -/
def treeRecords (entry : Path) (tree : Node) : List Log.Record :=
  let counts := tree.tally.map fun (k, n) => Text.quoted k.name ++ ": " ++ toString n
  ["Node counts for " ++ entry.quoted ++ ": \x7b" ++ ", ".intercalate counts ++ "\x7d",
    "Rewritten tree:\n" ++ tree.outline, "Rewritten source:\n" ++ tree.print].map
    (⟨.trace, .extractor, ·⟩)

/-- What an extraction asks the engine to render for. -/
def host (function : String) (entry : Path) (read : Path → Except ReadFault String)
    (resolve : Import.Resolver σ) : Host (Collected σ) where
  importer url origin := Collected.lift (Import.importer entry resolve url origin)
  functions := Registry.register .empty function hook
  read

/-- Render a tree and collect what is exported and imported. -/
def collect (engine : Engine (Collected σ)) (entry : Path) (host : Host (Collected σ))
    (tree : Node) : StateM σ (Except Error Extraction) := do
  (treeRecords entry tree).forM fun r => modify (Log.Sink.write r)
  let (result, c) := (engine host tree.print).run (.start (← get))
  set c.imports.inner
  match result with
  | .error e => return .error (.render e)
  | .ok () =>
      let x := c.extraction
      Log.report .info .extractor
        ("Extracted " ++ toString x.exported.length ++ " variables and " ++
          toString x.dependencies.length ++ " dependencies from " ++ entry.quoted)
      return .ok x

/-- **Extract** the variables of a source that stands for the file `entry`. -/
def extract (engine : Engine (Collected σ)) (function : String) (entry : Path)
    (read : Path → Except ReadFault String) (resolve : Import.Resolver σ) (source : String) :
    StateM σ (Except Error Extraction) := do
  match parse source with
  | .error e => return .error (.parse e)
  | .ok tree =>
      let wrapped := Export.wrapDeclarations function tree
      wrapped.records.forM fun r => modify (Log.Sink.write r)
      match wrapped.result with
      | .error e => return .error (.wrap e)
      | .ok _ => collect engine entry (host function entry read resolve) wrapped.tree

end Extraction
end Stylesheet
