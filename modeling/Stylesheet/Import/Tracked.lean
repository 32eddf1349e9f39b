import Stylesheet.Import.Lookup
import Stylesheet.Import.Request
import Stylesheet.Render.State

/-!
# Tracked imports

An importer that asks a resolver: the URL of an import becomes a request from the directory of the
file that imports it, and every file that the resolver finds is kept as a dependency.

* `Tracked`: the state of the resolver, and the dependencies so far.
* `importer`: the importer of a source.
-/

namespace Stylesheet
namespace Import

/-- The state of a resolver with the files that it found. -/
structure Tracked (σ : Type) where
  inner : σ
  /-- The files found, the latest first. -/
  found : List Path

namespace Tracked

variable {σ α : Type}

def start (inner : σ) : Tracked σ := ⟨inner, []⟩

/-- The files found in the order in which they were. -/
def dependencies (t : Tracked σ) : List Path := t.found.reverse

instance [Log.Sink σ] : Log.Sink (Tracked σ) := ⟨fun r t => { t with inner := Log.Sink.write r t.inner }⟩

/-- A step of the resolver. -/
def lift (step : StateM σ α) : StateM (Tracked σ) α := fun t =>
  let (a, inner) := step t.inner
  (a, { t with inner })

end Tracked

/-- The directory in which an import starts. -/
def directory (base : Path) (origin : Origin) : Path :=
  let file := match origin with
    | .entry => base
    | .file p => p
  file.parent?.getD ⟨""⟩

variable {σ : Type} [Log.Sink σ]

/-- The importer of a source that stands for the file `base`. -/
def importer (base : Path) (resolve : Resolver σ) : Importer (Tracked σ) := fun url origin => do
  let dir := directory base origin
  match ← Tracked.lift (resolve dir (request url)) with
  | .error reason => return .error reason
  | .ok file =>
      Log.report .debug .importer
        ("Resolved import " ++ url ++ " from " ++ dir.quoted ++ " to " ++ file.quoted)
      modify fun t => { t with found := file :: t.found }
      return .ok file

end Import
end Stylesheet
