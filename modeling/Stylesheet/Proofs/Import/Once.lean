import Stylesheet.Import.Tracked
import Stylesheet.Proofs.Import.Places
import Stylesheet.Proofs.Render.Traced

/-!
# Modules of files are loaded once

Imports that are looked up among files are answered with paths as the requests spell them, and a
module is kept under such a path. So a file is loaded once exactly if the paths of all rules that
ask for it are the same and none of them asks for it while its statements are running.

* `Import.loadedOnce_iff`: which renderings load every file once.
* `Import.loadedOnce_counterexample`: renderings that run a file twice.
-/

namespace Stylesheet

/-- Records are taken by a list of them, the latest first. -/
instance : Log.Sink (List Log.Record) := ⟨List.cons⟩

namespace Import

variable {σ : Type} [Log.Sink σ]

/-- A host that looks imports up among files, for a source that stands for the file `entry`. -/
def fileHost (files : Files) (loadPaths : List Path) (entry : Path)
    (functions : Registry (Tracked σ)) : Host (Tracked σ) where
  importer := importer entry (resolve files loadPaths)
  functions
  read := files.read

theorem importer_isFile {files : Files} {loadPaths : List Path} {entry : Path} {url : String}
    {origin : Origin} {t t' : Tracked σ} {p : Path}
    (h : importer entry (resolve files loadPaths) url origin t = (.ok p, t')) :
    files.isFile p = true := by
  rcases hr : resolve files loadPaths (directory entry origin) (request url) t.inner with ⟨r, g⟩
  unfold importer Tracked.lift at h
  dsimp only [bind, StateT.bind] at h
  rw [hr] at h
  cases r with
  | error reason => cases h
  | ok q =>
    cases h
    exact resolve_isFile hr

theorem finds_file (files : Files) (loadPaths : List Path) (entry : Path)
    (functions : Registry (Tracked σ)) :
    Traced.Finds (fun p => files.isFile p = true) (fileHost files loadPaths entry functions) := by
  intro origin url s p s' h
  obtain ⟨g, himport, -⟩ := Render.run_resolve_eq_ok.1 h
  exact importer_isFile himport

/-- **Which renderings load every file once:** those in which the rules that ask for a file spell
its path alike, and none asks for it while it is running. -/
theorem loadedOnce_iff (limits : Limits) (files : Files) (loadPaths : List Path) (entry : Path)
    (functions : Registry (Tracked σ)) (source : String) {g g' : Tracked σ}
    (h : render limits (fileHost files loadPaths entry functions) source g = (.ok (), g')) :
    ∃ es, Traced.render limits (fileHost files loadPaths entry functions) source ⟨g, []⟩ =
        (.ok (), ⟨g', es⟩) ∧
      (LoadEvent.LoadedOnce files.place? es ↔ LoadEvent.AskedApart files.place? es) := by
  obtain ⟨es, hr, hl, hf⟩ :=
    Traced.render_of_render (finds_file files loadPaths entry functions) h
  refine ⟨es, hr, LoadEvent.loadedOnce_iff_asked hl fun p q hp hq hpq => ?_⟩
  -- equal paths of files lead to the same file
  obtain ⟨a, ha⟩ := Option.isSome_iff_exists.1 (Files.isFile_iff.1 (hf p hp))
  obtain ⟨b, hb⟩ := Option.isSome_iff_exists.1 (Files.isFile_iff.1 (hf q hq))
  rw [ha, hb, Files.place?_eq_of_beq ha hb hpq]

/-! ### Renderings of fixed files -/

/-- Whether a rendering succeeds. -/
def succeeds {τ : Type} (run : Except RenderError Unit × τ) : Bool :=
  match run.1 with
  | .ok () => true
  | .error _ => false

theorem exists_of_succeeds {τ : Type} {run : Except RenderError Unit × τ}
    (h : succeeds run = true) : ∃ t, run = (.ok (), t) := by
  rcases run with ⟨_ | _, t⟩
  · cases h
  · exact ⟨t, rfl⟩

/-- A source is rendered with some files, and all records are kept. -/
def renderFiles (files : Files) (source : String) :
    Except RenderError Unit × Tracked (List Log.Record) :=
  render .standard (fileHost files [] ⟨"./entry.scss"⟩ .empty) source ⟨[], []⟩

/-- The same rendering with its history. -/
def traceFiles (files : Files) (source : String) :
    Except RenderError Unit × Traced LoadEvent (Tracked (List Log.Record)) :=
  Traced.render .standard (fileHost files [] ⟨"./entry.scss"⟩ .empty) source ⟨⟨[], []⟩, []⟩

/-- A file that is reached by one path. -/
def onePath : Files := .ofList [("a.scss", "$x: first !default;".toUTF8)]

def askedTwice : String := "@use \"a\" with ($x: second);\n@forward \"a\";"

theorem loadedOnce_iff_sample : ∃ g es,
    renderFiles onePath askedTwice = (.ok (), g) ∧
      traceFiles onePath askedTwice = (.ok (), ⟨g, es⟩) ∧
      (LoadEvent.LoadedOnce onePath.place? es ↔ LoadEvent.AskedApart onePath.place? es) := by
  have h : succeeds (renderFiles onePath askedTwice) = true := by decide +kernel
  obtain ⟨g, hg⟩ := exists_of_succeeds h
  obtain ⟨es, hes, hiff⟩ := loadedOnce_iff .standard onePath [] ⟨"./entry.scss"⟩ .empty _ hg
  exact ⟨g, es, hg, hes, hiff⟩

/-- A rendering in which the file at a place is opened again does not load every file once. -/
theorem not_loadedOnce {files : Files} {source : String} (names : List (List Char))
    (h : succeeds (renderFiles files source) = true)
    (ho : 1 < LoadEvent.opens files.place? (some names) (traceFiles files source).2.history) :
    ∃ g es, renderFiles files source = (.ok (), g) ∧ traceFiles files source = (.ok (), ⟨g, es⟩) ∧
      ¬ LoadEvent.LoadedOnce files.place? es := by
  obtain ⟨g, hg⟩ := exists_of_succeeds h
  obtain ⟨es, hes, _⟩ := Traced.render_of_render (finds_file files [] ⟨"./entry.scss"⟩ .empty) hg
  refine ⟨g, es, hg, hes, fun hl => ?_⟩
  have hes' : traceFiles files source = (.ok (), ⟨g, es⟩) := hes
  rw [hes'] at ho
  exact absurd (hl.once _) (Nat.not_le.2 ho)

/-- A file that is reached by two paths, one of them through the directory beside it. -/
def twoPaths : Files :=
  .ofList [("a.scss", "$x: first !default;\n@warn loaded;".toUTF8), ("sub/k.scss", "".toUTF8)]

def askedBothWays : String :=
  "@use \"a\" with ($x: second);\n@use \"sub/../a\" as b;\n$y: b.$x;"

/-- A file that asks for itself while it is running, the first time only. -/
def selfAsking : Files := .ofList [("a.scss",
  "$again: true !default;\n@if $again \x7b @use \"a\" as b with ($again: false); \x7d".toUTF8)]

/-- **A file runs twice** when two paths to it are asked for, and when it asks for itself. -/
theorem loadedOnce_counterexample :
    (∃ g es, renderFiles twoPaths askedBothWays = (.ok (), g) ∧
      traceFiles twoPaths askedBothWays = (.ok (), ⟨g, es⟩) ∧
      ¬ LoadEvent.LoadedOnce twoPaths.place? es) ∧
    ∃ g es, renderFiles selfAsking "@use \"a\";" = (.ok (), g) ∧
      traceFiles selfAsking "@use \"a\";" = (.ok (), ⟨g, es⟩) ∧
      ¬ LoadEvent.LoadedOnce selfAsking.place? es := by
  constructor
  · exact not_loadedOnce ["a.scss".toList] (by decide +kernel) (by decide +kernel)
  · exact not_loadedOnce ["a.scss".toList] (by decide +kernel) (by decide +kernel)

end Import
end Stylesheet
