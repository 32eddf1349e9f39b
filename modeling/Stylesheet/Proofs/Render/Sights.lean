import Stylesheet.Proofs.Render.Files
import Stylesheet.Proofs.Render.History

/-!
# What is seen of a rendering

The imports that a rendering asks for and the states that it passes, in their order: the stylesheet
that is running, with all variables in reach, and the modules, before and behind every statement
at whatever depth it stands.

* `sights`: all that is seen of a rendering.
* `Sight.render_eq`: a rendering that is seen is the rendering itself.
-/

namespace Stylesheet

open Render

/-- What is seen of a rendering. -/
inductive Sight where
  /-- An import is asked for. -/
  | asked (url : String) (origin : Origin)
  /-- A statement starts or ends. -/
  | passed (sheet : Sheet) (modules : Table Path Module)

namespace Sight

variable {σ : Type}

/-- The same host, which notes every import that it is asked for. -/
def host (h : Host σ) : Host (Traced Sight σ) :=
  { Traced.host h with
    importer := fun url origin => do
      modify fun t => { t with history := asked url origin :: t.history }
      Traced.lift (h.importer url origin) }

theorem importer_host (h : Host σ) (url : String) (origin : Origin) (t : Traced Sight σ) :
    (host h).importer url origin t =
      ((h.importer url origin t.inner).1,
        ⟨(h.importer url origin t.inner).2, asked url origin :: t.history⟩) := rfl

/-- Note the state that is passed. -/
def look : Render (Traced Sight σ) Unit := do
  let s ← get
  Traced.note (passed s.sheet s.modules)

/-- The state is looked at before and behind every statement. -/
def notes : Notes (Traced Sight σ) where
  before := look
  behind := look

variable [Log.Sink σ]

/-- The statements of the source that is rendered, with all that is seen of them. -/
abbrev entry (limits : Limits) (h : Host σ) (ss : List Stmt) :
    Render (Traced Sight σ) (Option Value) := Noted.entry notes (host h) limits ss

/-- The value of an expression at the top of the source, with all that is seen meanwhile. -/
abbrev value (limits : Limits) (h : Host σ) (e : Expr) : Render (Traced Sight σ) Value :=
  Noted.value notes (host h) limits e

/-- A rendering with all that is seen of it. -/
def render (limits : Limits) (h : Host σ) (source : String) :
    StateM (Traced Sight σ) (Except RenderError Unit) :=
  Noted.render notes limits (host h) source

end Sight

/-- **All that is seen of a rendering**, in order. -/
def sights {σ : Type} [Log.Sink σ] (limits : Limits) (h : Host σ) (source : String) (g : σ) :
    List Sight := (Sight.render limits h source ⟨g, []⟩).2.history.reverse

namespace Sight

variable {σ : Type} [Log.Sink σ] (h : Host σ) (limits : Limits)

theorem forgets_look : (Traced.forgetting (σ := σ)).Same (pure ()) look :=
  fun s es => ⟨⟨passed s.sheet s.modules :: es, rfl⟩, fun _ _ => trivial⟩

theorem forgets_notes : (Traced.forgetting (σ := σ)).Filing .none notes :=
  Comparison.filing_looks forgets_look forgets_look _ _

/-- What is seen goes together with what is seen by another host if every look does. -/
theorem filing_notes {τ : Type} [Log.Sink τ] {C : Comparison (Traced Sight σ) (Traced Sight τ)}
    (hl : C.Same look look) : C.Filing notes notes := Comparison.filing_looks hl hl _ _

theorem forgets_hosts : (Traced.forgetting (ε := Sight)).Hosts h (host h) where
  answers := Traced.forgets_answers h
  read := rfl
  resolve origin url := by
    have import_ : (Traced.forgetting (ε := Sight)).Same (ofHost (h.importer url origin))
        (ofHost ((host h).importer url origin)) :=
      fun _ es => ⟨⟨asked url origin :: es, rfl⟩, fun _ _ => trivial⟩
    refine import_.seq fun r => ?_
    cases r with
    | ok p => exact Traced.forgetting.ret fun _ _ _ _ _ _ => trivial
    | error message => exact Traced.forgetting.fail _

theorem forgets_finders : (Traced.forgetting (ε := Sight)).Finders .none notes h (host h) :=
  (forgets_hosts h).finders fun _ => Comparison.same_ret ()

omit [Log.Sink σ] in
theorem declared_notes {host : Host (Traced Sight σ)} {caller : Caller (Traced Sight σ)}
    (isGlobal : Bool) : Noted.declared notes host caller isGlobal = (·.eval host caller) :=
  Noted.declared_none host caller isGlobal

/-- The statements of the source that is rendered go together with themselves and what is seen. -/
theorem forgets_entry (body : List Stmt) :
    Traced.Forgets (· = none) (Render.entry h limits body) (entry limits h body) := by
  rw [← Noted.entry_none]
  exact Comparison.entry limits forgets_notes (forgets_finders h) Traced.forgets_keep
    fun _ _ => trivial

/-- So do the expressions. -/
theorem forgets_value (e : Expr) :
    Traced.Forgets (fun _ => True) (Render.value h limits e) (value limits h e) := by
  rw [← Noted.value_none]
  exact Comparison.eval (forgets_hosts h).answers
    (Comparison.callAt limits forgets_notes.toNoting (forgets_hosts h).answers _) e
      fun _ _ => trivial

/-- **Looking changes nothing.** -/
theorem render_eq (source : String) (g : σ) :
    ∃ es, render limits h source ⟨g, []⟩ =
      ((Stylesheet.render limits h source g).1, ⟨(Stylesheet.render limits h source g).2, es⟩) := by
  unfold render Noted.render Stylesheet.render
  cases hp : parse source with
  | error e =>
    unfold renderBy
    rw [hp]
    exact ⟨[], rfl⟩
  | ok tree =>
    have hrun : Traced.Forgets (fun _ => True)
        (Render.runFile h limits limits.imports .entry (Stmt.ofTree tree))
        (Noted.runFile notes (host h) limits limits.imports .entry (Stmt.ofTree tree)) := by
      rw [← Noted.runFile_none]
      exact Comparison.runFile limits forgets_notes (forgets_finders h) Traced.forgets_keep _ _ _
        fun _ _ => trivial
    obtain ⟨es, hes⟩ := hrun.run (s := entryState g) [] rfl
    rw [renderBy_of_parse _ hp, renderBy_of_parse _ hp]
    exact ⟨es, congrArg (fun r => (r.1, r.2.host)) hes⟩

end Sight
end Stylesheet
