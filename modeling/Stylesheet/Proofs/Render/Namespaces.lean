import Stylesheet.Proofs.Import.Once
import Stylesheet.Proofs.Render.Turns

/-!
# The namespaces of functions

A function is kept with the path of the stylesheet that is running when it is declared, and without
its namespaces. So a call resolves names through those of the run to which it goes back. That is the
run that declares the function, unless its file is imported there, or loaded once more.

* `Render.call_namespaces`: the namespaces in force at every moment of every call.
* `Import.resolves_counterexample`: functions that do not resolve names as their own file does.
-/

namespace Stylesheet

open Render

namespace Render

open Turn

variable {σ : Type} [Log.Sink σ] (h : Host σ) (limits : Limits)

/-- **The namespaces of a function,** in every call of every rendering, whether it succeeds or fails.
At each moment of a rendering the namespaces of the run in force are in force. At each moment of a
call that is not one of another call inside it, those of the run are to which the call goes back.
The function was declared by an earlier turn, and its home is the path of the stylesheet that was
running there.

If neither the file that declares it is imported there nor the run of the call is one of an imported
file, and the file was loaded as a module once at most, the call goes back to the run that declares
the function. The namespaces of this run are those of the declaration until a rule loads another
module into it. -/
theorem call_namespaces (source : String) (g : σ) : ∃ es,
    Noted.render Turn.notes limits (Traced.host h) source ⟨g, []⟩ =
      ((Stylesheet.render limits h source g).1, ⟨(Stylesheet.render limits h source g).2, es⟩) ∧
    (∀ inForce ts, passed inForce :: ts <:+ es →
      inForce = (situation ts).own (situation ts).inForce.number) ∧
    ∀ inForce us f ts, passed inForce :: (us ++ calls f :: ts) <:+ es → Closed us →
      let now := us ++ calls f :: ts
      let run := (situation ts).home f
      inForce = (situation now).own run.number ∧
      (∃ ds, Declared ts f ds) ∧
      ∀ ds, Declared ts f ds →
        let declaring := (situation ds).inForce
        (declaring.imported = false → run.imported = false →
          (∀ p, f.home = some p → openings p ts ≤ 1) → run.number = declaring.number) ∧
        (Settled declaring.number ds now →
          (situation now).own declaring.number = (situation ds).own declaring.number) := by
  obtain ⟨es, s', hrun, hran⟩ := Accounts.render (Turn.ledger.ran .top)
    (fun body => Turn.calling.runFile h limits limits.imports .entry body) source g
  -- before the first turn nothing is in reach
  have hstart : Fits [] (entryState g) := {
    sheet := ⟨rfl, rfl, Table.all_empty, fun _ _ => rfl, nofun⟩
    modules := ⟨fun _ => rfl, Table.all_empty, nofun⟩
    sound := fun e us hus => nomatch List.suffix_nil.1 hus }
  obtain ⟨hfits, -, -⟩ := hran.fits [] hstart fun _ _ _ _ _ => nofun
  have hsound : Sound es := List.append_nil es ▸ hfits.sound
  have hpassed (inForce : Namespaces) (ts : List Turn) (hmoment : passed inForce :: ts <:+ es) :
      inForce = (situation ts).own (situation ts).inForce.number := hsound _ _ hmoment
  refine ⟨es, hrun, hpassed, fun inForce us f ts hmoment hclosed => ?_⟩
  have hcall : calls f :: ts <:+ es :=
    (List.suffix_append us _).trans ((List.suffix_cons _ _).trans hmoment)
  obtain ⟨hreach, hproper⟩ := hsound _ _ hcall
  -- the call has left again whatever it entered, so the run it goes back to is in force
  refine ⟨?_, hreach.declared, fun ds hd => ⟨fun hdi hci hone => ?_, fun hsettled => ?_⟩⟩
  · have hnow := hpassed inForce _ hmoment
    rwa [hclosed.inForce_eq] at hnow
  · have hdeclares : declares f.parameters f.body :: ds <:+ es :=
      hd.declares.trans ((List.suffix_cons _ ts).trans hcall)
    exact number_home hd hreach (hsound _ _ hdeclares) hproper hdi hci hone
  · refine hsettled.own_eq ((List.suffix_cons _ ds).trans (hd.declares.trans ?_))
    exact (List.suffix_cons _ ts).trans (List.suffix_append us _)

end Render

namespace Import

/-! ### Functions that go elsewhere -/

/-- The message of a rendering that fails. -/
def failure? {τ : Type} (run : Except RenderError Unit × τ) : Option String :=
  match run.1 with
  | .ok () => none
  | .error e => some e.message

/-- A file declares a function that asks for a variable by a namespace. -/
def askingFiles : Files := .ofList [
  ("a.scss", "$v: first;".toUTF8), ("b.scss", "$v: second;".toUTF8),
  ("f.scss", "@use \"b\" as m;\n@function f() \x7b @return m.$v; \x7d".toUTF8)]

/-- A file loads itself once more, and another module takes its function in between. -/
def againFiles : Files := .ofList [
  ("a.scss", "$v: first;".toUTF8), ("b.scss", "$v: second;".toUTF8),
  ("f.scss", ("$again: true !default;\n" ++
    "@if $again \x7b @use \"f\" as g with ($again: false); @use \"k\"; @use \"a\" as m; \x7d " ++
    "@else \x7b @use \"b\" as m; \x7d\n@function f() \x7b @return m.$v; \x7d").toUTF8),
  ("k.scss", "@use \"f\" as *;\n$x: f();".toUTF8)]

/-- **A function resolves names as the importing file does** behind an import of its file, and as
its own file does if that is used: it finds another variable, or none. If its file is loaded once
more meanwhile, one function finds one variable first and another one later. -/
theorem resolves_counterexample :
    failure? (renderFiles askingFiles "@use \"f\";\n@error f.f();") = some "@error: second" ∧
    failure? (renderFiles askingFiles "@use \"a\" as m;\n@import \"f\";\n@error f();") =
      some "@error: first" ∧
    failure? (renderFiles askingFiles "@import \"f\";\n@error f();") =
      some "There is no module with the namespace \"m\"." ∧
    failure? (renderFiles againFiles "@use \"f\";\n@use \"k\";\n@error k.$x k.f();") =
      some "@error: second first" := by
  refine ⟨?_, ?_, ?_, ?_⟩
  · decide +kernel
  · decide +kernel
  · decide +kernel
  · decide +kernel

end Import
end Stylesheet
