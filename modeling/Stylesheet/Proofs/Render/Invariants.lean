import Stylesheet.Proofs.Render.Forwarding
import Stylesheet.Proofs.Render.JournaledFiles

/-!
# What holds throughout a rendering

A rendering with a journal gives the result of the rendering itself, so what its journal shows holds
at every moment of the rendering: no reference to a module dangles, the limits are kept and nothing
else cuts the rendering off, and no map has two equal keys.

* `Journal.references_hold`: functions and namespaces lead to modules that are loaded.
* `Journal.within_limits`: how deep calls and files lie, and how often the body of a loop runs.
* `Journal.keys_distinct`: maps in the values that are in reach, kept and passed on.
-/

namespace Stylesheet

open Render

variable {σ : Type}

/-! ### References -/

/-- A function that a module does not have is undefined under its namespace. -/
theorem Forwarding.run_memberCall_undefined {s : State σ} {space name : String} {p : Path}
    {m : Module} (hs : StandsFor s space p) (hm : s.modules.find? p = some m)
    (hf : m.functions.find? (.ofString name) = none) (caller : Caller σ)
    (args : Render σ Arguments) :
    (Eval.memberCall caller space name args).run s =
      (.error (.call (Eval.qualified space name) .undefined), s) := by
  unfold Eval.memberCall
  dsimp only
  rw [run_bind, run_namespaceOf hs]
  dsimp only
  rw [run_bind, run_module, hm]
  dsimp only [Option.bind_some]
  rw [hf]
  rfl

/-- **Members are found:** behind every namespace for a stylesheet there is a loaded module. A
variable is looked up among its variables, a function among its functions, and only one that the
module does not have is undefined. -/
def State.MembersFound (s : State σ) : Prop :=
  ∀ space p, Forwarding.StandsFor s space p → ∃ m, s.modules.find? p = some m ∧
    (∀ name, (Eval.memberValue space name).run s =
      match m.bindings.find? (.ofString name) with
      | some v => (.ok v, s)
      | none => (.error (.undefinedVariable (Eval.qualified space name)), s)) ∧
    ∀ caller name args, (Eval.memberCall caller space name args).run s =
      match m.functions.find? (.ofString name) with
      | some f => (args >>= caller (Eval.qualified space name) f).run s
      | none => (.error (.call (Eval.qualified space name) .undefined), s)

theorem State.membersFound {s : State σ} (h : s.sheet.namespaces.Reaches s.modules) :
    s.MembersFound := by
  intro space p hs
  obtain ⟨m, hm⟩ : Loaded s.modules p := Table.All.find? h hs
  refine ⟨m, hm, Forwarding.run_memberValue hs hm, fun caller name args => ?_⟩
  cases hf : m.functions.find? (.ofString name) with
  | some f => exact Forwarding.run_memberCall hs hm hf caller args
  | none => exact Forwarding.run_memberCall_undefined hs hm hf caller args

namespace Journal

variable [Log.Sink σ] (limits : Limits) (h : Host σ) (source : String) (g : σ)

/-- **References hold:** in every state that a rendering passes, every function belongs to the
stylesheet that holds it or to a module that is loaded, and every namespace for a stylesheet leads
to one. That is so for the stylesheets of earlier states as well, among which are all that wait for
a call or a file. So no call misses the module of its function. -/
theorem references_hold :
    ∃ es, render (ample limits) limits h source ⟨g, []⟩ =
        ((Stylesheet.render limits h source g).1, ⟨(Stylesheet.render limits h source g).2, es⟩) ∧
      (∀ sheet modules, Entry.passed sheet modules ∈ es →
        sheet.Reaches modules ∧ modules.All (Module.Reaches modules) ∧
          ∀ g' : σ, State.MembersFound ⟨sheet, modules, g'⟩) ∧
      (∀ later sheet modules earlier, es = later ++ Entry.passed sheet modules :: earlier →
        ∀ sheet' modules', Entry.passed sheet' modules' ∈ earlier → sheet'.Reaches modules) ∧
      ∀ name p,
        (Stylesheet.render limits h source g).1 ≠ .error (.call name (.moduleNotLoaded p)) := by
  obtain ⟨es, hrun, hsound, -, herror⟩ := render_sound Value.closed_true limits h source g 0
  refine ⟨es, hrun, fun sheet modules hmem => ?_, ?_, fun name p he => ?_⟩
  · obtain ⟨hsheet, hmodules⟩ := hsound.reaches _ hmem
    exact ⟨hsheet, hmodules, fun g' => State.membersFound hsheet.namespaces⟩
  · rintro later sheet modules earlier rfl sheet' modules' hmem
    have hpairs := (List.pairwise_append.1 hsound.outlives).2.1
    exact (List.pairwise_cons.1 hpairs).1 _ hmem
  · cases herror _ he

/-! ### Limits -/

/-- **The limits are kept,** and nothing else bounds a rendering: however long a clock runs that
outlasts them, it does not run out, and the result is that of the rendering itself. At no moment are
more calls or more files open than allowed, and no body of a `@for` or `@while` loop runs more often
than allowed. -/
theorem within_limits (n : Nat) :
    ∃ es, render (ample limits + n) limits h source ⟨g, []⟩ =
        ((Stylesheet.render limits h source g).1, ⟨(Stylesheet.render limits h source g).2, es⟩) ∧
      Entry.stopped ∉ es ∧
      (∀ later earlier, es = later ++ earlier →
        depth .call earlier ≤ limits.calls ∧ depth .file earlier ≤ limits.imports) ∧
      ∀ k, Entry.round k ∈ es → k ≤ limits.rounds := by
  obtain ⟨es, hrun, hsound, -, -⟩ := render_sound Value.closed_true limits h source g n
  refine ⟨es, hrun, hsound.runs, ?_, hsound.rounds⟩
  rintro later earlier rfl
  exact hsound.bounded earlier (List.suffix_append later earlier)

end Journal

/-! ### Keys of maps -/

namespace Expr

variable {V : Value → Prop} (host : Host σ) (caller : Caller σ)

/-- All values of an expression belong to a family. -/
def Yields (V : Value → Prop) (e : Expr) : Prop :=
  ∀ s v s', (e.eval host caller).run s = (.ok v, s') → V v

variable {host caller}

/-- **Map literals** of keys and values of a closed family. -/
theorem yields_evalPairs (hV : Value.Closed V) {ps : List (Expr × Expr)}
    (hps : ∀ p ∈ ps, p.1.Yields host caller V ∧ p.2.Yields host caller V)
    {done qs : List (Value × Value)} (hdone : V (.map done)) {s s' : State σ}
    (h : (evalPairs host caller done ps).run s = (.ok qs, s')) : V (.map qs) := by
  induction ps generalizing done s with
  | nil =>
    cases h
    exact hdone
  | cons p ps ih =>
    rw [List.forall_mem_cons] at hps
    obtain ⟨k, s₁, hk, h⟩ := run_bind_eq_ok.1 h
    obtain ⟨v, s₂, hv, h⟩ := run_bind_eq_ok.1 h
    obtain ⟨more, s₃, hadd, h⟩ := run_bind_eq_ok.1 h
    refine ih hps.2 ?_ h
    unfold Eval.addPair at hadd
    split at hadd
    · cases hadd
    · next hfree =>
      cases hadd
      exact hV.addPair hdone (hps.1.1 _ _ _ hk) (hps.1.2 _ _ _ hv) (Bool.eq_false_iff.2 hfree)

theorem yields_map (hV : Value.Closed V) {ps : List (Expr × Expr)}
    (hps : ∀ p ∈ ps, p.1.Yields host caller V ∧ p.2.Yields host caller V) :
    (Expr.map ps).Yields host caller V := by
  intro s v s' h
  obtain ⟨qs, s₁, hqs, hv⟩ := run_bind_eq_ok.1 h
  cases hv
  exact yields_evalPairs hV hps hV.noPairs hqs

end Expr

/-- **Keys of maps are distinct:** if everything that functions of the host return is proper, then
so are all values of variables in reach, of modules that are loaded, and all that are assigned,
bound to parameters, passed to a function or returned by one, at every moment of a rendering. The
functions of a host that makes proper values of proper ones return proper values only. Map literals,
and the functions that merge maps and remove keys, make proper maps of proper values. -/
theorem Journal.keys_distinct [Log.Sink σ] (limits : Limits) (h : Host σ) (source : String)
    (g : σ) :
    (∃ es, render (ample limits) limits h source ⟨g, []⟩ =
        ((Stylesheet.render limits h source g).1, ⟨(Stylesheet.render limits h source g).2, es⟩) ∧
      (Answered Value.Proper es → ∀ e ∈ es, e.Holds Value.Proper) ∧
      (h.Honest Value.Proper → Answered Value.Proper es)) ∧
    (∀ (caller : Caller σ) (ps : List (Expr × Expr)),
      (∀ p ∈ ps, p.1.Yields h caller Value.Proper ∧ p.2.Yields h caller Value.Proper) →
      (Expr.map ps).Yields h caller Value.Proper) ∧
    (∀ args v, (∀ a ∈ args, a.Proper) → Builtin.mapMerge args = .ok v → v.Proper) ∧
    ∀ args v, (∀ a ∈ args, a.Proper) → Builtin.mapRemove args = .ok v → v.Proper := by
  have hproper := Value.closed_proper
  refine ⟨?_, fun caller ps => Expr.yields_map hproper, fun args v hargs hv => ?_,
    fun args v hargs hv => ?_⟩
  · obtain ⟨es, hrun, hsound, hanswered, -⟩ := render_sound hproper limits h source g 0
    exact ⟨es, hrun, hsound.holds, hanswered⟩
  · have hsound := Builtin.keeps_mapMerge hproper args hargs
    rw [hv] at hsound
    exact hsound
  · have hsound := Builtin.keeps_mapRemove hproper args hargs
    rw [hv] at hsound
    exact hsound

end Stylesheet
