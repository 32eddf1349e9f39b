import Stylesheet.Proofs.Render.Simulation

/-!
# Calls under another name

The name by which a function is called is only told to errors. Under another name a call does the
same: it ends in the same state with the same value, or both calls are refused for the same reason.

* `Render.UpTo`: outcomes that are the same up to their errors.
* `Render.Renamed`: outcomes that differ in that name.
* `Render.callAt_renamed`: a call under two names.
-/

namespace Stylesheet
namespace Render

variable {σ α β : Type}

/-- **Outcomes that are the same up to their errors:** both are the same, or errors that correspond
to each other. -/
structure UpTo (E : RenderError → RenderError → Prop) (r r' : Except RenderError α × State σ) :
    Prop where
  state : r'.2 = r.2
  result : r'.1 = r.1 ∨ ∃ e e', r.1 = .error e ∧ r'.1 = .error e' ∧ E e e'

/-- Two steps whose outcomes are the same up to their errors. -/
def StepsUpTo (E : RenderError → RenderError → Prop) (act act' : Render σ α) : Prop :=
  ∀ s, UpTo E (act.run s) (act'.run s)

section

variable {E : RenderError → RenderError → Prop}

theorem UpTo.refl (r : Except RenderError α × State σ) : UpTo E r r := ⟨rfl, .inl rfl⟩

theorem UpTo.mono {E' : RenderError → RenderError → Prop} {r r' : Except RenderError α × State σ}
    (h : UpTo E r r') (hE : ∀ e e', E e e' → E' e e') : UpTo E' r r' := by
  refine ⟨h.state, h.result.imp_right ?_⟩
  rintro ⟨e, e', hr, hr', he⟩
  exact ⟨e, e', hr, hr', hE e e' he⟩

theorem StepsUpTo.refl (act : Render σ α) : StepsUpTo E act act := fun _ => .refl _

theorem StepsUpTo.fail {e e' : RenderError} (h : E e e') :
    StepsUpTo (σ := σ) (α := α) E (throw e) (throw e') :=
  fun _ => ⟨rfl, .inr ⟨e, e', rfl, rfl, h⟩⟩

theorem StepsUpTo.seq {act act' : Render σ α} {next next' : α → Render σ β}
    (h : StepsUpTo E act act') (hn : ∀ a, StepsUpTo E (next a) (next' a)) :
    StepsUpTo E (act >>= next) (act' >>= next') := by
  intro s
  obtain ⟨hstate, hresult⟩ := h s
  rw [run_bind, run_bind]
  rcases hs : act.run s with ⟨r, t⟩
  rcases hs' : act'.run s with ⟨r', t'⟩
  rw [hs, hs'] at hstate hresult
  obtain rfl : t' = t := hstate
  rcases hresult with hr | ⟨e, e', hr, hr', he⟩
  · obtain rfl : r' = r := hr
    cases r' with
    | error e => exact .refl _
    | ok a => exact hn a t'
  · obtain rfl : r = _ := hr
    obtain rfl : r' = _ := hr'
    exact ⟨rfl, .inr ⟨e, e', rfl, rfl, he⟩⟩

/-- Behind the same step. -/
theorem StepsUpTo.after (act : Render σ α) {next next' : α → Render σ β}
    (hn : ∀ a, StepsUpTo E (next a) (next' a)) : StepsUpTo E (act >>= next) (act >>= next') :=
  .seq (.refl act) hn

end

/-! ### Names of functions -/

/-- **Outcomes that differ in the name of a function:** they are the same, or both are errors of a
call, for the same reason. -/
structure Renamed (name name' : String) (r r' : Except RenderError α × State σ) : Prop where
  state : r'.2 = r.2
  result : r'.1 = r.1 ∨
    ∃ reason, r.1 = .error (.call name reason) ∧ r'.1 = .error (.call name' reason)

/-- Errors of calls for the same reason, whatever the functions are called. -/
def SameReason (name name' : String) (e e' : RenderError) : Prop :=
  ∃ reason, e = .call name reason ∧ e' = .call name' reason

theorem renamed_iff {name name' : String} {r r' : Except RenderError α × State σ} :
    Renamed name name' r r' ↔ UpTo (SameReason name name') r r' := by
  constructor
  · rintro ⟨hstate, hresult⟩
    refine ⟨hstate, hresult.imp_right ?_⟩
    rintro ⟨reason, hr, hr'⟩
    exact ⟨_, _, hr, hr', reason, rfl, rfl⟩
  · rintro ⟨hstate, hresult⟩
    refine ⟨hstate, hresult.imp_right ?_⟩
    rintro ⟨e, e', hr, hr', reason, rfl, rfl⟩
    exact ⟨reason, hr, hr'⟩

theorem Renamed.refl (name name' : String) (r : Except RenderError α × State σ) :
    Renamed name name' r r := ⟨rfl, .inl rfl⟩

/-- Two steps whose outcomes differ in the name of a function. -/
def RenamedSteps (name name' : String) (act act' : Render σ α) : Prop :=
  ∀ s, Renamed name name' (act.run s) (act'.run s)

variable {name name' : String}

theorem RenamedSteps.refl (act : Render σ α) : RenamedSteps name name' act act :=
  fun _ => .refl _ _ _

theorem RenamedSteps.fail (reason : CallFault) :
    RenamedSteps (σ := σ) (α := α) name name' (throw (.call name reason))
      (throw (.call name' reason)) :=
  fun _ => ⟨rfl, .inr ⟨reason, rfl, rfl⟩⟩

theorem RenamedSteps.seq {act act' : Render σ α} {next next' : α → Render σ β}
    (h : RenamedSteps name name' act act') (hn : ∀ a, RenamedSteps name name' (next a) (next' a)) :
    RenamedSteps name name' (act >>= next) (act' >>= next') := fun s =>
  renamed_iff.2 (StepsUpTo.seq (fun t => renamed_iff.1 (h t)) (fun a t => renamed_iff.1 (hn a t)) s)

/-- Behind the same step. -/
theorem RenamedSteps.behind (act : Render σ α) {next next' : α → Render σ β}
    (hn : ∀ a, RenamedSteps name name' (next a) (next' a)) :
    RenamedSteps name name' (act >>= next) (act >>= next') := .seq (.refl act) hn

theorem RenamedSteps.around {act act' : Render σ α} (h : RenamedSteps name name' act act')
    (enter : Sheet → Sheet) (leave : Sheet → Sheet → Sheet) :
    RenamedSteps name name' (Render.around act enter leave)
      (Render.around act' enter leave) := by
  intro s
  obtain ⟨hstate, hresult⟩ := h { s with sheet := enter s.sheet }
  rw [run_around, run_around]
  exact ⟨by rw [hstate], hresult⟩

theorem inFrame_renamed {act act' : Render σ α} (h : RenamedSteps name name' act act') :
    RenamedSteps name name' (inFrame act) (inFrame act') := by
  unfold inFrame
  exact h.around _ _

theorem atHome_renamed (f : UserFunction) {act act' : Render σ α}
    (h : RenamedSteps name name' act act') :
    RenamedSteps name name' (atHome name f act) (atHome name' f act') := by
  unfold atHome
  cases f.home with
  | none => exact inFrame_renamed h
  | some p =>
    refine .behind _ fun sheet => ?_
    split
    · exact inFrame_renamed h
    · refine .behind _ fun m => ?_
      cases m with
      | some m => exact (inFrame_renamed h).around _ _
      | none => exact .fail _

theorem bind_renamed (default : Expr → Render σ Value) (count : Nat) (ps : List Parameter)
    (args : Arguments) :
    RenamedSteps name name' (Eval.bind default name count ps args)
      (Eval.bind default name' count ps args) := by
  induction ps generalizing args with
  | nil =>
    obtain ⟨positional, named⟩ := args
    rcases positional with _ | ⟨v, vs⟩
    · rcases named with _ | ⟨k, ks⟩
      · exact .refl _
      · exact .fail _
    · exact .fail _
  | cons p ps ih =>
    unfold Eval.bind
    dsimp only
    split
    · exact .behind _ fun _ => ih _
    · cases args.positional with
      | cons v vs => exact .behind _ fun _ => ih _
      | nil =>
        cases Eval.takeNamed (Name.ofString p.name) args.named with
        | some vn => exact .behind _ fun _ => ih _
        | none =>
          cases p.default with
          | none => exact .fail _
          | some e => exact .behind _ fun v => .behind _ fun _ => ih _

variable [Log.Sink σ] (host : Host σ) (limits : Limits) (f : UserFunction) (args : Arguments)

/-- **A call under two names.** -/
theorem callAt_renamed (name name' : String) (n : Nat) :
    RenamedSteps name name' (callAt host limits n name f args)
      (callAt host limits n name' f args) := by
  cases n with
  | zero => exact .fail _
  | succ n =>
    unfold callAt invoke
    -- the body does not know the name, only binding the arguments does
    have hbody : RenamedSteps name name' _ _ :=
      RenamedSteps.seq (bind_renamed (·.eval host (callAt host limits n)) f.parameters.length
        f.parameters args) fun _ => .refl (Stmt.execAll host limits (callAt host limits n)
          .function f.body)
    refine .seq (atHome_renamed f hbody) fun result => ?_
    cases result with
    | some v => exact .refl _
    | none => exact .fail _

end Render
end Stylesheet
