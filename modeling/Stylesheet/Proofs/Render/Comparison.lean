import Stylesheet.Proofs.Render.Concord

/-!
# Comparing renderings

Two hosts may render the same statements. A comparison is a concord of their steps that is also
closed under every change of the stylesheet that is running. Whatever compares the parts of a
rendering then compares all of it.

* `Comparison`: what a comparison has to bring along.
* `Comparison.eval`: an expression that calls only allowed functions compares with itself.
-/

namespace Stylesheet
namespace Render

/-- **A comparison** of steps for two hosts. A step that is compared with a property of its result
has a result with this property on both sides. -/
structure Comparison (σ τ : Type) [Log.Sink σ] [Log.Sink τ] where
  /-- The names of the functions that may be called. -/
  ok : Name → Prop
  Rel {α : Type} : (α → Prop) → Render σ α → Render τ α → Prop
  weaken {α : Type} {P Q : α → Prop} {act : Render σ α} {act' : Render τ α} :
    Rel P act act' → (∀ a, P a → Q a) → Rel Q act act'
  ret {α : Type} {Q : α → Prop} {a : α} : Q a → Rel Q (Pure.pure a) (Pure.pure a)
  fail {α : Type} {Q : α → Prop} (e : RenderError) :
    Rel Q (MonadExcept.throw e) (MonadExcept.throw e)
  seq {α β : Type} {P : α → Prop} {Q : β → Prop} {act : Render σ α} {act' : Render τ α}
    {next : α → Render σ β} {next' : α → Render τ β} :
    Rel P act act' → (∀ a, P a → Rel Q (next a) (next' a)) → Rel Q (act >>= next) (act' >>= next')
  sheet : Rel (Sheet.CallsOnly ok) Render.sheet Render.sheet
  module? (p : Path) : Rel (fun m => ∀ m' ∈ m, Module.CallsOnly ok m') (Render.module? p)
    (Render.module? p)
  modifySheet {f : Sheet → Sheet} : (∀ s, s.CallsOnly ok → (f s).CallsOnly ok) →
    Rel (fun _ => True) (Render.modifySheet f) (Render.modifySheet f)
  around {α : Type} {Q : α → Prop} {act : Render σ α} {act' : Render τ α} {enter : Sheet → Sheet}
    {leave : Sheet → Sheet → Sheet} :
    (∀ s, s.CallsOnly ok → (enter s).CallsOnly ok) →
    (∀ s s', s.CallsOnly ok → s'.CallsOnly ok → (leave s s').CallsOnly ok) →
    Rel Q act act' → Rel Q (Render.around act enter leave) (Render.around act' enter leave)
  report (level : Log.Level) (text : String) :
    Rel (fun _ => True) (Render.report level text) (Render.report level text)

namespace Comparison

variable {σ τ : Type} [Log.Sink σ] [Log.Sink τ] (C : Comparison σ τ) {α β : Type}

/-- A comparison is a concord. -/
abbrev concord : Concord σ τ :=
  ⟨C.ok, (·.CallsOnly C.ok), C.Rel, C.weaken, C.ret, C.fail, C.seq, C.sheet, C.module?⟩

/-- Two steps go together. -/
abbrev Same (act : Render σ α) (act' : Render τ α) : Prop := C.Rel (fun _ => True) act act'

/-- The functions of the hosts that may be called go together. -/
def Answers (host : Host σ) (host' : Host τ) : Prop := ∀ name, C.ok (.ofString name) →
  (host.functions.function? name = none ∧ host'.functions.function? name = none) ∨
    ∃ f f', host.functions.function? name = some f ∧ host'.functions.function? name = some f' ∧
      ∀ args, C.Same (ofHost (f args)) (ofHost (f' args))

/-- Calls of functions that call only what may be called go together. -/
def Callers (caller : Caller σ) (caller' : Caller τ) : Prop :=
  ∀ name (f : UserFunction) args, f.CallsOnly C.ok →
    C.Same (caller name f args) (caller' name f args)

variable {C}

theorem Rel.same {Q : α → Prop} {act : Render σ α} {act' : Render τ α} (h : C.Rel Q act act') :
    C.Same act act' := C.weaken h fun _ _ => trivial

theorem same_ret (a : α) : C.Same (pure a) (pure a) := C.ret trivial

/-- A step goes with itself if everything behind its first part does. -/
theorem Same.seq {Q : β → Prop} {act : Render σ α} {act' : Render τ α} {next : α → Render σ β}
    {next' : α → Render τ β} (h : C.Same act act') (hn : ∀ a, C.Rel Q (next a) (next' a)) :
    C.Rel Q (act >>= next) (act' >>= next') := C.seq h fun a _ => hn a

theorem modifyScopes (f : Scopes → Scopes) : C.Same (modifyScopes f) (modifyScopes f) :=
  C.modifySheet fun _ h => h

theorem inScope {Q : α → Prop} {act : Render σ α} {act' : Render τ α} (scope : Scope)
    (h : C.Rel Q act act') : C.Rel Q (inScope scope act) (inScope scope act') :=
  C.around (fun _ hs => hs) (fun _ _ _ hs => hs) h

theorem inFrame {Q : α → Prop} {act : Render σ α} {act' : Render τ α} (h : C.Rel Q act act') :
    C.Rel Q (inFrame act) (inFrame act') := by
  unfold Render.inFrame
  exact C.around (fun _ hs => hs) (fun _ _ _ hs => hs) h

theorem inSheet {Q : α → Prop} {act : Render σ α} {act' : Render τ α} {other : Sheet}
    (ho : other.CallsOnly C.ok) (h : C.Rel Q act act') :
    C.Rel Q (inSheet other act) (inSheet other act') :=
  C.around (fun _ _ => ho) (fun _ _ hs _ => hs) h

/-! ### Expressions -/

variable {host : Host σ} {host' : Host τ} {caller : Caller σ} {caller' : Caller τ}

/-- **An expression** that calls only what may be called compares with itself. -/
theorem eval (hh : C.Answers host host') (hc : C.Callers caller caller')
    (e : Expr) (he : ∀ n ∈ e.calls, C.ok n) :
    C.Same (e.eval host caller) (e.eval host' caller') :=
  Concord.eval (C := C.concord) hh hc e he

theorem evalAll (hh : C.Answers host host') (hc : C.Callers caller caller')
    (es : List Expr) (hes : ∀ n ∈ Expr.callsOfAll es, C.ok n) :
    C.Same (Expr.evalAll host caller es) (Expr.evalAll host' caller' es) :=
  Concord.evalAll (C := C.concord) hh hc es hes

end Comparison
end Render
end Stylesheet
