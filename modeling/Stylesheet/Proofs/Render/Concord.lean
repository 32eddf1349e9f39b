import Stylesheet.Proofs.Render.Calls
import Stylesheet.Render.Load
import Stylesheet.Render.Loops

/-!
# Steps in concord

Two hosts may render the same expressions. A concord says of a step for the one host and a step for
the other that they go together; it is closed under results, errors, sequences and looks at the
state. Whatever is made of such steps goes together then, however the state is changed by others.

* `Concord`: what a concord has to bring along.
* `Concord.eval`: an expression that calls only allowed functions goes together with itself.
* `Concord.forEach`, `Concord.count`, `Concord.whileHolds`: loops whose bodies go together.
-/

namespace Stylesheet
namespace Render

/-- **A concord** of steps for two hosts. A step that goes together with another one with a property
of its result has a result with this property on both sides. -/
structure Concord (σ τ : Type) where
  /-- The names of the functions that may be called. -/
  ok : Name → Prop
  /-- What is known of the functions of stylesheets that are called. -/
  Known : UserFunction → Prop
  Rel {α : Type} : (α → Prop) → Render σ α → Render τ α → Prop
  weaken {α : Type} {P Q : α → Prop} {act : Render σ α} {act' : Render τ α} :
    Rel P act act' → (∀ a, P a → Q a) → Rel Q act act'
  ret {α : Type} {Q : α → Prop} {a : α} : Q a → Rel Q (Pure.pure a) (Pure.pure a)
  fail {α : Type} {Q : α → Prop} (e : RenderError) :
    Rel Q (MonadExcept.throw e) (MonadExcept.throw e)
  seq {α β : Type} {P : α → Prop} {Q : β → Prop} {act : Render σ α} {act' : Render τ α}
    {next : α → Render σ β} {next' : α → Render τ β} :
    Rel P act act' → (∀ a, P a → Rel Q (next a) (next' a)) → Rel Q (act >>= next) (act' >>= next')
  sheet : Rel (fun s => s.functions.All Known) Render.sheet Render.sheet
  module? (p : Path) : Rel (fun m => ∀ m' ∈ m, m'.functions.All Known) (Render.module? p)
    (Render.module? p)

namespace Concord

variable {σ τ : Type} (C : Concord σ τ) {α β : Type}

/-- Two steps go together. -/
abbrev Same (act : Render σ α) (act' : Render τ α) : Prop := C.Rel (fun _ => True) act act'

/-- The functions of the hosts that may be called go together. -/
def Answers (host : Host σ) (host' : Host τ) : Prop := ∀ name, C.ok (.ofString name) →
  (host.functions.function? name = none ∧ host'.functions.function? name = none) ∨
    ∃ f f', host.functions.function? name = some f ∧ host'.functions.function? name = some f' ∧
      ∀ args, C.Same (ofHost (f args)) (ofHost (f' args))

/-- Calls of functions go together if what is known of these functions is true. -/
def Callers (caller : Caller σ) (caller' : Caller τ) : Prop :=
  ∀ name (f : UserFunction) args, C.Known f →
    C.Same (caller name f args) (caller' name f args)

theorem same {Q : α → Prop} {act : Render σ α} {act' : Render τ α} (h : C.Rel Q act act') :
    C.Same act act' := C.weaken h fun _ _ => trivial

theorem same_ret (a : α) : C.Same (pure a) (pure a) := C.ret trivial

/-- Sequences go together whatever the result of the first part is. -/
theorem andThen {P : α → Prop} {Q : β → Prop} {act : Render σ α} {act' : Render τ α}
    {next : α → Render σ β} {next' : α → Render τ β} (h : C.Rel P act act')
    (hn : ∀ a, C.Rel Q (next a) (next' a)) : C.Rel Q (act >>= next) (act' >>= next') :=
  C.seq h fun a _ => hn a

theorem ofFault (r : Except Fault α) : C.Rel (fun a => r = .ok a) (ofFault r) (ofFault r) := by
  cases r with
  | ok a => exact C.ret rfl
  | error f => exact C.fail _

theorem ofExcept (r : Except RenderError α) : C.Same (ofExcept r) (ofExcept r) := by
  cases r with
  | ok a => exact C.same_ret a
  | error e => exact C.fail e

/-! ### Variables and calls -/

theorem valueOf (name : String) : C.Same (Eval.valueOf name) (Eval.valueOf name) := by
  unfold Eval.valueOf
  refine C.seq C.sheet fun sheet _ => ?_
  dsimp only
  cases sheet.scopes.find? (.ofString name) with
  | some v => exact C.same_ret v
  | none =>
    cases sheet.namespaces.flat.findSome? (·.constant? (Name.ofString name).text) with
    | some v => exact C.same_ret v
    | none => exact C.fail _

theorem namespaceOf (space : String) :
    C.Same (Eval.namespaceOf space) (Eval.namespaceOf space) := by
  unfold Eval.namespaceOf
  refine C.seq C.sheet fun sheet _ => ?_
  cases sheet.namespaces.named.find? (.ofString space) with
  | some n => exact C.same_ret n
  | none => exact C.fail _

theorem memberValue (space name : String) :
    C.Same (Eval.memberValue space name) (Eval.memberValue space name) := by
  unfold Eval.memberValue
  refine C.andThen (C.namespaceOf space) fun n => ?_
  cases n with
  | library l =>
    refine C.andThen (C.same_ret _) fun v => ?_
    cases v with
    | some v => exact C.same_ret v
    | none => exact C.fail _
  | module p =>
    refine C.andThen (C.module? p) fun m => C.andThen (C.same_ret _) fun v => ?_
    cases v with
    | some v => exact C.same_ret v
    | none => exact C.fail _

theorem positional (function : String) (args : Arguments) :
    C.Same (Eval.positional function args) (Eval.positional function args) := by
  unfold Eval.positional
  cases args.named with
  | nil => exact C.same_ret _
  | cons k ks => exact C.fail _

theorem library (name : String) (args : List Value) :
    C.Same (Eval.library name args) (Eval.library name args) := by
  unfold Eval.library
  refine C.seq C.sheet fun sheet _ => ?_
  dsimp only
  cases Eval.existence? sheet.scopes (Name.ofString name).text with
  | some exists? =>
    match args with
    | [] => exact C.fail _
    | [v] => exact C.same_ret _
    | _ :: _ :: _ => exact C.fail _
  | none =>
    cases Builtin.call? (Name.ofString name).text args with
    | some result => exact C.ofExcept result
    | none =>
      cases sheet.namespaces.flat.findSome? (·.call? (Name.ofString name).text args) with
      | some result => exact C.ofExcept result
      | none => exact C.same_ret _

section

variable {C} {host : Host σ} {host' : Host τ} {caller : Caller σ} {caller' : Caller τ}

theorem call (hosts : C.Answers host host') (callers : C.Callers caller caller') {name : String}
    (hname : C.ok (.ofString name)) (printed : String) {args : Render σ Arguments}
    {args' : Render τ Arguments} (hargs : C.Same args args') :
    C.Same (Eval.call host caller name printed args)
      (Eval.call host' caller' name printed args') := by
  unfold Eval.call
  rcases hosts name hname with ⟨h, h'⟩ | ⟨f, f', h, h', hf⟩
  · rw [h, h']
    refine C.seq C.sheet fun sheet hsheet => ?_
    cases hfind : sheet.functions.find? (.ofString name) with
    | some f => exact C.andThen hargs fun a => callers name f a (hsheet.find? hfind)
    | none =>
      dsimp only
      split
      · exact C.same_ret _
      · exact C.andThen hargs fun a => C.andThen (C.positional name a) fun vs => C.library name vs
  · rw [h, h']
    refine C.andThen hargs fun a => C.andThen (C.positional name a) fun vs =>
      C.andThen (hf vs) fun r => ?_
    cases r with
    | ok v => exact C.same_ret v
    | error message => exact C.fail _

theorem memberCall (callers : C.Callers caller caller') (space name : String)
    {args : Render σ Arguments} {args' : Render τ Arguments} (hargs : C.Same args args') :
    C.Same (Eval.memberCall caller space name args) (Eval.memberCall caller' space name args') := by
  unfold Eval.memberCall
  refine C.andThen (C.namespaceOf space) fun n => ?_
  cases n with
  | library l =>
    refine C.andThen hargs fun a => C.andThen (C.positional _ a) fun vs => ?_
    cases l.call? (Name.ofString name).text vs with
    | some result => exact C.ofExcept result
    | none => exact C.fail _
  | module p =>
    refine C.seq (C.module? p) fun m hm => ?_
    cases hfind : m.bind (·.functions.find? (.ofString name)) with
    | none => exact C.fail _
    | some f =>
      obtain ⟨m', hm', hf⟩ := Option.bind_eq_some_iff.1 hfind
      exact C.andThen hargs fun a => callers _ f a ((hm m' hm').find? hf)

theorem addPair (pairs : List (Value × Value)) (k v : Value) :
    C.Same (Eval.addPair pairs k v) (Eval.addPair pairs k v) := by
  unfold Eval.addPair
  split
  · exact C.fail _
  · exact C.same_ret _

/-! ### Expressions -/

mutual

/-- **An expression** that calls only what may be called goes together with itself. -/
theorem eval (hh : C.Answers host host') (hc : C.Callers caller caller')
    (e : Expr) (he : ∀ n ∈ e.calls, C.ok n) :
    C.Same (e.eval host caller) (e.eval host' caller') := by
  cases e with
  | literal v => exact C.same_ret v
  | invalid f => exact C.fail _
  | trailing e f => exact C.andThen (eval hh hc e he) fun _ => C.fail _
  | «variable» name => exact C.valueOf name
  | member space name => exact C.memberValue space name
  | call name args printed =>
    rw [Expr.calls, List.forall_mem_cons] at he
    exact call hh hc he.1 printed (evalArguments hh hc ⟨[], []⟩ args he.2)
  | memberCall space name args =>
    exact memberCall hc space name (evalArguments hh hc ⟨[], []⟩ args he)
  | list es separator => exact C.andThen (evalAll hh hc es he) fun vs => C.same_ret _
  | map ps => exact C.andThen (evalPairs hh hc [] ps he) fun ps => C.same_ret _
  | interpolation e => exact C.andThen (eval hh hc e he) fun v => C.same_ret _
  | glued a b =>
    rw [Expr.calls, List.forall_mem_append] at he
    exact C.andThen (eval hh hc a he.1) fun v => C.andThen (eval hh hc b he.2) fun w => C.same_ret _
  | binary op a b =>
    rw [Expr.calls, List.forall_mem_append] at he
    exact C.andThen (eval hh hc a he.1) fun v => C.andThen (eval hh hc b he.2) fun w =>
      C.same (C.ofFault _)
  | negative e => exact C.andThen (eval hh hc e he) fun v => C.same_ret _
  | positive e => exact C.andThen (eval hh hc e he) fun v => C.same_ret _
  | not e => exact C.andThen (eval hh hc e he) fun v => C.same_ret _

theorem evalAll (hh : C.Answers host host') (hc : C.Callers caller caller')
    (es : List Expr) (hes : ∀ n ∈ Expr.callsOfAll es, C.ok n) :
    C.Same (Expr.evalAll host caller es) (Expr.evalAll host' caller' es) := by
  cases es with
  | nil => exact C.same_ret _
  | cons e es =>
    rw [Expr.callsOfAll, List.forall_mem_append] at hes
    exact C.andThen (eval hh hc e hes.1) fun v =>
      C.andThen (evalAll hh hc es hes.2) fun vs => C.same_ret _

theorem evalPairs (hh : C.Answers host host') (hc : C.Callers caller caller')
    (done : List (Value × Value)) (ps : List (Expr × Expr))
    (hps : ∀ n ∈ Expr.callsOfPairs ps, C.ok n) :
    C.Same (Expr.evalPairs host caller done ps) (Expr.evalPairs host' caller' done ps) := by
  match ps with
  | [] => exact C.same_ret _
  | (k, v) :: ps =>
    rw [Expr.callsOfPairs, List.forall_mem_append, List.forall_mem_append] at hps
    exact C.andThen (eval hh hc k hps.1.1) fun k => C.andThen (eval hh hc v hps.1.2) fun v =>
      C.andThen (addPair done k v) fun done => evalPairs hh hc done ps hps.2

theorem evalArguments (hh : C.Answers host host') (hc : C.Callers caller caller')
    (done : Arguments) (args : List (Option Name × Expr))
    (hargs : ∀ n ∈ Expr.callsOfArguments args, C.ok n) :
    C.Same (Expr.evalArguments host caller done args)
      (Expr.evalArguments host' caller' done args) := by
  match args with
  | [] => exact C.same_ret _
  | (k, e) :: args =>
    rw [Expr.callsOfArguments, List.forall_mem_append] at hargs
    exact C.andThen (eval hh hc e hargs.1) fun v => evalArguments hh hc _ args hargs.2

end

end

/-! ### Loops -/

/-- What a loop returns is what its body returns, or nothing. -/
theorem forEach {Q : Option Value → Prop} (hQ : Q none) {body : α → Render σ (Option Value)}
    {body' : α → Render τ (Option Value)} (h : ∀ a, C.Rel Q (body a) (body' a)) (as : List α) :
    C.Rel Q (forEach body as) (forEach body' as) := by
  induction as with
  | nil => exact C.ret hQ
  | cons a as ih =>
    refine C.seq (h a) fun r hr => ?_
    cases r with
    | some v => exact C.ret hr
    | none => exact ih

theorem count {Q : Option Value → Prop} (hQ : Q none) (limit : Nat) (step : Int)
    {body : Int → Render σ (Option Value)} {body' : Int → Render τ (Option Value)}
    (h : ∀ i, C.Rel Q (body i) (body' i)) (allowed rounds : Nat) (index : Int) :
    C.Rel Q (count limit step body allowed rounds index)
      (count limit step body' allowed rounds index) := by
  induction allowed generalizing rounds index with
  | zero =>
    cases rounds with
    | zero => exact C.ret hQ
    | succ rounds => exact C.fail _
  | succ allowed ih =>
    cases rounds with
    | zero => exact C.ret hQ
    | succ rounds =>
      refine C.seq (h index) fun r hr => ?_
      cases r with
      | some v => exact C.ret hr
      | none => exact ih rounds _

theorem whileHolds {Q : Option Value → Prop} (hQ : Q none) (limit : Nat)
    {condition : Render σ Value} {condition' : Render τ Value} (hc : C.Same condition condition')
    {body : Render σ (Option Value)} {body' : Render τ (Option Value)} (h : C.Rel Q body body')
    (allowed : Nat) :
    C.Rel Q (whileHolds limit condition body allowed)
      (whileHolds limit condition' body' allowed) := by
  induction allowed with
  | zero =>
    refine C.andThen hc fun v => ?_
    split
    · exact C.fail _
    · exact C.ret hQ
  | succ allowed ih =>
    refine C.andThen hc fun v => ?_
    split
    · refine C.seq h fun r hr => ?_
      cases r with
      | some v => exact C.ret hr
      | none => exact ih
    · exact C.ret hQ

theorem integer (v : Value) : C.Same (integer v) (integer v) := by
  unfold Render.integer
  split
  · split
    · exact C.same_ret _
    · exact C.fail _
  · exact C.fail _

/-! ### Rules that load modules -/

theorem libraryOf (url name : String) : C.Same (libraryOf url name) (libraryOf url name) := by
  unfold Render.libraryOf
  cases Builtin.Library.ofName? name with
  | some l => exact C.same_ret l
  | none => exact C.fail _

theorem ensureFree (space : Option Name) : C.Same (ensureFree space) (ensureFree space) := by
  cases space with
  | none => exact C.same_ret _
  | some n =>
    refine C.andThen C.sheet fun sheet => ?_
    split
    · exact C.fail _
    · exact C.same_ret _

section

variable {C} {evaluate : Expr → Render σ Value} {evaluate' : Expr → Render τ Value}
  (he : ∀ e : Expr, (∀ n ∈ e.calls, C.ok n) → C.Same (evaluate e) (evaluate' e))
include he

theorem configureAll (settings : List (Name × Expr))
    (hs : ∀ n ∈ settings.flatMap (fun x => x.2.calls), C.ok n) {t : Bindings} (ht : t.Distinct) :
    C.Rel Table.Distinct
      (settings.foldlM (fun (t : Bindings) x => do return t.insert x.1 (← evaluate x.2)) t)
      (settings.foldlM (fun (t : Bindings) x => do return t.insert x.1 (← evaluate' x.2)) t) := by
  induction settings generalizing t with
  | nil => exact C.ret ht
  | cons x settings ih =>
    rw [List.flatMap_cons, List.forall_mem_append] at hs
    have first : C.Rel Table.Distinct (do return t.insert x.1 (← evaluate x.2))
        (do return t.insert x.1 (← evaluate' x.2)) :=
      C.andThen (he x.2 hs.1) fun v => C.ret (ht.insert x.1 v)
    exact C.seq first fun t ht => ih hs.2 ht

/-- The variables that are set when a module is loaded are set once. -/
theorem configure {h : LoadHeader} (hh : ∀ n ∈ h.calls, C.ok n) :
    C.Rel Table.Distinct (configure evaluate h) (configure evaluate' h) := by
  unfold LoadHeader.calls at hh
  unfold Render.configure
  cases hc : h.configuration with
  | none => exact C.ret Table.distinct_empty
  | some c =>
    rw [hc] at hh
    refine C.seq (C.ofFault c) fun settings hs => ?_
    rw [hs] at hh
    exact configureAll he settings hh Table.distinct_empty

end

end Concord
end Render
end Stylesheet
