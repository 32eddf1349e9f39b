import Stylesheet.Proofs.Render.Journaled

/-!
# Expressions with a journal

Expressions go along with themselves if calls of functions do. Their values are known: scalars are,
and so is what is in reach, what is made of known values, and what functions return.

* `Setting.Callers`: calls that go along with each other.
* `Setting.Goes.eval`: expressions go along.
* `Setting.Goes.bindAll`: so does binding arguments to parameters.
-/

namespace Stylesheet

open Render

variable {σ α β : Type} {S : Setting σ}

/-- The values of evaluated arguments belong to a family. -/
structure Arguments.All (V : Value → Prop) (args : Arguments) : Prop where
  positional : ∀ v ∈ args.positional, V v
  named : ∀ x ∈ args.named, V x.2

namespace Arguments

variable {V W : Value → Prop} {args : Arguments}

theorem all_none : All V ⟨[], []⟩ := ⟨nofun, nofun⟩

theorem All.imp (h : args.All V) (hVW : ∀ v, V v → W v) : args.All W :=
  ⟨fun v hv => hVW v (h.positional v hv), fun x hx => hVW x.2 (h.named x hx)⟩

theorem All.add (h : args.All V) (k : Option Name) {v : Value} (hv : V v) :
    (Eval.Arguments.add args k v).All V := by
  cases k with
  | none =>
    refine ⟨fun w hw => ?_, h.named⟩
    rcases List.mem_append.1 hw with hw | hw
    · exact h.positional w hw
    · exact List.mem_singleton.1 hw ▸ hv
  | some n =>
    refine ⟨h.positional, fun x hx => ?_⟩
    rcases List.mem_append.1 hx with hx | hx
    · exact h.named x hx
    · exact List.mem_singleton.1 hx ▸ hv

/-- A named argument is one of the arguments, and the others stay. -/
theorem all_takeNamed {n : Name} {xs rest : List (Name × Value)} {v : Value}
    (h : ∀ x ∈ xs, V x.2) (ht : Eval.takeNamed n xs = some (v, rest)) :
    V v ∧ ∀ x ∈ rest, V x.2 := by
  induction xs generalizing rest with
  | nil => cases ht
  | cons x xs ih =>
    rw [List.forall_mem_cons] at h
    unfold Eval.takeNamed at ht
    split at ht
    · cases ht
      exact h
    · obtain ⟨⟨w, rest'⟩, hrest, heq⟩ := Option.map_eq_some_iff.1 ht
      cases heq
      obtain ⟨hv, hothers⟩ := ih h.2 hrest
      exact ⟨hv, List.forall_mem_cons.2 ⟨h.1, hothers⟩⟩

end Arguments

namespace Setting

/-- What is known of a value that a step yields. -/
abbrev Yields (S : Setting σ) (_ : State σ) (es : Journal) (v : Value) : Prop := S.Knows es v

/-- Calls of functions go along with each other, if their arguments are known. -/
def Callers (S : Setting σ) (caller : Caller σ) (caller' : Caller (Traced Entry σ)) : Prop :=
  ∀ name (f : UserFunction) (args : Arguments) (s : State σ) (es : Journal), f.Plain →
    f.Reaches s.modules s.sheet.path → args.All (S.Knows es) →
    S.Goes S.Yields (caller name f args) (caller' name f args) s es

theorem find?_host (h : Host σ) (name : String) :
    (Journal.host h).functions.function? name =
      (h.functions.function? name).map Journal.asked := by
  unfold Registry.function? Table.find? Journal.host
  rw [List.find?_map, Option.map_map, Option.map_map]
  rfl

namespace Goes

variable {s : State σ} {es : Journal}

/-! ### Variables -/

theorem positional (function : String) {args : Arguments} (hargs : args.All (S.Knows es)) :
    S.Goes (Same (fun vs => ∀ v ∈ vs, S.Knows es v) s es) (Eval.positional function args)
      (Eval.positional function args) s es := by
  unfold Eval.positional
  cases args.named with
  | nil => exact same hargs.positional
  | cons k ks => exact fail

theorem valueOf (name : String) :
    S.Goes S.Yields (Eval.valueOf name) (Eval.valueOf name) s es := by
  refine knowing fun hs => ?_
  unfold Eval.valueOf
  refine reading sheet ?_
  rintro _ rfl
  dsimp only
  cases hfind : s.sheet.scopes.find? (.ofString name) with
  | some v => exact ret (hs.holds.scopes.find? hfind)
  | none =>
    cases hconstant : s.sheet.namespaces.flat.findSome?
        (·.constant? (Name.ofString name).text) with
    | none => exact fail
    | some v =>
      obtain ⟨l, -, hl⟩ := List.exists_of_findSome?_eq_some hconstant
      exact ret ((S.knows_closed es).scalar (Builtin.Library.isScalar_constant? hl))

theorem namespaceOf (space : String) :
    S.Goes (Same (s.sheet.namespaces.named.find? (.ofString space) = some ·) s es)
      (Eval.namespaceOf space) (Eval.namespaceOf space) s es := by
  unfold Eval.namespaceOf
  refine reading sheet ?_
  rintro _ rfl
  cases hfind : s.sheet.namespaces.named.find? (.ofString space) with
  | none => exact fail
  | some n => exact same rfl

theorem memberValue (space name : String) :
    S.Goes S.Yields (Eval.memberValue space name) (Eval.memberValue space name) s es := by
  refine knowing fun hs => ?_
  unfold Eval.memberValue
  refine reading (namespaceOf space) fun n _ => ?_
  cases n with
  | library l =>
    dsimp only
    rw [pure_bind, pure_bind]
    cases hconstant : l.constant? (Name.ofString name).text with
    | none => exact fail
    | some v => exact ret ((S.knows_closed es).scalar (Builtin.Library.isScalar_constant? hconstant))
  | module p =>
    dsimp only
    refine reading (module? p) ?_
    rintro _ rfl
    rw [pure_bind, pure_bind]
    cases hvalue : (s.modules.find? p).bind (·.bindings.find? (.ofString name)) with
    | none => exact fail
    | some v =>
      obtain ⟨m, hm, hv⟩ := Option.bind_eq_some_iff.1 hvalue
      exact ret ((hs.modulesHold.find? hm).bindings.find? hv)

/-! ### Calls -/

/-- A call of a function that is neither the host's nor the stylesheet's. -/
theorem library (name : String) {args : List Value} (hargs : ∀ v ∈ args, S.Knows es v) :
    S.Goes S.Yields (Eval.library name args) (Eval.library name args) s es := by
  have hclosed := S.knows_closed es
  have answer {r : Except RenderError Value}
      (hr : Outcome (·.isExcluded = false) (S.Knows es) r) :
      S.Goes S.Yields (Render.ofExcept r) (Render.ofExcept r) s es :=
    Goes.result (ofExcept hr) fun _ hv => hv
  unfold Eval.library
  refine reading sheet ?_
  rintro _ rfl
  dsimp only
  cases Eval.existence? s.sheet.scopes (Name.ofString name).text with
  | some exists? =>
    match args with
    | [] => exact fail
    | [v] => exact ret (hclosed.scalar rfl)
    | _ :: _ :: _ => exact fail
  | none =>
    cases hcall : Builtin.call? (Name.ofString name).text args with
    | some r => exact answer (Builtin.outcome_call? hclosed hargs hcall)
    | none =>
      cases hflat : s.sheet.namespaces.flat.findSome? (·.call? (Name.ofString name).text args) with
      | some r =>
        obtain ⟨l, -, hl⟩ := List.exists_of_findSome?_eq_some hflat
        exact answer (Builtin.Library.outcome_call? hclosed hargs hl)
      | none => exact ret (hclosed.scalar rfl)

/-- What is known of the arguments of a call when they are evaluated. -/
abbrev Supplies (S : Setting σ) (_ : State σ) (es : Journal) (args : Arguments) : Prop :=
  args.All (S.Knows es)

section

variable {caller : Caller σ} {caller' : Caller (Traced Entry σ)}
  (callers : S.Callers caller caller')
include callers

theorem call {name : String} (printed : String) {args : Render σ Arguments}
    {args' : Journal.Step σ Arguments}
    (hargs : ∀ s es, S.Goes (Supplies S) args args' s es) :
    S.Goes S.Yields (Eval.call S.host caller name printed args)
      (Eval.call (Journal.host S.host) caller' name printed args') s es := by
  refine knowing fun hs => ?_
  unfold Eval.call
  rw [find?_host]
  cases hfind : S.host.functions.function? name with
  | some f =>
    refine bind (hargs s es) fun a s' es' _ ha => reading (positional name ha) fun vs hvs => ?_
    refine bind (asked hfind hvs) fun r s'' es'' _ hr => ?_
    cases r with
    | ok v => exact ret (hr v rfl)
    | error message => exact fail
  | none =>
    dsimp only [Option.map_none]
    refine reading sheet ?_
    rintro _ rfl
    cases hfind : s.sheet.functions.find? (.ofString name) with
    | some f =>
      refine bind (hargs s es) fun a s' es' hl ha => ?_
      have hreaches := (hs.reaches.functions.find? hfind).grow hl.modules
      exact callers name f a s' es' (hs.holds.functions.find? hfind) (hl.path ▸ hreaches) ha
    | none =>
      dsimp only
      split
      · exact ret ((S.knows_closed es).scalar rfl)
      · exact bind (hargs s es) fun a s' es' _ ha =>
          reading (positional name ha) fun vs hvs => library name hvs

theorem memberCall (space name : String) {args : Render σ Arguments}
    {args' : Journal.Step σ Arguments} (hargs : ∀ s es, S.Goes (Supplies S) args args' s es) :
    S.Goes S.Yields (Eval.memberCall caller space name args)
      (Eval.memberCall caller' space name args') s es := by
  refine knowing fun hs => ?_
  unfold Eval.memberCall
  refine reading (namespaceOf space) fun n _ => ?_
  cases n with
  | library l =>
    refine bind (hargs s es) fun a s' es' _ ha => reading (positional _ ha) fun vs hvs => ?_
    cases hcall : l.call? (Name.ofString name).text vs with
    | none => exact fail
    | some r =>
      have hr := Builtin.Library.outcome_call? (S.knows_closed es') hvs hcall
      exact result (ofExcept hr) fun _ hv => hv
  | module p =>
    refine reading (module? p) ?_
    rintro _ rfl
    cases hfind : (s.modules.find? p).bind (·.functions.find? (.ofString name)) with
    | none => exact fail
    | some f =>
      obtain ⟨m, hm, hf⟩ := Option.bind_eq_some_iff.1 hfind
      refine bind (hargs s es) fun a s' es' hl ha => ?_
      -- a function of a module keeps its home, whatever the arguments do
      have hhome := (hs.modulesReach.find? hm).functions.find? hf
      have hreaches := (UserFunction.reaches_of_loaded hhome s'.sheet.path).grow hl.modules
      exact callers _ f a s' es' ((hs.modulesHold.find? hm).functions.find? hf) hreaches ha

end

theorem addPair {pairs : List (Value × Value)} {k v : Value} (hps : S.Knows es (.map pairs))
    (hk : S.Knows es k) (hv : S.Knows es v) :
    S.Goes (fun _ es' ps => S.Knows es' (.map ps)) (Eval.addPair pairs k v)
      (Eval.addPair pairs k v) s es := by
  unfold Eval.addPair
  split
  · exact fail
  · next hfree =>
    exact ret ((S.knows_closed es).addPair hps hk hv (Bool.eq_false_iff.2 hfree))

/-! ### Expressions -/

variable {caller : Caller σ} {caller' : Caller (Traced Entry σ)}

mutual

/-- **An expression** without compound literals goes along. -/
theorem eval (callers : S.Callers caller caller') {e : Expr} (he : e.Plain) (s : State σ)
    (es : Journal) :
    S.Goes S.Yields (e.eval S.host caller) (e.eval (Journal.host S.host) caller') s es := by
  match e, he with
  | .literal v, .literal hv => exact ret ((S.knows_closed es).scalar hv)
  | .invalid f, .invalid hf => exact fail hf
  | .trailing e f, .trailing hf he => exact bind (eval callers he s es) fun _ _ _ _ _ => fail hf
  | .variable name, _ => exact valueOf name
  | .member space name, _ => exact memberValue space name
  | .call name args printed, .call _ _ hargs =>
    exact call callers printed fun s es =>
      evalArguments callers hargs Arguments.all_none
  | .memberCall space name args, .memberCall _ _ hargs =>
    exact memberCall callers space name fun s es =>
      evalArguments callers hargs Arguments.all_none
  | .list items separator, .list _ hitems =>
    exact bind (evalAll callers hitems) fun vs s' es' _ hvs =>
      ret ((S.knows_closed es').list separator hvs)
  | .map ps, .map hk hv =>
    exact bind (evalPairs callers hk hv (S.knows_closed es).noPairs) fun ps s' es' _ hps => ret hps
  | .interpolation e, .interpolation he =>
    exact bind (eval callers he s es) fun v s' es' _ _ => ret ((S.knows_closed es').scalar rfl)
  | .glued a b, .glued ha hb =>
    exact bind (eval callers ha s es) fun v s' es' _ _ =>
      bind (eval callers hb s' es') fun w s'' es'' _ _ =>
      ret ((S.knows_closed es'').scalar rfl)
  | .binary op a b, .binary _ ha hb =>
    refine bind (eval callers ha s es) fun v s' es' _ hv =>
      bind (eval callers hb s' es') fun w s'' es'' hl hw => ?_
    have hknown := (S.knows_closed es'').outcome_apply op (hv.later hl.journal) hw
    exact result (ofFault hknown) fun _ hx => hx
  | .negative e, .negative he =>
    refine bind (eval callers he s es) fun v s' es' _ _ => ret ?_
    cases v <;> exact (S.knows_closed es').scalar rfl
  | .positive e, .positive he =>
    refine bind (eval callers he s es) fun v s' es' _ _ => ret ?_
    cases v <;> exact (S.knows_closed es').scalar rfl
  | .not e, .not he =>
    exact bind (eval callers he s es) fun v s' es' _ _ => ret ((S.knows_closed es').scalar rfl)

theorem evalAll (callers : S.Callers caller caller') {items : List Expr}
    (hes : ∀ e ∈ items, e.Plain) {s : State σ} {es : Journal} :
    S.Goes (fun _ es' vs => ∀ v ∈ vs, S.Knows es' v) (Expr.evalAll S.host caller items)
      (Expr.evalAll (Journal.host S.host) caller' items) s es := by
  match items with
  | [] => exact ret nofun
  | e :: items =>
    rw [List.forall_mem_cons] at hes
    refine bind (eval callers hes.1 s es) fun v s' es' _ hv =>
      bind (evalAll callers hes.2) fun vs s'' es'' hl hvs => ret ?_
    exact List.forall_mem_cons.2 ⟨hv.later hl.journal, hvs⟩

theorem evalPairs (callers : S.Callers caller caller') {ps : List (Expr × Expr)}
    (hk : ∀ p ∈ ps, p.1.Plain) (hv : ∀ p ∈ ps, p.2.Plain)
    {done : List (Value × Value)} {s : State σ} {es : Journal} (hdone : S.Knows es (.map done)) :
    S.Goes (fun _ es' ps => S.Knows es' (.map ps)) (Expr.evalPairs S.host caller done ps)
      (Expr.evalPairs (Journal.host S.host) caller' done ps) s es := by
  match ps with
  | [] => exact ret hdone
  | (key, value) :: ps =>
    rw [List.forall_mem_cons] at hk hv
    refine bind (eval callers hk.1 s es) fun k s₁ es₁ hl₁ hkey => ?_
    refine bind (eval callers hv.1 s₁ es₁) fun v s₂ es₂ hl₂ hvalue => ?_
    have hbefore := hdone.later (hl₁.trans hl₂).journal
    exact bind (addPair hbefore (hkey.later hl₂.journal) hvalue) fun done' s₃ es₃ _ hdone' =>
      evalPairs callers hk.2 hv.2 hdone'

theorem evalArguments (callers : S.Callers caller caller') {args : List (Option Name × Expr)}
    (hargs : ∀ a ∈ args, a.2.Plain) {done : Arguments} {s : State σ} {es : Journal}
    (hdone : done.All (S.Knows es)) :
    S.Goes (Supplies S) (Expr.evalArguments S.host caller done args)
      (Expr.evalArguments (Journal.host S.host) caller' done args) s es := by
  match args with
  | [] => exact ret hdone
  | (k, e) :: args =>
    rw [List.forall_mem_cons] at hargs
    refine bind (eval callers hargs.1 s es) fun v s' es' hl hv => evalArguments callers hargs.2 ?_
    exact (hdone.imp fun _ hw => hw.later hl.journal).add k hv

end

/-! ### Parameters -/

theorem assign (n : Name) {v : Value} (hv : S.Knows es v) :
    S.Goes Any (Eval.assign n v) (Eval.assign n v) s es := modifyScopes fun hs => hs.assign n hv

section

variable (callers : S.Callers caller caller')
include callers

/-- The value of an expression that goes to a variable. -/
theorem evaluate {e : Expr} (he : e.Plain) (s : State σ) (es : Journal) :
    S.Goes S.Yields (e.eval S.host caller) (Noted.evaluate S.notes (Journal.host S.host) caller' e)
      s es := by
  intro hs
  have hvalue : S.Goes S.Yields (e.eval S.host caller >>= pure)
      (Noted.evaluate S.notes (Journal.host S.host) caller' e) s es :=
    bind (eval callers he s es) fun v s' es' _ hv =>
      handing (List.forall_mem_singleton.2 hv) fun es'' hl => ret (hv.later hl.journal)
  rw [bind_pure] at hvalue
  exact hvalue hs

/-- **Binding arguments** goes along; the state before each default is entered. -/
theorem bindAll (function : String) (count : Nat) {ps : List Parameter} (hps : ∀ p ∈ ps, p.Plain)
    {args : Arguments} {s : State σ} {es : Journal} (hargs : args.All (S.Knows es)) :
    S.Goes Any (Eval.bind (·.eval S.host caller) function count ps args)
      (Eval.bind (Noted.default S.notes (Journal.host S.host) caller') function count ps args)
      s es := by
  induction ps generalizing args s es with
  | nil =>
    -- arguments that no parameter takes are left
    obtain ⟨positional, named⟩ := args
    rcases positional with _ | ⟨v, vs⟩
    · rcases named with _ | ⟨k, ks⟩
      · exact ret trivial
      · exact fail
    · exact fail
  | cons p ps ih =>
    rw [List.forall_mem_cons] at hps
    unfold Eval.bind
    dsimp only
    split
    · have hrest := (S.knows_closed es).list .comma hargs.positional
      exact bind (assign _ hrest) fun _ s' es' hl _ =>
        ih hps.2 ⟨List.forall_mem_nil _, fun x hx => (hargs.named x hx).later hl.journal⟩
    · cases hpositional : args.positional with
      | cons v vs =>
        have hvs := hargs.positional
        rw [hpositional, List.forall_mem_cons] at hvs
        exact bind (assign _ hvs.1) fun _ s' es' hl _ =>
          ih hps.2 ⟨fun w hw => (hvs.2 w hw).later hl.journal,
            fun x hx => (hargs.named x hx).later hl.journal⟩
      | nil =>
        cases htaken : Eval.takeNamed (Name.ofString p.name) args.named with
        | some vn =>
          obtain ⟨v, named⟩ := vn
          obtain ⟨hv, hnamed⟩ := Arguments.all_takeNamed hargs.named htaken
          exact bind (assign _ hv) fun _ s' es' hl _ =>
            ih hps.2 ⟨List.forall_mem_nil _, fun x hx => (hnamed x hx).later hl.journal⟩
        | none =>
          cases hdefault : p.default with
          | none => exact fail
          | some e =>
            have he : e.Plain := hps.1 e hdefault
            refine bind (looking fun es' _ => evaluate callers he s es') fun v s' es' hl hv => ?_
            exact bind (assign _ hv) fun _ s'' es'' hl' _ =>
              ih hps.2 (hargs.imp fun _ hw => hw.later (hl.trans hl').journal)

end

end Goes
end Setting
end Stylesheet
