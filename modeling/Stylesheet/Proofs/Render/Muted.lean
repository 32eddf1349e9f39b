import Stylesheet.Proofs.Render.Simulation
import Stylesheet.Proofs.Rule.Muted

/-!
# Rendering does not read texts

What an expression or a rule was read from is only told to errors, and stands in calls that are left
to the browser. Two renderings of code that is the same but for these texts do the same: they leave
the same state but for the texts in it, with the same result, or fail with the same error but for
the text that it tells.

* `State.mute`, `RenderError.mute`: a state and an error without texts.
* `Render.Alike`: steps that do the same but for texts.
* `Render.Alike.eval`: an expression without texts.
-/

namespace Stylesheet

/-! ### Tables -/

namespace Table

variable {κ α β : Type} [BEq κ]

omit [BEq κ] in
/-- The table with other values under the same keys. -/
def mapValues (f : α → β) (t : Table κ α) : Table κ β := ⟨t.entries.map fun e => (e.1, f e.2)⟩

theorem find?_mapValues (f : α → β) (t : Table κ α) (k : κ) :
    (t.mapValues f).find? k = (t.find? k).map f := by
  simp [find?, mapValues, List.find?_map, Function.comp_def]

theorem mapValues_insert (f : α → β) (t : Table κ α) (k : κ) (a : α) :
    (t.insert k a).mapValues f = (t.mapValues f).insert k (f a) := by
  have hput (es : List (κ × α)) :
      (put k a es).map (fun e => (e.1, f e.2)) = put k (f a) (es.map fun e => (e.1, f e.2)) := by
    induction es with
    | nil => rfl
    | cons e es ih =>
      simp only [List.map_cons, put]
      split
      · rfl
      · rw [List.map_cons, ih]
  simp [mapValues, insert, hput]

theorem mapValues_insertAll (f : α → β) (t : Table κ α) (es : List (κ × α)) :
    (t.insertAll es).mapValues f = (t.mapValues f).insertAll (es.map fun e => (e.1, f e.2)) := by
  induction es generalizing t with
  | nil => rfl
  | cons e es ih =>
    show ((t.insert e.1 e.2).insertAll es).mapValues f = _
    rw [ih, mapValues_insert]
    rfl

end Table

/-! ### States and errors -/

/-- The same function, without the texts that it was read from. -/
def UserFunction.mute (f : UserFunction) : UserFunction :=
  { f with parameters := f.parameters.map Parameter.mute, body := Stmt.muteAll f.body }

def Module.mute (m : Module) : Module := { m with functions := m.functions.mapValues .mute }

def Sheet.mute (s : Sheet) : Sheet := { s with functions := s.functions.mapValues .mute }

def State.mute {σ : Type} (s : State σ) : State σ :=
  { s with sheet := s.sheet.mute, modules := s.modules.mapValues .mute }

theorem Module.mute_eq_iff {m m' : Module} :
    m'.mute = m.mute ↔ m'.bindings = m.bindings ∧
      m'.functions.mapValues UserFunction.mute = m.functions.mapValues UserFunction.mute ∧
      m'.namespaces = m.namespaces := by
  simp [mute]

theorem Sheet.mute_eq_iff {s s' : Sheet} :
    s'.mute = s.mute ↔ s'.scopes = s.scopes ∧
      s'.functions.mapValues UserFunction.mute = s.functions.mapValues UserFunction.mute ∧
      s'.namespaces = s.namespaces ∧ s'.path = s.path := by
  simp [mute]

theorem State.mute_eq_iff {σ : Type} {s s' : State σ} :
    s'.mute = s.mute ↔ s'.sheet.mute = s.sheet.mute ∧
      s'.modules.mapValues Module.mute = s.modules.mapValues Module.mute ∧ s'.host = s.host := by
  simp [mute]

/-- The same error, without the text that a fault was met at. -/
def RenderError.mute : RenderError → RenderError
  | fault f => fault f.mute
  | e => e

theorem Sheet.merge_mute (s : Sheet) (m : Module) (front : Name) :
    (s.merge m front).mute = s.mute.merge m.mute front := by
  simp only [merge, mute, Module.mute, Table.mapValues_insertAll]
  simp [Table.mapValues, Function.comp_def]

namespace Render

variable {σ α β γ δ : Type}

/-! ### Steps -/

/-- Results that are related, or errors that are the same but for texts. -/
inductive Results (R : α → β → Prop) : Except RenderError α → Except RenderError β → Prop
  | ok {a : α} {b : β} : R a b → Results R (.ok a) (.ok b)
  | error {e e' : RenderError} : e'.mute = e.mute → Results R (.error e) (.error e')

theorem Results.symm {r r' : Except RenderError α} (h : Results Eq r r') : Results Eq r' r := by
  cases h with
  | ok hab => exact .ok hab.symm
  | error he => exact .error he.symm

theorem Results.trans {r r' r'' : Except RenderError α} (h : Results Eq r r')
    (h' : Results Eq r' r'') : Results Eq r r'' := by
  cases h with
  | ok hab =>
    cases h' with
    | ok hbc => exact .ok (hab.trans hbc)
  | error he =>
    cases h' with
    | error he' => exact .error (he'.trans he)

/-- **Steps that are alike:** from states that are the same but for texts they go to such states,
with related results or with errors that are the same but for texts. -/
def Alike (R : α → β → Prop) (act : Render σ α) (act' : Render σ β) : Prop :=
  ∀ s s' : State σ, s'.mute = s.mute →
    Results R (act.run s).1 (act'.run s').1 ∧ (act'.run s').2.mute = (act.run s).2.mute

namespace Alike

variable {R : α → β → Prop} {Q : γ → δ → Prop}

theorem ret {a : α} {b : β} (h : R a b) : Alike (σ := σ) R (pure a) (pure b) :=
  fun _ _ hs => ⟨.ok h, hs⟩

theorem fail {e e' : RenderError} (h : e'.mute = e.mute) :
    Alike (σ := σ) R (throw e) (throw e') := fun _ _ hs => ⟨.error h, hs⟩

theorem seq {act : Render σ α} {act' : Render σ β} {next : α → Render σ γ} {next' : β → Render σ δ}
    (h : Alike R act act') (hn : ∀ a b, R a b → Alike Q (next a) (next' b)) :
    Alike Q (act >>= next) (act' >>= next') := by
  intro s s' hs
  obtain ⟨hresult, hstate⟩ := h s s' hs
  rw [run_bind, run_bind]
  rcases hact : act.run s with ⟨r, t⟩
  rcases hact' : act'.run s' with ⟨r', t'⟩
  rw [hact, hact'] at hresult hstate
  cases hresult with
  | ok hab => exact hn _ _ hab t t' hstate
  | error he => exact ⟨.error he, hstate⟩

/-- A sequence behind steps with the same result. -/
theorem andThen {act act' : Render σ α} {next : α → Render σ γ} {next' : α → Render σ δ}
    (h : Alike Eq act act') (hn : ∀ a, Alike Q (next a) (next' a)) :
    Alike Q (act >>= next) (act' >>= next') :=
  h.seq fun a _ hab => hab ▸ hn a

theorem symm {act act' : Render σ α} (h : Alike Eq act act') : Alike Eq act' act :=
  fun s s' hs => ⟨(h s' s hs.symm).1.symm, (h s' s hs.symm).2.symm⟩

theorem trans {act act' act'' : Render σ α} (h : Alike Eq act act') (h' : Alike Eq act' act'') :
    Alike Eq act act'' := fun s s' hs =>
  ⟨(h s s' hs).1.trans (h' s' s' rfl).1, (h' s' s' rfl).2.trans (h s s' hs).2⟩

/-- What is alike without texts is alike with them. -/
theorem of_mute {ε : Type} (mute : ε → ε) {act : ε → Render σ α}
    (h : ∀ x, Alike Eq (act x) (act (mute x))) {x x' : ε} (hx : mute x' = mute x) :
    Alike Eq (act x) (act x') := (h x).trans (hx ▸ (h x').symm)

theorem sheet : Alike (σ := σ) (fun s s' => s'.mute = s.mute) Render.sheet Render.sheet :=
  fun _ _ hs => ⟨.ok (State.mute_eq_iff.1 hs).1, hs⟩

theorem module? (p : Path) : Alike (σ := σ) (fun m m' => m'.map Module.mute = m.map Module.mute)
    (Render.module? p) (Render.module? p) := by
  intro s s' hs
  refine ⟨.ok ?_, hs⟩
  show (s'.modules.find? p).map _ = (s.modules.find? p).map _
  rw [← Table.find?_mapValues, ← Table.find?_mapValues, (State.mute_eq_iff.1 hs).2.1]

theorem ofHost (step : StateM σ α) : Alike Eq (Render.ofHost step) (Render.ofHost step) := by
  intro s s' hs
  obtain ⟨hsheet, hmodules, hhost⟩ := State.mute_eq_iff.1 hs
  show Results Eq (.ok (step s.host).1) (.ok (step s'.host).1) ∧
    State.mute { s' with host := (step s'.host).2 } = State.mute { s with host := (step s.host).2 }
  rw [hhost]
  exact ⟨.ok rfl, State.mute_eq_iff.2 ⟨hsheet, hmodules, rfl⟩⟩

/-- Changes of the stylesheet that do the same but for texts. -/
theorem modifySheet {f f' g : Sheet → Sheet} (h : ∀ s, (f s).mute = g s.mute)
    (h' : ∀ s, (f' s).mute = g s.mute) :
    Alike (σ := σ) Eq (Render.modifySheet f) (Render.modifySheet f') := by
  intro s s' hs
  obtain ⟨hsheet, hmodules, hhost⟩ := State.mute_eq_iff.1 hs
  refine ⟨.ok rfl, State.mute_eq_iff.2 ⟨?_, hmodules, hhost⟩⟩
  show (f' s'.sheet).mute = (f s.sheet).mute
  rw [h, h', hsheet]

theorem modifyScopes (f : Scopes → Scopes) :
    Alike (σ := σ) Eq (Render.modifyScopes f) (Render.modifyScopes f) :=
  modifySheet (g := fun s => { s with scopes := f s.scopes }) (fun _ => rfl) fun _ => rfl

theorem keep (p : Path) {m m' : Module} (hm : m'.mute = m.mute) :
    Alike (σ := σ) Eq (Render.keep p m) (Render.keep p m') := by
  intro s s' hs
  obtain ⟨hsheet, hmodules, hhost⟩ := State.mute_eq_iff.1 hs
  refine ⟨.ok rfl, State.mute_eq_iff.2 ⟨hsheet, ?_, hhost⟩⟩
  show (s'.modules.insert p m').mapValues Module.mute = (s.modules.insert p m).mapValues Module.mute
  rw [Table.mapValues_insert, Table.mapValues_insert, hmodules, hm]

/-- Steps in a stylesheet that is entered and left alike. -/
theorem around {act : Render σ α} {act' : Render σ β} {enter enter' : Sheet → Sheet}
    {leave : Sheet → Sheet → Sheet} (h : Alike R act act')
    (he : ∀ s s', s'.mute = s.mute → (enter' s').mute = (enter s).mute)
    (hl : ∀ s t, (leave s t).mute = leave s.mute t.mute) :
    Alike R (Render.around act enter leave) (Render.around act' enter' leave) := by
  intro s s' hs
  obtain ⟨hsheet, hmodules, hhost⟩ := State.mute_eq_iff.1 hs
  obtain ⟨hresult, hstate⟩ := h { s with sheet := enter s.sheet } { s' with sheet := enter' s'.sheet }
    (State.mute_eq_iff.2 ⟨he _ _ hsheet, hmodules, hhost⟩)
  obtain ⟨hinner, hmodules, hhost⟩ := State.mute_eq_iff.1 hstate
  rw [run_around, run_around]
  refine ⟨hresult, State.mute_eq_iff.2 ⟨?_, hmodules, hhost⟩⟩
  rw [hl, hl, hsheet, hinner]

theorem inScope {act : Render σ α} {act' : Render σ β} (scope : Scope) (h : Alike R act act') :
    Alike R (Render.inScope scope act) (Render.inScope scope act') :=
  h.around (fun _ _ hs => congrArg (fun s : Sheet => { s with scopes := s.scopes.push scope }) hs)
    fun _ _ => rfl

theorem inSheet {act : Render σ α} {act' : Render σ β} {other other' : Sheet}
    (ho : other'.mute = other.mute) (h : Alike R act act') :
    Alike R (Render.inSheet other act) (Render.inSheet other' act') :=
  h.around (fun _ _ _ => ho) fun _ _ => rfl

theorem inFrame {act : Render σ α} {act' : Render σ β} (h : Alike R act act') :
    Alike R (Render.inFrame act) (Render.inFrame act') :=
  h.around (fun _ _ hs => congrArg
    (fun s : Sheet => { s with scopes := { s.scopes with locals := [⟨.empty, false⟩] } }) hs)
    fun _ _ => rfl

theorem ofExcept (r : Except RenderError α) :
    Alike (σ := σ) Eq (Render.ofExcept r) (Render.ofExcept r) := by
  cases r with
  | ok a => exact ret rfl
  | error e => exact fail rfl

/-- A part of a rule and the same part without texts. -/
theorem ofFault (mute : α → α) (r : Except Fault α) :
    Alike (σ := σ) (fun a b => b = mute a) (Render.ofFault r) (Render.ofFault (muteResult mute r)) := by
  cases r with
  | ok a => exact ret rfl
  | error f => exact fail (congrArg RenderError.fault f.mute_mute)

end Alike

/-! ### Expressions -/

/-- Calls of functions that are the same but for texts are alike. -/
def CallsAlike (caller : Caller σ) : Prop :=
  ∀ name (f f' : UserFunction) args, f'.mute = f.mute →
    Alike Eq (caller name f args) (caller name f' args)

namespace Alike

theorem valueOf (name : String) : Alike (σ := σ) Eq (Eval.valueOf name) (Eval.valueOf name) := by
  unfold Eval.valueOf
  refine sheet.seq fun s s' hs => ?_
  obtain ⟨hscopes, -, hspaces, -⟩ := Sheet.mute_eq_iff.1 hs
  dsimp only
  rw [hscopes, hspaces]
  cases s.scopes.find? (.ofString name) with
  | some v => exact ret rfl
  | none =>
    cases s.namespaces.flat.findSome? (·.constant? (Name.ofString name).text) with
    | some v => exact ret rfl
    | none => exact fail rfl

theorem namespaceOf (space : String) :
    Alike (σ := σ) Eq (Eval.namespaceOf space) (Eval.namespaceOf space) := by
  unfold Eval.namespaceOf
  refine sheet.seq fun s s' hs => ?_
  obtain ⟨-, -, hspaces, -⟩ := Sheet.mute_eq_iff.1 hs
  rw [hspaces]
  cases s.namespaces.named.find? (.ofString space) with
  | some n => exact ret rfl
  | none => exact fail rfl

/-- What is found in modules that are the same but for texts. -/
theorem bind_mute {ε : Type} {m m' : Option Module} (hm : m'.map Module.mute = m.map Module.mute)
    {f : Module → Option ε} (hf : ∀ m, f m.mute = f m) : m'.bind f = m.bind f := by
  have hbind (m : Option Module) : (m.map Module.mute).bind f = m.bind f := by
    cases m with
    | none => rfl
    | some m => exact hf m
  rw [← hbind, hm, hbind]

theorem memberValue (space name : String) :
    Alike (σ := σ) Eq (Eval.memberValue space name) (Eval.memberValue space name) := by
  unfold Eval.memberValue
  refine (namespaceOf space).andThen fun n => ?_
  cases n with
  | library l =>
    refine (ret (R := Eq) rfl).andThen fun v => ?_
    cases v with
    | some v => exact ret rfl
    | none => exact fail rfl
  | module p =>
    refine (module? p).seq fun m m' hm => ?_
    rw [bind_mute hm fun _ => rfl]
    refine (ret (R := Eq) rfl).andThen fun v => ?_
    cases v with
    | some v => exact ret rfl
    | none => exact fail rfl

theorem positional (function : String) (args : Arguments) :
    Alike (σ := σ) Eq (Eval.positional function args) (Eval.positional function args) := by
  unfold Eval.positional
  cases args.named with
  | nil => exact ret rfl
  | cons k ks => exact fail rfl

theorem library (name : String) (args : List Value) :
    Alike (σ := σ) Eq (Eval.library name args) (Eval.library name args) := by
  unfold Eval.library
  refine sheet.seq fun s s' hs => ?_
  obtain ⟨hscopes, -, hspaces, -⟩ := Sheet.mute_eq_iff.1 hs
  dsimp only
  rw [hscopes, hspaces]
  cases Eval.existence? s.scopes (Name.ofString name).text with
  | some exists? =>
    match args with
    | [] => exact fail rfl
    | [v] => exact ret rfl
    | _ :: _ :: _ => exact fail rfl
  | none =>
    cases Builtin.call? (Name.ofString name).text args with
    | some result => exact ofExcept result
    | none =>
      cases s.namespaces.flat.findSome? (·.call? (Name.ofString name).text args) with
      | some result => exact ofExcept result
      | none => exact ret rfl

section

variable {host : Host σ} {caller : Caller σ}

/-- Functions that are found are the same but for texts if the options of them are. -/
theorem functions_cases {o o' : Option UserFunction}
    (h : o'.map UserFunction.mute = o.map UserFunction.mute) :
    (o = none ∧ o' = none) ∨ ∃ f f', o = some f ∧ o' = some f' ∧ f'.mute = f.mute := by
  cases o with
  | none => exact .inl ⟨rfl, Option.map_eq_none_iff.1 h⟩
  | some f =>
    obtain ⟨f', hf', hmute⟩ := Option.map_eq_some_iff.1 h
    exact .inr ⟨f, f', rfl, hf', hmute⟩

/-- The text of a call shows only where it is left to the browser. -/
theorem call (hc : CallsAlike caller) {name printed printed' : String}
    (hprinted : isBrowserName name = true → printed' = printed) {args args' : Render σ Arguments}
    (hargs : Alike Eq args args') :
    Alike Eq (Eval.call host caller name printed args) (Eval.call host caller name printed' args') := by
  unfold Eval.call
  cases host.functions.function? name with
  | some f =>
    refine hargs.andThen fun a => (positional name a).andThen fun vs => (ofHost (f vs)).andThen ?_
    intro r
    cases r with
    | ok v => exact ret rfl
    | error message => exact fail rfl
  | none =>
    refine sheet.seq fun s s' hs => ?_
    obtain ⟨-, hfunctions, -, -⟩ := Sheet.mute_eq_iff.1 hs
    have hfind := congrArg (·.find? (.ofString name)) hfunctions
    simp only [Table.find?_mapValues] at hfind
    rcases functions_cases hfind with ⟨hf, hf'⟩ | ⟨f, f', hf, hf', hmute⟩
    · rw [hf, hf']
      dsimp only
      split
      · next hbrowser => exact ret (by rw [hprinted hbrowser])
      · exact hargs.andThen fun a => (positional name a).andThen fun vs => library name vs
    · rw [hf, hf']
      exact hargs.andThen fun a => hc name f f' a hmute

theorem memberCall (hc : CallsAlike caller) (space name : String) {args args' : Render σ Arguments}
    (hargs : Alike Eq args args') :
    Alike Eq (Eval.memberCall caller space name args)
      (Eval.memberCall caller space name args') := by
  unfold Eval.memberCall
  refine (namespaceOf space).andThen fun n => ?_
  cases n with
  | library l =>
    refine hargs.andThen fun a => (positional _ a).andThen fun vs => ?_
    cases l.call? (Name.ofString name).text vs with
    | some result => exact ofExcept result
    | none => exact fail rfl
  | module p =>
    refine (module? p).seq fun m m' hm => ?_
    have hfind : (m'.bind (·.functions.find? (.ofString name))).map UserFunction.mute =
        (m.bind (·.functions.find? (.ofString name))).map UserFunction.mute := by
      have hbind (m : Option Module) :
          (m.bind (·.functions.find? (.ofString name))).map UserFunction.mute =
            (m.map Module.mute).bind (·.functions.find? (.ofString name)) := by
        cases m with
        | none => rfl
        | some m => exact (Table.find?_mapValues _ _ _).symm
      rw [hbind, hm, hbind]
    rcases functions_cases hfind with ⟨hf, hf'⟩ | ⟨f, f', hf, hf', hmute⟩
    · rw [hf, hf']
      exact fail rfl
    · rw [hf, hf']
      exact hargs.andThen fun a => hc _ f f' a hmute

theorem addPair (pairs : List (Value × Value)) (k v : Value) :
    Alike (σ := σ) Eq (Eval.addPair pairs k v) (Eval.addPair pairs k v) := by
  unfold Eval.addPair
  split
  · exact fail rfl
  · exact ret rfl

mutual

/-- **An expression without texts** has the same value. -/
theorem eval (hc : CallsAlike caller) (e : Expr) :
    Alike Eq (e.eval host caller) (e.mute.eval host caller) := by
  cases e with
  | literal v => exact ret rfl
  | invalid f => exact fail (congrArg RenderError.fault f.mute_mute)
  | trailing e f =>
    exact (eval hc e).andThen fun _ => fail (congrArg RenderError.fault f.mute_mute)
  | «variable» name => exact valueOf name
  | member space name => exact memberValue space name
  | call name args printed =>
    refine call hc (fun hbrowser => ?_) (evalArguments hc ⟨[], []⟩ args)
    rw [if_pos hbrowser]
  | memberCall space name args => exact memberCall hc space name (evalArguments hc ⟨[], []⟩ args)
  | list es separator => exact (evalAll hc es).andThen fun vs => ret rfl
  | map ps => exact (evalPairs hc [] ps).andThen fun ps => ret rfl
  | interpolation e => exact (eval hc e).andThen fun v => ret rfl
  | glued a b => exact (eval hc a).andThen fun v => (eval hc b).andThen fun w => ret rfl
  | binary op a b =>
    refine (eval hc a).andThen fun v => (eval hc b).andThen fun w => ?_
    cases Value.apply op v w with
    | ok u => exact ret rfl
    | error f => exact fail rfl
  | negative e => exact (eval hc e).andThen fun v => ret rfl
  | positive e => exact (eval hc e).andThen fun v => ret rfl
  | not e => exact (eval hc e).andThen fun v => ret rfl

theorem evalAll (hc : CallsAlike caller) (es : List Expr) :
    Alike Eq (Expr.evalAll host caller es) (Expr.evalAll host caller (Expr.muteAll es)) := by
  match es with
  | [] => exact ret rfl
  | e :: es => exact (eval hc e).andThen fun v => (evalAll hc es).andThen fun vs => ret rfl

theorem evalPairs (hc : CallsAlike caller) (done : List (Value × Value))
    (ps : List (Expr × Expr)) :
    Alike Eq (Expr.evalPairs host caller done ps)
      (Expr.evalPairs host caller done (Expr.mutePairs ps)) := by
  match ps with
  | [] => exact ret rfl
  | (k, v) :: ps =>
    exact (eval hc k).andThen fun k => (eval hc v).andThen fun v => (addPair done k v).andThen
      fun done => evalPairs hc done ps

theorem evalArguments (hc : CallsAlike caller) (done : Arguments)
    (args : List (Option Name × Expr)) :
    Alike Eq (Expr.evalArguments host caller done args)
      (Expr.evalArguments host caller done (Expr.muteArguments args)) := by
  match args with
  | [] => exact ret rfl
  | (k, e) :: args => exact (eval hc e).andThen fun v => evalArguments hc _ args

end

end

end Alike

end Render
end Stylesheet
