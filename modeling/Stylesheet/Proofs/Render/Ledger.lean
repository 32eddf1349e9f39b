import Stylesheet.Proofs.Render.History
import Stylesheet.Proofs.Render.Noted
import Stylesheet.Proofs.Render.References

/-!
# What steps change, by their notes

A ledger says how much of the state a step may change that notes a list of events: an expression, a
statement where it stands, or a rule that loads a module. It is closed under the changes of which
steps are made. Notes change nothing themselves, so that a rendering with notes accounts for the
same rendering without them.

* `Accounts`: a step and the same step with notes, with what both change.
* `Ledger`: what expressions, statements and rules that load modules change.
* `Ledger.execAll`: statements are accounted for, if calls and what they load are.
-/

namespace Stylesheet

open Render

variable {ε σ α β : Type}

/-! ### Accounts -/

/-- How a step may change the state that notes some events, the latest first. -/
abbrev Change (ε σ : Type) := List ε → State σ → State σ → Prop

/-- Changes one after the other are a change. -/
structure Composes (R : Change ε σ) : Prop where
  refl (s : State σ) : R [] s s
  trans {ds ds' : List ε} {s s' s'' : State σ} : R ds s s' → R ds' s' s'' → R (ds' ++ ds) s s''

/-- A step with notes accounts for the step without in a state: it does the same and notes some
events, and the state changes as it may with these events. -/
def AccountsAt (R : Change ε σ) (Q : α → Prop) (act : Render σ α) (act' : Render (Traced ε σ) α)
    (s : State σ) : Prop :=
  ∀ es, ∃ ds, act'.run (Traced.ofState s es) =
      ((act.run s).1, Traced.ofState (act.run s).2 (ds ++ es)) ∧
    R ds s (act.run s).2 ∧ ∀ a, (act.run s).1 = .ok a → Q a

/-- **A step with notes accounts for the step without** in every state. -/
def Accounts (R : Change ε σ) (Q : α → Prop) (act : Render σ α) (act' : Render (Traced ε σ) α) :
    Prop := ∀ s, AccountsAt R Q act act' s

/-- A note changes what it may, and nothing of the state. -/
abbrev Quiet (R : Change ε σ) (note : Render (Traced ε σ) Unit) : Prop :=
  Accounts R (fun _ => True) (pure ()) note

namespace Accounts

variable {R R' : Change ε σ} {Q : α → Prop} {act : Render σ α} {act' : Render (Traced ε σ) α}

theorem mono (h : Accounts R Q act act') (hR : ∀ ds s s', R ds s s' → R' ds s s') :
    Accounts R' Q act act' := by
  intro s es
  obtain ⟨ds, hrun, hchange, hQ⟩ := h s es
  exact ⟨ds, hrun, hR _ _ _ hchange, hQ⟩

/-- What a step changes is known from its notes. -/
theorem change (h : Accounts R Q act act') {s : State σ} {ds : List ε}
    (hrun : act'.run (Traced.ofState s []) = ((act.run s).1, Traced.ofState (act.run s).2 ds)) :
    R ds s (act.run s).2 := by
  obtain ⟨ds', hrun', hchange, _⟩ := h s []
  have hds : ds = ds' ++ [] :=
    congrArg (·.2.host.history) (hrun.symm.trans hrun')
  rw [hds, List.append_nil]
  exact hchange

/-- A step that notes nothing and whose result is nothing in particular. -/
theorem of_run (h : ∀ s es, act'.run (Traced.ofState s es) =
      ((act.run s).1, Traced.ofState (act.run s).2 es)) (hR : ∀ s, R [] s (act.run s).2) :
    Accounts R (fun _ => True) act act' :=
  fun s es => ⟨[], h s es, hR s, fun _ _ => trivial⟩

/-- Steps in sequence, whose changes may be of different kinds. The second may rely on what the first
does. -/
theorem bindVia {R₁ R₂ R₃ : Change ε σ} {P : α → Prop} {Q : β → Prop} {next : α → Render σ β}
    {next' : α → Render (Traced ε σ) β} {s : State σ}
    (stop : ∀ {ds s s'}, R₁ ds s s' → R₃ ds s s')
    (go : ∀ {ds ds' s s' s''}, R₁ ds s s' → R₂ ds' s' s'' → R₃ (ds' ++ ds) s s'')
    (h : AccountsAt R₁ P act act' s)
    (hn : ∀ a s', act.run s = (.ok a, s') → P a → AccountsAt R₂ Q (next a) (next' a) s') :
    AccountsAt R₃ Q (act >>= next) (act' >>= next') s := by
  intro es
  obtain ⟨ds, hrun, hchange, hP⟩ := h es
  rw [run_bind, run_bind, hrun]
  rcases hs : act.run s with ⟨e | a, s'⟩
  · rw [hs] at hchange
    exact ⟨ds, rfl, stop hchange, nofun⟩
  · rw [hs] at hchange hP
    obtain ⟨ds', hrun', hchange', hQ⟩ := hn a s' hs (hP a rfl) (ds ++ es)
    exact ⟨ds' ++ ds, by rw [List.append_assoc]; exact hrun', go hchange hchange', hQ⟩

theorem bind {P : α → Prop} {Q : β → Prop} {next : α → Render σ β}
    {next' : α → Render (Traced ε σ) β} (hR : Composes R) (h : Accounts R P act act')
    (hn : ∀ a, P a → Accounts R Q (next a) (next' a)) :
    Accounts R Q (act >>= next) (act' >>= next') :=
  fun s => bindVia id hR.trans (h s) fun a s' _ ha => hn a ha s'

/-- Nothing is done, and the result is what it should be. -/
theorem ret (hR : Composes R) {a : α} (ha : Q a) : Accounts R Q (pure a) (pure a) := by
  refine fun s es => ⟨[], rfl, hR.refl s, fun b hb => ?_⟩
  cases hb
  exact ha

/-- A note before a step. -/
theorem noting {note : Render (Traced ε σ) Unit} (hR : Composes R) (hn : Quiet R note)
    (h : Accounts R Q act act') : Accounts R Q act (note >>= fun _ => act') := by
  have hboth := bind hR hn fun _ _ => h
  rwa [pure_bind] at hboth

/-- A note behind a step, which may be one of its result. -/
theorem noted {note : α → Render (Traced ε σ) Unit} (hR : Composes R) (h : Accounts R Q act act')
    (hn : ∀ a, Quiet R (note a)) :
    Accounts R Q act (act' >>= fun a => note a >>= fun _ => pure a) := by
  have hboth : Accounts R Q (act >>= pure) (act' >>= fun a => note a >>= fun _ => pure a) :=
    bind hR h fun a ha => noting hR (hn a) (ret hR ha)
  rwa [bind_pure] at hboth

/-- What is made of a result changes nothing more. -/
theorem andReturn {P : α → Prop} {Q : β → Prop} {next : α → Render σ β}
    {next' : α → Render (Traced ε σ) β} (h : Accounts R P act act')
    (hn : ∀ a, Accounts (fun ds s s' => ds = [] ∧ s' = s) Q (next a) (next' a)) :
    Accounts R Q (act >>= next) (act' >>= next') :=
  fun s => bindVia id (fun h ⟨hds, hs⟩ => by rwa [hds, hs]) (h s) fun a s' _ _ => hn a s'

/-- A step that is undone in part changes what its change becomes by that. -/
theorem around {enter : Sheet → Sheet} {leave : Sheet → Sheet → Sheet} (h : Accounts R Q act act')
    (hR : ∀ ds s s', R ds { s with sheet := enter s.sheet } s' →
      R' ds s { s' with sheet := leave s.sheet s'.sheet }) :
    Accounts R' Q (Render.around act enter leave) (Render.around act' enter leave) := by
  intro s es
  obtain ⟨ds, hrun, hchange, hQ⟩ := h { s with sheet := enter s.sheet } es
  refine ⟨ds, ?_, hR ds s _ hchange, hQ⟩
  rw [run_around, run_around]
  exact congrArg (fun r => (r.1, { r.2 with sheet := leave s.sheet r.2.sheet })) hrun

/-- An event before a step. -/
theorem opening {e : ε} (h : Accounts R Q act act')
    (hR : ∀ {ds s s'}, R ds s s' → R' (ds ++ [e]) s s') :
    Accounts R' Q act (Traced.note e >>= fun _ => act') := by
  intro s es
  obtain ⟨ds, hrun, hchange, hQ⟩ := h s (e :: es)
  refine ⟨ds ++ [e], ?_, hR hchange, hQ⟩
  rw [List.append_assoc]
  exact hrun

/-- An event behind a step. -/
theorem closing {e : Sheet → ε} (h : Accounts R Q act act')
    (hR : ∀ {ds s s'}, R ds s s' → R' (e s'.sheet :: ds) s s') :
    Accounts R' Q act (Traced.closing e act') := by
  intro s es
  obtain ⟨ds, hrun, hchange, hQ⟩ := h s es
  refine ⟨e (act.run s).2.sheet :: ds, ?_, hR hchange, hQ⟩
  exact congrArg (fun r : Except RenderError α × State (Traced ε σ) =>
    (r.1, { r.2 with host := { r.2.host with history := e r.2.sheet :: r.2.host.history } })) hrun

/-- A declaration of a function of which nothing is noted. -/
theorem declareFunction [Log.Sink σ] (hR : Composes R) (host : ∀ s h, R [] s { s with host := h })
    (insert : ∀ (s : State σ) n f,
      R [] s { s with sheet := { s.sheet with functions := s.sheet.functions.insert n f } })
    {signature : Signature} {body : List Stmt} :
    Accounts R (fun _ => True) (Render.declareFunction signature body)
      (Render.declareFunction signature body) :=
  .bind hR (.of_run (fun _ _ => rfl) fun s => host s _) fun _ _ =>
    .of_run (fun _ _ => rfl) fun s => insert s _ _

end Accounts

/-- Steps that account for each other are in concord. -/
def Composes.concord {R : Change ε σ} (hR : Composes R) : Concord σ (Traced ε σ) where
  ok _ := True
  Known _ := True
  Rel := Accounts R
  weaken h hQ s es := by
    obtain ⟨ds, hrun, hchange, hP⟩ := h s es
    exact ⟨ds, hrun, hchange, fun a ha => hQ a (hP a ha)⟩
  ret := Accounts.ret hR
  fail e s es := ⟨[], rfl, hR.refl s, nofun⟩
  seq := Accounts.bind hR
  sheet s es := ⟨[], rfl, hR.refl s, fun _ _ _ _ => trivial⟩
  module? p s es := ⟨[], rfl, hR.refl s, fun _ _ _ _ _ _ => trivial⟩

/-! ### Ledgers -/

/-- What a rule does with the module that it gets: it names it, or takes its members. -/
inductive Taking : State σ → State σ → Prop
  | flat (s : State σ) (l : Builtin.Library) : Taking s { s with sheet := { s.sheet with
      namespaces := { s.sheet.namespaces with flat := s.sheet.namespaces.flat ++ [l] } } }
  | named {s : State σ} (n : Name) {space : Namespace} (hs : space.Reaches s.modules) :
      Taking s { s with sheet := { s.sheet with
        namespaces := { s.sheet.namespaces with
          named := s.sheet.namespaces.named.insert n space } } }
  | merged {s : State σ} {p : Path} {m : Module} (front : Name)
      (hm : s.modules.find? p = some m) : Taking s { s with sheet := s.sheet.merge m front }

/-- What a rule changes that gets a module, and may do something with it then. -/
def Taken (Loaded : Change ε σ) : Change ε σ := fun ds s s' =>
  ∃ s₁, Loaded ds s s₁ ∧ (s' = s₁ ∨ Taking s₁ s')

/-- **A ledger:** what is noted, and how much a step may change that notes some events. -/
structure Ledger (ε σ : Type) [Log.Sink σ] where
  notes : Notes (Traced ε σ)
  /-- An expression. -/
  Called : Change ε σ
  /-- A statement. -/
  Ran : Ground → Change ε σ
  /-- What a rule does to get a module. -/
  Loaded : Change ε σ
  /-- What is known of every function in reach. Expressions leave it as it is. -/
  Known : State σ → UserFunction → Prop := fun _ _ => True
  known_called : ∀ {ds : List ε} {s s' : State σ}, Called ds s s' →
    ∀ f, Known s' f ↔ Known s f := by exact fun _ _ => Iff.rfl
  known_sheet : ∀ s : State σ, s.sheet.functions.All (Known s) := by exact fun _ _ _ => trivial
  known_module : ∀ {s : State σ} {p : Path} {m : Module}, s.modules.find? p = some m →
    m.functions.All (Known s) := by exact fun _ _ _ => trivial
  called : Composes Called
  ran (g : Ground) : Composes (Ran g)
  loaded : Composes Loaded
  ran_of_called (g : Ground) {ds : List ε} {s s' : State σ} : Called ds s s' → Ran g ds s s'
  loaded_of_called {ds : List ε} {s s' : State σ} : Called ds s s' → Loaded ds s s'
  /-- A loop of a stylesheet is a statement of it. -/
  top_of_loop {ds : List ε} {s s' : State σ} : Ran .loop ds s s' → Ran .top ds s s'
  host (s : State σ) (h : σ) : Called [] s { s with host := h }
  before (g : Ground) : Quiet (Ran g) notes.before
  behind (g : Ground) : Quiet (Ran g) notes.behind
  default (g : Ground) : Quiet (Ran g) notes.default
  start (g : Ground) : Quiet (Ran g) notes.start
  value (v : Value) : Quiet Called (notes.value v)
  /-- Loops are run as ever. -/
  loops : notes.loops = .within
  assign (g : Ground) (s : State σ) (n : Name) (v : Value) :
    Ran g [] s { s with sheet := { s.sheet with scopes := s.sheet.scopes.assign n v } }
  global (g : Ground) (n : Name) (v : Value) :
    Accounts (Ran g) (fun _ => True) (modifyScopes (·.setGlobal n v))
      (notes.global >>= fun _ => modifyScopes (·.setGlobal n v))
  function {g : Ground} (hg : g ≠ .function) (signature : Signature) (body : List Stmt) :
    Accounts (Ran g) (fun _ => True) (declareFunction signature body)
      (notes.declaring signature body >>= fun _ => declareFunction signature body)
  block (g : Ground) (scope : Scope) {ds : List ε} {s s' : State σ} :
    Ran g ds { s with sheet := { s.sheet with scopes := s.sheet.scopes.push scope } } s' →
      Ran g ds s { s' with sheet := { s'.sheet with scopes := s'.sheet.scopes.pop } }
  /-- A rule that loads a module is a statement at the top of a file. -/
  load {act : Render σ (Option Value)} {act' : Render (Traced ε σ) (Option Value)} :
    Accounts (Taken Loaded) (fun _ => True) act act' →
      Accounts (Ran .top) (fun _ => True) act (notes.load act')

namespace Ledger

variable [Log.Sink σ] (L : Ledger ε σ)

/-- Calls of functions in reach are accounted for. -/
def Callers (caller : Caller σ) (caller' : Caller (Traced ε σ)) : Prop :=
  ∀ name f args s, L.Known s f →
    AccountsAt L.Called (fun _ => True) (caller name f args) (caller' name f args) s

/-- Steps of expressions are in concord where the same is known of functions as in a state. -/
def expressions (s : State σ) : Concord σ (Traced ε σ) where
  ok _ := True
  Known := L.Known s
  Rel Q act act' := ∀ s', (∀ f, L.Known s' f ↔ L.Known s f) → AccountsAt L.Called Q act act' s'
  weaken h hQ s' hs es := by
    obtain ⟨ds, hrun, hchange, hP⟩ := h s' hs es
    exact ⟨ds, hrun, hchange, fun a ha => hQ a (hP a ha)⟩
  ret ha s' _ := Accounts.ret L.called ha s'
  fail e s' _ := L.called.concord.fail e s'
  seq h hn s' hs := by
    -- the second step starts where the first ends, and there the same is known as before
    refine Accounts.bindVia id L.called.trans (h s' hs) fun a s'' hrun ha => hn a ha s'' fun f => ?_
    obtain ⟨ds, _, hchange, _⟩ := h s' hs []
    rw [hrun] at hchange
    exact (L.known_called hchange f).trans (hs f)
  sheet s' hs es := by
    refine ⟨[], rfl, L.called.refl s', fun sheet hsheet => ?_⟩
    cases hsheet
    exact fun e he => (hs e.2).1 (L.known_sheet s' e he)
  module? p s' hs es := by
    refine ⟨[], rfl, L.called.refl s', fun m hm => ?_⟩
    cases hm
    exact fun m hm e he => (hs e.2).1 (L.known_module hm e he)

/-- What one statement reaches other files by is accounted for. A rule that configures a module sets
each variable of it once, and gets a module that is kept. -/
structure Loaders (loader : Loader σ) (loader' : Loader (Traced ε σ)) : Prop where
  importFile : ∀ url,
    Accounts (L.Ran .top) (fun _ => True) (loader.importFile url) (loader'.importFile url)
  moduleOf : ∀ url (bindings : Bindings), bindings.Distinct →
    Accounts L.Loaded (fun _ => True) (loader.moduleOf url bindings) (loader'.moduleOf url bindings)
  kept : ∀ {url bindings s p m s'}, (loader.moduleOf url bindings).run s = (.ok (p, m), s') →
    s'.modules.find? p = some m

/-- Two places where the same statements stand. -/
inductive Places : Place σ → Place (Traced ε σ) → Prop
  | top {loader : Loader σ} {loader' : Loader (Traced ε σ)} (h : L.Loaders loader loader') :
      Places (.top loader) (.top loader')
  | loop : Places .loop .loop
  | function : Places .function .function

variable {L}

namespace Places

variable {place : Place σ} {place' : Place (Traced ε σ)}

theorem isFunction_eq (h : L.Places place place') : place'.isFunction = place.isFunction := by
  cases h <;> rfl

theorem inner (h : L.Places place place') : L.Places place.inner place'.inner := by
  cases h with
  | top _ => exact .loop
  | loop => exact .loop
  | function => exact .function

end Places

/-- What the body of a loop changes, the loop changes. -/
theorem ran_of_inner (L : Ledger ε σ) {place : Place σ} {ds : List ε} {s s' : State σ}
    (h : L.Ran place.inner.ground ds s s') : L.Ran place.ground ds s s' := by
  cases place with
  | top _ => exact L.top_of_loop h
  | loop => exact h
  | function => exact h

/-- A step of the host is accounted for. -/
theorem lift (L : Ledger ε σ) (step : StateM σ α) :
    Accounts L.Called (fun _ => True) (ofHost step) (ofHost (Traced.lift step)) :=
  .of_run (fun _ _ => rfl) fun s => L.host s _

theorem answers (L : Ledger ε σ) (s : State σ) (h : Host σ) :
    (L.expressions s).Answers h (Traced.host h) := by
  intro name _
  rw [Traced.find?_host]
  cases h.functions.function? name with
  | none => exact .inl ⟨rfl, rfl⟩
  | some f => exact .inr ⟨f, _, rfl, rfl, fun args s' _ => L.lift (f args) s'⟩

theorem assigning (L : Ledger ε σ) (g : Ground) (n : Name) (v : Value) :
    Accounts (L.Ran g) (fun _ => True) (Eval.assign n v) (Eval.assign n v) :=
  .of_run (fun _ _ => rfl) fun s => L.assign g s n v

theorem inScope {g : Ground} {Q : α → Prop} {act : Render σ α} {act' : Render (Traced ε σ) α}
    (scope : Scope) (ha : Accounts (L.Ran g) Q act act') :
    Accounts (L.Ran g) Q (Render.inScope scope act) (Render.inScope scope act') :=
  ha.around fun _ _ _ => L.block g scope

/-- A round of a loop is a block in which its body runs. -/
theorem inRound {place : Place σ} {Q : α → Prop} {act : Render σ α} {act' : Render (Traced ε σ) α}
    (scope : Scope) (ha : Accounts (L.Ran place.inner.ground) Q act act') :
    Accounts (L.Ran place.ground) Q (Render.inScope scope act)
      (Render.inScope scope (L.notes.start >>= fun _ => act')) :=
  (inScope scope (.noting (L.ran _) (L.start _) ha)).mono fun _ _ _ => L.ran_of_inner

theorem silent {g : Ground} {act : Render σ Unit} {act' : Render (Traced ε σ) Unit}
    (ha : Accounts (L.Ran g) (fun _ => True) act act') :
    Accounts (L.Ran g) (fun _ => True) (Stmt.silent act) (Stmt.silent act') :=
  (L.ran g).concord.andThen ha fun _ => (L.ran g).concord.same_ret _

/-- What a rule changes. -/
abbrev Taken (L : Ledger ε σ) : Change ε σ := Stylesheet.Taken L.Loaded

theorem taken_of_loaded (L : Ledger ε σ) {ds : List ε} {s s' : State σ} (h : L.Loaded ds s s') :
    L.Taken ds s s' := ⟨s', h, .inl rfl⟩

/-- A rule may do something with the module behind the steps by which it gets it. -/
theorem getting (L : Ledger ε σ) {s : State σ} {P : α → Prop} {Q : β → Prop} {act : Render σ α}
    {act' : Render (Traced ε σ) α} {next : α → Render σ β} {next' : α → Render (Traced ε σ) β}
    (h : AccountsAt L.Loaded P act act' s)
    (hn : ∀ a s', act.run s = (.ok a, s') → P a → AccountsAt L.Taken Q (next a) (next' a) s') :
    AccountsAt L.Taken Q (act >>= next) (act' >>= next') s :=
  Accounts.bindVia L.taken_of_loaded
    (fun hget ⟨s₁, hload, htake⟩ => ⟨s₁, L.loaded.trans hget hload, htake⟩) h hn

/-- What a rule does with its module. -/
theorem taking (L : Ledger ε σ) {s : State σ} {f : Sheet → Sheet}
    (h : Taking s { s with sheet := f s.sheet }) :
    AccountsAt L.Taken (fun _ => True) (modifySheet f) (modifySheet f) s :=
  fun _ => ⟨[], rfl, ⟨s, L.loaded.refl s, .inr h⟩, fun _ _ => trivial⟩

section

variable (h : Host σ) {caller : Caller σ} {caller' : Caller (Traced ε σ)}
  (callers : L.Callers caller caller')
include callers

/-! ### Expressions -/

theorem eval (e : Expr) :
    Accounts L.Called (fun _ => True) (e.eval h caller) (e.eval (Traced.host h) caller') :=
  fun s => Concord.eval (C := L.expressions s) (L.answers s h)
    (fun name f args hf s' hs => callers name f args s' ((hs f).2 hf)) e (fun _ _ => trivial) s
    fun _ => Iff.rfl

/-- **An expression** is accounted for wherever it stands. -/
theorem evalIn (g : Ground) (e : Expr) :
    Accounts (L.Ran g) (fun _ => True) (e.eval h caller) (e.eval (Traced.host h) caller') :=
  (eval h callers e).mono fun _ _ _ => L.ran_of_called g

/-- The value of an expression that goes to a variable. -/
theorem evaluate (e : Expr) :
    Accounts L.Called (fun _ => True) (e.eval h caller)
      (Noted.evaluate L.notes (Traced.host h) caller' e) :=
  (eval h callers e).noted L.called L.value

/-- The value that stands in for a missing argument. -/
theorem defaulted (g : Ground) (e : Expr) :
    Accounts (L.Ran g) (fun _ => True) (e.eval h caller)
      (Noted.default L.notes (Traced.host h) caller' e) :=
  .noting (L.ran g) (L.default g) ((evaluate h callers e).mono fun _ _ _ => L.ran_of_called g)

/-- Binding arguments is accounted for, with a note before each default. -/
theorem bind (g : Ground) (function : String) (count : Nat) (ps : List Parameter)
    (args : Arguments) :
    Accounts (L.Ran g) (fun _ => True) (Eval.bind (·.eval h caller) function count ps args)
      (Eval.bind (Noted.default L.notes (Traced.host h) caller') function count ps args) := by
  let C := (L.ran g).concord
  induction ps generalizing args with
  | nil =>
    -- arguments that no parameter takes are left
    obtain ⟨positional, named⟩ := args
    rcases positional with _ | ⟨v, vs⟩
    · rcases named with _ | ⟨k, ks⟩
      · exact C.same_ret _
      · exact C.fail _
    · exact C.fail _
  | cons p ps ih =>
    unfold Eval.bind
    dsimp only
    split
    · exact C.andThen (L.assigning g _ _) fun _ => ih _
    · cases args.positional with
      | cons v vs => exact C.andThen (L.assigning g _ _) fun _ => ih _
      | nil =>
        cases Eval.takeNamed (Name.ofString p.name) args.named with
        | some vn => exact C.andThen (L.assigning g _ _) fun _ => ih _
        | none =>
          cases p.default with
          | none => exact C.fail _
          | some e =>
            exact C.andThen (defaulted h callers g e) fun v =>
              C.andThen (L.assigning g _ _) fun _ => ih _

/-- **A declaration** is accounted for, with the note of one that is `!global`. -/
theorem declare (g : Ground) (name : String) (e : Expr) (isDefault isGlobal : Bool) :
    Accounts (L.Ran g) (fun _ => True) (Render.declare (·.eval h caller) name e isDefault isGlobal)
      (Render.declare (Noted.declared L.notes (Traced.host h) caller' isGlobal) name e isDefault
        isGlobal) := by
  unfold Render.declare
  refine (L.ran g).concord.andThen (L.ran g).concord.sheet fun sheet => ?_
  dsimp only
  -- a default that is left as it is evaluates nothing
  split
  · exact (L.ran g).concord.same_ret _
  · have value := (evaluate h callers e).mono fun _ _ _ => L.ran_of_called g
    cases isGlobal with
    | false =>
      simp only [Noted.declared, Bool.false_eq_true, if_false, bind_pure]
      exact (L.ran g).concord.andThen value fun v => L.assigning g _ v
    | true =>
      simp only [Noted.declared, if_true, bind_assoc, pure_bind]
      exact (L.ran g).concord.andThen value fun v => L.global g _ v

/-! ### Rules that load modules -/

section

variable {loader : Loader σ} {loader' : Loader (Traced ε σ)} (hl : L.Loaders loader loader')
include hl

omit callers in
theorem importAll (urls : List String) :
    Accounts (L.Ran .top) (fun _ => True) (urls.forM loader.importFile)
      (urls.forM loader'.importFile) := by
  induction urls with
  | nil => exact (L.ran .top).concord.same_ret _
  | cons url urls ih => exact (L.ran .top).concord.andThen (hl.importFile url) fun _ => ih

omit hl in
theorem configure (header : LoadHeader) :
    Accounts L.Loaded Table.Distinct (Render.configure (·.eval h caller) header)
      (Render.configure (Noted.evaluate L.notes (Traced.host h) caller') header) :=
  Concord.configure (C := L.loaded.concord)
    (fun e _ => (evaluate h callers e).mono fun _ _ _ => L.loaded_of_called) fun _ _ => trivial

theorem use (header : LoadHeader) :
    Accounts L.Taken (fun _ => True) (Render.use (·.eval h caller) loader header)
      (Render.use (Noted.evaluate L.notes (Traced.host h) caller') loader' header) := by
  let C := L.loaded.concord
  intro s
  unfold Render.use
  refine L.getting (C.ensureFree _ s) fun _ s₁ _ _ => ?_
  cases header.libraryName? with
  | some library =>
    refine L.getting (C.libraryOf header.url library s₁) fun l s₂ _ _ => ?_
    unfold Render.useLibrary
    split
    · exact (C.fail _).mono (fun _ _ _ => L.taken_of_loaded) s₂
    · cases header.namespace? with
      | some n => exact L.taking (.named n trivial)
      | none => exact L.taking (.flat s₂ l)
  | none =>
    refine L.getting (configure h callers header s₁) fun bindings s₂ _ hb =>
      L.getting (hl.moduleOf header.url bindings hb s₂) fun pm s₃ hs _ => ?_
    have hkept := hl.kept hs
    dsimp only
    cases header.namespace? with
    | some n => exact L.taking (.named n ⟨pm.2, hkept⟩)
    | none => exact L.taking (.merged header.front hkept)

theorem forward (header : LoadHeader) :
    Accounts L.Taken (fun _ => True) (Render.forward (·.eval h caller) loader header)
      (Render.forward (Noted.evaluate L.notes (Traced.host h) caller') loader' header) := by
  let C := L.loaded.concord
  intro s
  unfold Render.forward
  cases header.libraryName? with
  | some library =>
    exact L.getting (C.libraryOf header.url library s) fun l s₁ _ _ => L.taking (.flat s₁ l)
  | none =>
    exact L.getting (configure h callers header s) fun bindings s₁ _ hb =>
      L.getting (hl.moduleOf header.url bindings hb s₁) fun pm s₂ hs _ =>
        L.taking (.merged header.front (hl.kept hs))

end

end

/-! ### Statements -/

theorem report (L : Ledger ε σ) (level : Log.Level) (text : String) :
    Accounts L.Called (fun _ => True) (Render.report level text) (Render.report level text) :=
  .of_run (fun _ _ => rfl) fun s => L.host s _

theorem reportValue (g : Ground) (what : Report) (v : Value) :
    Accounts (L.Ran g) (fun _ => True) (Render.reportValue what v) (Render.reportValue what v) := by
  cases what with
  | error => exact (L.ran g).concord.fail _
  | warn => exact (L.report _ _).mono fun _ _ _ => L.ran_of_called g
  | debug => exact (L.report _ _).mono fun _ _ _ => L.ran_of_called g

/-! ### Loops

What is left of the rounds of a loop may be less than what a block changes: any change will do that
comes of expressions and rounds. -/

section

variable (h : Host σ) (limits : Limits) {caller : Caller σ} {caller' : Caller (Traced ε σ)}
  {place : Place σ} {place' : Place (Traced ε σ)} {body : List Stmt} {R : Change ε σ}
  (hR : Composes R)
  (value : ∀ e : Expr,
    Accounts R (fun _ => True) (e.eval h caller) (e.eval (Traced.host h) caller'))
  (round : ∀ scope : Scope, scope.control = true → Accounts R (fun _ => True)
    (Render.inScope scope (Stmt.execAll h limits caller place.inner body))
    (Render.inScope scope (do
      L.notes.start
      Noted.execAll L.notes (Traced.host h) limits caller' place'.inner body)))
include hR value round

theorem each (header : Except Fault EachHeader) :
    Accounts R (fun _ => True) (Stmt.exec h limits caller place (.each header body))
      (Noted.exec L.notes (Traced.host h) limits caller' place' (.each header body)) := by
  let C := hR.concord
  exact C.andThen (C.ofFault header) fun h => C.andThen (value h.list) fun list =>
    C.forEach trivial (fun _ => round _ rfl) _

theorem «for» (header : Except Fault ForHeader) :
    Accounts R (fun _ => True) (Stmt.exec h limits caller place (.for header body))
      (Noted.exec L.notes (Traced.host h) limits caller' place' (.for header body)) := by
  let C := hR.concord
  simp only [Noted.exec, L.loops]
  exact C.andThen (C.ofFault header) fun h =>
    C.andThen (value h.first) fun first => C.andThen (C.integer first) fun first =>
    C.andThen (value h.last) fun last => C.andThen (C.integer last) fun last =>
    C.count trivial _ _ (fun _ => round _ rfl) _ _ _

theorem «while» (condition : Expr) :
    Accounts R (fun _ => True) (Stmt.exec h limits caller place (.while condition body))
      (Noted.exec L.notes (Traced.host h) limits caller' place' (.while condition body)) := by
  simp only [Noted.exec, L.loops]
  exact hR.concord.whileHolds trivial _ (value condition) (round _ rfl) _

end

section

variable (h : Host σ) {caller : Caller σ} {caller' : Caller (Traced ε σ)}
  (callers : L.Callers caller caller') (limits : Limits)
include callers

/-- **A rule that loads a module** is accounted for, with the notes around it. -/
theorem loadRule {loader : Loader σ} {loader' : Loader (Traced ε σ)}
    (hl : L.Loaders loader loader') (what : Load) (header : Except Fault LoadHeader) :
    Accounts (L.Ran .top) (fun _ => True)
      (Stmt.exec h limits caller (.top loader) (.load what header))
      (Noted.exec L.notes (Traced.host h) limits caller' (.top loader') (.load what header)) := by
  have silent {act : Render σ Unit} {act' : Render (Traced ε σ) Unit}
      (ha : Accounts L.Taken (fun _ => True) act act') :
      Accounts L.Taken (fun _ => True) (Stmt.silent act) (Stmt.silent act') :=
    ha.andReturn fun _ _ _ => ⟨[], rfl, ⟨rfl, rfl⟩, fun _ _ => trivial⟩
  rw [Noted.exec, Stmt.exec]
  refine L.load fun s => L.getting (L.loaded.concord.ofFault header s) fun header s₁ _ _ => ?_
  cases what with
  | use => exact silent (use h callers hl header) s₁
  | forward => exact silent (forward h callers hl header) s₁

omit callers

mutual

/-- **A statement** is accounted for, wherever it stands. -/
theorem exec (callers : L.Callers caller caller') {place : Place σ} {place' : Place (Traced ε σ)}
    (hp : L.Places place place') (s : Stmt) :
    Accounts (L.Ran place.ground) (fun _ => True) (s.exec h limits caller place)
      (Noted.exec L.notes (Traced.host h) limits caller' place' s) := by
  let C := (L.ran place.ground).concord
  have value (e : Expr) := evalIn h callers place.ground e
  cases s with
  | inert => exact C.same_ret _
  | declare name e isDefault isGlobal =>
    exact silent (declare h callers place.ground name e isDefault isGlobal)
  | rule body =>
    simp only [Noted.exec, Stmt.exec, hp.isFunction_eq]
    split
    · exact C.fail _
    · exact inScope _ (execAll callers hp body)
  | «scoped» keyword body =>
    simp only [Noted.exec, Stmt.exec, hp.isFunction_eq]
    split
    · exact C.fail _
    · exact inScope _ (execAll callers hp body)
  | choose links otherwise => exact execLinks callers hp (execAll callers hp otherwise) links
  | strayElse => exact C.fail _
  | each header body =>
    exact each h limits (L.ran _) value (fun _ _ => inRound _ (execAll callers hp.inner body)) _
  | «for» header body =>
    exact «for» h limits (L.ran _) value (fun _ _ => inRound _ (execAll callers hp.inner body)) _
  | «while» condition body =>
    exact «while» h limits (L.ran _) value (fun _ _ => inRound _ (execAll callers hp.inner body)) _
  | report what e =>
    exact C.andThen (value e) fun v => C.andThen (reportValue _ what v) fun _ => C.same_ret _
  | «return» e =>
    simp only [Noted.exec, Stmt.exec, hp.isFunction_eq]
    split
    · exact C.andThen (value e) fun v => C.same_ret _
    · exact C.fail _
  | function signature body =>
    simp only [Noted.exec, Stmt.exec, hp.isFunction_eq]
    split
    · exact C.fail _
    · next hf =>
      have hg : place.ground ≠ .function := by
        intro hg
        cases place <;> first | exact hf rfl | cases hg
      refine C.andThen (C.ofFault signature) fun s => ?_
      rw [← bind_assoc]
      exact C.andThen (L.function hg s body) fun _ => C.same_ret _
  | imports urls =>
    cases hp with
    | top hl => exact silent (importAll hl urls)
    | loop => exact C.fail _
    | function => exact C.fail _
  | load what header =>
    cases hp with
    -- there are no notes of a rule that is refused
    | top hl => exact loadRule h callers limits hl what header
    | loop => exact C.fail _
    | function => exact C.fail _
  | other keyword =>
    simp only [Noted.exec, Stmt.exec, hp.isFunction_eq]
    split
    · exact C.fail _
    · exact silent ((L.report _ _).mono fun _ _ _ => L.ran_of_called _)

/-- **Statements** are accounted for, wherever they stand. -/
theorem execAll (callers : L.Callers caller caller') {place : Place σ}
    {place' : Place (Traced ε σ)} (hp : L.Places place place') (ss : List Stmt) :
    Accounts (L.Ran place.ground) (fun _ => True) (Stmt.execAll h limits caller place ss)
      (Noted.execAll L.notes (Traced.host h) limits caller' place' ss) := by
  let C := (L.ran place.ground).concord
  match ss with
  | [] => exact C.same_ret _
  | s :: ss =>
    rw [Stmt.execAll, Noted.execAll]
    refine .noting (L.ran _) (L.before _) (C.andThen (exec callers hp s) fun r => ?_)
    refine .noting (L.ran _) (L.behind _) ?_
    -- behind a statement that returns, none runs and none is looked at
    cases r with
    | some v => exact C.same_ret _
    | none => exact execAll callers hp ss

theorem execLinks (callers : L.Callers caller caller') {place : Place σ}
    {place' : Place (Traced ε σ)} (hp : L.Places place place')
    {otherwise : Render σ (Option Value)} {otherwise' : Render (Traced ε σ) (Option Value)}
    (ho : Accounts (L.Ran place.ground) (fun _ => True) otherwise otherwise')
    (links : List (Expr × List Stmt)) :
    Accounts (L.Ran place.ground) (fun _ => True)
      (Stmt.execLinks h limits caller place otherwise links)
      (Noted.execLinks L.notes (Traced.host h) limits caller' place' otherwise' links) := by
  let C := (L.ran place.ground).concord
  match links with
  | [] => exact ho
  | (condition, body) :: links =>
    refine C.andThen (evalIn h callers place.ground condition) fun v => ?_
    split
    · exact execAll callers hp body
    · exact execLinks callers hp ho links

end

end

end Ledger
end Stylesheet
