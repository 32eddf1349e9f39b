import Stylesheet.Proofs.Render.Ledger
import Stylesheet.Proofs.Render.Loading

/-!
# What calls and files change

The body of a function runs at home, in a block that sees no other; a file runs in the stylesheet
that imports it or in one of its own. What is left of it in the state is less than what it changed.

* `Render.IsHome`, `Render.IsAway`: the stylesheet in which the body of a function runs.
* `Ledger.Calling`: what has to be left of a call, an import and a module.
* `Ledger.callAt`, `Ledger.loaderAt`: calls and files are accounted for.
-/

namespace Stylesheet

variable {ε σ α : Type}

/-! ### Home -/

namespace Sheet

/-- The stylesheet as the body of a function sees it: no block is open but that of the function. -/
def framed (s : Sheet) : Sheet :=
  { s with scopes := { s.scopes with locals := [⟨.empty, false⟩] } }

/-- The stylesheet behind the body of a function, with the blocks that were open before it. -/
def unframed (before after : Sheet) : Sheet :=
  { after with scopes := { after.scopes with locals := before.scopes.locals } }

end Sheet

namespace Render

/-- The stylesheet that declares a function is the one that is running. -/
def IsHome (f : UserFunction) (s : Sheet) : Prop := f.home.all (fun p => s.path == some p) = true

/-- The stylesheet that declares a function is that of another module, which is loaded. -/
def IsAway (f : UserFunction) (s : State σ) (p : Path) (m : Module) : Prop :=
  f.home = some p ∧ (s.sheet.path == some p) = false ∧ s.modules.find? p = some m

theorem isHome_iff {f : UserFunction} {p : Path} (hp : f.home = some p) (s : Sheet) :
    IsHome f s ↔ (s.path == some p) = true := by
  unfold IsHome
  rw [hp, Option.all_some]

theorem isHome_or_isAway (f : UserFunction) (s : State σ) :
    IsHome f s.sheet ∨ (∃ p m, IsAway f s p m) ∨
      ∃ p, f.home = some p ∧ (s.sheet.path == some p) = false ∧ s.modules.find? p = none := by
  cases hp : f.home with
  | none => exact .inl (by rw [IsHome, hp, Option.all_none])
  | some p =>
    cases hpath : s.sheet.path == some p with
    | true => exact .inl ((isHome_iff hp _).2 hpath)
    | false =>
      cases hm : s.modules.find? p with
      | some m => exact .inr (.inl ⟨p, m, hp, hpath, hm⟩)
      | none => exact .inr (.inr ⟨p, rfl, hpath, hm⟩)

variable (name : String) {f : UserFunction} {s : State σ} (act : Render σ α)

/-- Where its stylesheet is running, what a function does stays done, but for its blocks. -/
theorem run_atHome_home (h : IsHome f s.sheet) :
    (atHome name f act).run s = ((act.run { s with sheet := s.sheet.framed }).1,
      { (act.run { s with sheet := s.sheet.framed }).2 with
        sheet := s.sheet.unframed (act.run { s with sheet := s.sheet.framed }).2.sheet }) := by
  unfold atHome
  cases hp : f.home with
  | none => rfl
  | some p =>
    change (ite _ (inFrame act) _ : Render σ α).run s = _
    rw [if_pos ((isHome_iff hp _).1 h)]
    rfl

/-- Elsewhere it runs with the members of its module. -/
theorem run_atHome_of_ne {p : Path} (hp : f.home = some p)
    (hpath : (s.sheet.path == some p) = false) :
    (atHome name f act).run s = (match s.modules.find? p with
      | some m => inSheet (.ofModule m p) (inFrame act)
      | none => throw (.call name (.moduleNotLoaded p)) : Render σ α).run s := by
  unfold atHome
  rw [hp]
  change (ite _ (inFrame act) _ : Render σ α).run s = _
  rw [if_neg (Bool.eq_false_iff.1 hpath), run_bind]
  rfl

/-- What it does to the stylesheet of another module is forgotten. -/
theorem run_atHome_away {p : Path} {m : Module} (h : IsAway f s p m) :
    (atHome name f act).run s = ((act.run { s with sheet := (Sheet.ofModule m p).framed }).1,
      { (act.run { s with sheet := (Sheet.ofModule m p).framed }).2 with sheet := s.sheet }) := by
  obtain ⟨hp, hpath, hm⟩ := h
  rw [run_atHome_of_ne name act hp hpath, hm]
  rfl

/-- It does not run if that module is not loaded. -/
theorem run_atHome_missing {p : Path} (hp : f.home = some p)
    (hpath : (s.sheet.path == some p) = false) (hm : s.modules.find? p = none) :
    (atHome name f act).run s = (.error (.call name (.moduleNotLoaded p)), s) := by
  rw [run_atHome_of_ne name act hp hpath, hm]
  rfl

/-! ### Files -/

/-- Run a step without namespaces, and get back those that there were. -/
abbrev unnamed (act : Render σ α) : Render σ α :=
  around act (fun s => { s with namespaces := .none })
    fun before after => { after with namespaces := before.namespaces }

section

variable [Log.Sink σ]

/-- A module that a rule gets is kept. -/
theorem kept_of_moduleOf {h : Host σ} {limits : Limits} {next : Option (Runner σ)}
    {origin : Origin} {url : String} {bindings : Bindings} {s s' : State σ} {p : Path} {m : Module}
    (hs : (moduleOf h limits next origin url bindings).run s = (.ok (p, m), s')) :
    s'.modules.find? p = some m ∧ ∃ g g', h.importer url origin g = (.ok p, g') := by
  unfold moduleOf at hs
  obtain ⟨q, s₁, hq, hs⟩ := run_bind_eq_ok.1 hs
  obtain ⟨g', himport, rfl⟩ := run_resolve_eq_ok.1 hq
  obtain ⟨m?, s₂, hm, hs⟩ := run_bind_eq_ok.1 hs
  obtain ⟨hfind, rfl⟩ := run_module?_eq_ok hm
  cases m? with
  | some k =>
    dsimp only at hs
    split at hs
    · cases hs
      exact ⟨hfind.symm, _, g', himport⟩
    · cases hs
  | none =>
    obtain ⟨run, s₃, -, hs⟩ := run_bind_eq_ok.1 hs
    obtain ⟨body, s₄, -, hs⟩ := run_bind_eq_ok.1 hs
    obtain ⟨k, s₅, -, hs⟩ := run_bind_eq_ok.1 hs
    cases hs
    refine ⟨?_, _, g', himport⟩
    show (s₅.modules.insert p m).find? p = some m
    rw [Table.find?_insert, beq_self_eq_true]
    rfl

end

/-- What is reported about a module that is loaded. -/
def loadedRecord (p : Path) (m : Module) : Log.Record :=
  ⟨.debug, .evaluator, "Loaded module " ++ p.quoted ++ " with " ++ toString m.bindings.size ++
    " variables and " ++ toString m.functions.size ++ " functions"⟩

/-- The statements of a module run in a stylesheet of their own. -/
theorem run_runModule {τ : Type} [Log.Sink τ] (run : Runner τ) (p : Path) (bindings : Bindings)
    (body : List Stmt) (s : State τ) :
    (runModule run p bindings body).run s =
      match (run (.file p) body).run { s with sheet := .start bindings (some p) } with
      | (.ok (), s') => (.ok s'.sheet.toModule, { s' with
          sheet := s.sheet
          host := Log.Sink.write (loadedRecord p s'.sheet.toModule) s'.host })
      | (.error e, s') => (.error e, { s' with sheet := s.sheet }) := by
  unfold runModule inSheet
  rw [run_bind, run_around, run_bind]
  rcases (run (.file p) body).run { s with sheet := .start bindings (some p) } with ⟨_ | _, s'⟩
  · rfl
  · rfl

end Render

open Render

/-- **A rendering is accounted for** if the statements of its source are. -/
theorem Accounts.render [Log.Sink σ] {R : Change ε σ} (hR : Composes R)
    {notes : Notes (Traced ε σ)} {h : Host σ} {limits : Limits}
    (hrun : ∀ body, Accounts R (fun _ => True) (runFile h limits limits.imports .entry body)
      (Noted.runFile notes (Traced.host h) limits limits.imports .entry body))
    (source : String) (g : σ) :
    ∃ es s', Noted.render notes limits (Traced.host h) source ⟨g, []⟩ =
        ((Stylesheet.render limits h source g).1, ⟨(Stylesheet.render limits h source g).2, es⟩) ∧
      R es (entryState g) s' := by
  unfold Noted.render Stylesheet.render
  cases hp : parse source with
  | error e =>
    unfold renderBy
    rw [hp]
    exact ⟨[], _, rfl, hR.refl _⟩
  | ok tree =>
    obtain ⟨es, heq, hchange, -⟩ := hrun (Stmt.ofTree tree) (entryState g) []
    rw [List.append_nil] at heq
    rw [renderBy_of_parse _ hp, renderBy_of_parse _ hp]
    exact ⟨es, _, congrArg (fun r => (r.1, r.2.host)) heq, hchange⟩

/-! ### Ledgers of calls and files -/

namespace Ledger

variable [Log.Sink σ] {L : Ledger ε σ}

/-- What is left of the body of a function, depending on where it is at home. -/
theorem atHome_of {Q : α → Prop} {act : Render σ α} {act' : Render (Traced ε σ) α} {R : Change ε σ}
    {f : UserFunction} (refl : ∀ s, R [] s s)
    (home : ∀ {ds} {s s' : State σ}, IsHome f s.sheet →
      L.Ran .function ds { s with sheet := s.sheet.framed } s' →
        R ds s { s' with sheet := s.sheet.unframed s'.sheet })
    (away : ∀ {p m ds} {s s' : State σ}, IsAway f s p m →
      L.Ran .function ds { s with sheet := (Sheet.ofModule m p).framed } s' →
        R ds s { s' with sheet := s.sheet })
    (ha : Accounts (L.Ran .function) Q act act') (name : String) :
    Accounts R Q (Render.atHome name f act) (Render.atHome name f act') := by
  intro s es
  -- notes are kept by the host, so that the function is at home where it is without them
  rcases isHome_or_isAway f s with h | ⟨p, m, h⟩ | ⟨p, hp, hpath, hm⟩
  · have h' : IsHome f (Traced.ofState s es).sheet := h
    obtain ⟨ds, hrun, hchange, hQ⟩ := ha { s with sheet := s.sheet.framed } es
    rw [run_atHome_home _ _ h, run_atHome_home _ _ h']
    refine ⟨ds, ?_, home h hchange, hQ⟩
    exact congrArg (fun r => (r.1, { r.2 with sheet := s.sheet.unframed r.2.sheet })) hrun
  · have h' : IsAway f (Traced.ofState s es) p m := h
    obtain ⟨ds, hrun, hchange, hQ⟩ := ha { s with sheet := (Sheet.ofModule m p).framed } es
    rw [run_atHome_away _ _ h, run_atHome_away _ _ h']
    refine ⟨ds, ?_, away h hchange, hQ⟩
    exact congrArg (fun r => (r.1, { r.2 with sheet := s.sheet })) hrun
  · rw [run_atHome_missing _ _ hp hpath hm,
      run_atHome_missing _ _ (s := Traced.ofState s es) hp hpath hm]
    exact ⟨[], rfl, refl s, nofun⟩

/-- Runs of the statements of files are accounted for. -/
abbrev Runners (L : Ledger ε σ) (run : Runner σ) (run' : Runner (Traced ε σ)) : Prop :=
  ∀ origin body, Accounts (L.Ran .top) (fun _ => True) (run origin body) (run' origin body)

/-- **What is left** of a call, with the notes around it. -/
structure Homing (L : Ledger ε σ) : Prop where
  call : ∀ (name : String) (f : UserFunction) (args : Arguments) {act : Render σ (Option Value)}
      {act' : Render (Traced ε σ) (Option Value)},
    Accounts (L.Ran .function) (fun _ => True) act act' → ∀ s, L.Known s f →
      AccountsAt L.Called (fun _ => True) (Render.atHome name f act)
        (L.notes.call f args (Render.atHome name f act')) s

/-- **What is left** of a call, of an import and of a module, with the notes around them. -/
structure Calling (L : Ledger ε σ) : Prop extends Homing L where
  imported : ∀ {act : Render σ Unit} {act' : Render (Traced ε σ) Unit},
    Accounts (L.Ran .top) (fun _ => True) act act' →
      Accounts (L.Ran .top) (fun _ => True) (unnamed act) (unnamed (L.notes.imported act'))
  read : ∀ p, Quiet L.Called (L.notes.read p)
  shared : ∀ p m, Quiet L.Loaded (L.notes.shared p m)
  loaded : ∀ {run : Runner σ} {run' : Runner (Traced ε σ)}, Runners L run run' →
    ∀ (p : Path) {bindings : Bindings}, bindings.Distinct → ∀ body,
      Accounts L.Loaded (fun _ => True)
        (do
          let m ← runModule run p bindings body
          keep p m
          return (p, m))
        (L.notes.loaded p do
          let m ← runModule run' p bindings body
          L.notes.kept p m
          keep p m
          return (p, m))

/-- **What is left of a call** of which nothing is noted. -/
theorem Homing.of_changes (hcall : ∀ f args act, L.notes.call f args act = act)
    (home : ∀ {ds} {s s' : State σ}, L.Ran .function ds { s with sheet := s.sheet.framed } s' →
      L.Called ds s { s' with sheet := s.sheet.unframed s'.sheet })
    (away : ∀ {f : UserFunction} {p m ds} {s s' : State σ}, IsAway f s p m →
      L.Ran .function ds { s with sheet := (Sheet.ofModule m p).framed } s' →
        L.Called ds s { s' with sheet := s.sheet }) : L.Homing where
  call name f args _ _ ha s _ := by
    rw [hcall]
    exact atHome_of L.called.refl (fun _ => home) away ha name s

namespace Homing

variable (K : L.Homing) (h : Host σ) (limits : Limits)

/-! ### Calls -/

/-- The arguments and the body of a function are accounted for. -/
theorem body {caller : Caller σ} {caller' : Caller (Traced ε σ)}
    (callers : L.Callers caller caller') (name : String) (f : UserFunction) (args : Arguments) :
    Accounts (L.Ran .function) (fun _ => True)
      (do
        Eval.bind (·.eval h caller) name f.parameters.length f.parameters args
        Stmt.execAll h limits caller .function f.body)
      (do
        L.notes.start
        Eval.bind (Noted.default L.notes (Traced.host h) caller') name f.parameters.length
          f.parameters args
        L.notes.start
        Noted.execAll L.notes (Traced.host h) limits caller' .function f.body) := by
  refine .noting (L.ran _) (L.start _) (Accounts.bind (L.ran _)
    (bind h callers .function name f.parameters.length f.parameters args) fun _ _ => ?_)
  exact .noting (L.ran _) (L.start _) (execAll h limits callers .function f.body)

include K

theorem invoke {caller : Caller σ} {caller' : Caller (Traced ε σ)}
    (callers : L.Callers caller caller') :
    L.Callers (Render.invoke h limits caller)
      (Noted.invoke L.notes (Traced.host h) limits caller') := by
  intro name f args s hf
  have body := K.call name f args (body h limits callers name f args) s hf
  refine Accounts.bindVia id L.called.trans body fun result s' _ _ => ?_
  cases result with
  | some v => exact L.called.concord.same_ret v s'
  | none => exact L.called.concord.fail _ s'

/-- **Calls** are accounted for, however many lie inside each other. -/
theorem callAt (n : Nat) :
    L.Callers (Render.callAt h limits n) (Noted.callAt L.notes (Traced.host h) limits n) := by
  induction n with
  | zero => exact fun name f args s _ => L.called.concord.fail _ s
  | succ n ih => exact K.invoke h limits ih

end Homing

/-! ### Files -/

section

variable (h : Host σ) (limits : Limits)

theorem resolve (L : Ledger ε σ) (origin : Origin) (url : String) :
    Accounts L.Called (fun _ => True) (Render.resolve h origin url)
      (Render.resolve (Traced.host h) origin url) := by
  refine L.called.concord.andThen (L.lift _) fun r => ?_
  cases r with
  | ok p => exact L.called.concord.same_ret p
  | error message => exact L.called.concord.fail _

theorem readSheet (L : Ledger ε σ) (p : Path) :
    Accounts L.Called (fun _ => True) (Render.readSheet h p)
      (Render.readSheet (Traced.host h) p) := by
  have hread : (Traced.host h : Host (Traced ε σ)).read = h.read := rfl
  unfold Render.readSheet
  rw [hread]
  refine L.called.concord.andThen (L.report _ _) fun _ => ?_
  cases h.read p with
  | error reason => exact L.called.concord.fail _
  | ok source =>
    dsimp only
    cases parse source with
    | error e => exact L.called.concord.fail _
    | ok tree => exact L.called.concord.same_ret _

/-- What runs another file is accounted for, if there is one. -/
inductive Nexts (L : Ledger ε σ) : Option (Runner σ) → Option (Runner (Traced ε σ)) → Prop
  | none : Nexts L none none
  | some {run : Runner σ} {run' : Runner (Traced ε σ)} (hr : Runners L run run') :
      Nexts L (some run) (some run')

variable {next : Option (Runner σ)} {next' : Option (Runner (Traced ε σ))}

/-- Of an import there may be left less than of the statements of its file. -/
theorem importFile_of {R : Change ε σ} (hR : Composes R)
    (called : ∀ {ds s s'}, L.Called ds s s' → R ds s s')
    (read : ∀ p, Quiet R (L.notes.read p))
    (imported : ∀ {act : Render σ Unit} {act' : Render (Traced ε σ) Unit},
      Accounts (L.Ran .top) (fun _ => True) act act' →
        Accounts R (fun _ => True) (unnamed act) (unnamed (L.notes.imported act')))
    (hn : Nexts L next next') (origin : Origin) (url : String) :
    Accounts R (fun _ => True) (Render.importFile h limits next origin url)
      (Noted.importFile L.notes (Traced.host h) limits next' origin url) := by
  let C := hR.concord
  unfold Render.importFile Noted.importFile
  split
  · exact (L.report _ _).mono fun _ _ _ => called
  · refine C.andThen ((L.resolve h origin url).mono fun _ _ _ => called) fun p => ?_
    cases hn with
    | none => exact C.fail (.importDepth limits.imports p)
    | some hr =>
      refine .noting hR (read p) ?_
      exact C.andThen ((L.readSheet h p).mono fun _ _ _ => called) fun body => imported (hr _ body)

/-- The statements of a module, run in a stylesheet of their own of which less may be left. -/
theorem runModule {run : Runner σ} {run' : Runner (Traced ε σ)} (hr : Runners L run run') (p : Path)
    {bindings : Bindings}
    (module : ∀ {ds} {s s' : State σ},
      L.Ran .top ds { s with sheet := .start bindings (some p) } s' →
        L.Loaded ds s { s' with sheet := s.sheet })
    (body : List Stmt) :
    Accounts L.Loaded (fun _ => True) (Render.runModule run p bindings body)
      (Render.runModule run' p bindings body) := by
  have members : Accounts (L.Ran .top) (fun _ => True)
      (do run (.file p) body; return (← sheet).toModule)
      (do run' (.file p) body; return (← sheet).toModule) :=
    (L.ran .top).concord.andThen (hr _ body) fun _ =>
      (L.ran .top).concord.andThen (L.ran .top).concord.sheet fun _ =>
        (L.ran .top).concord.same_ret _
  refine L.loaded.concord.andThen (members.around fun _ _ _ => module) fun m => ?_
  exact L.loaded.concord.andThen ((L.report _ _).mono fun _ _ _ => L.loaded_of_called) fun _ =>
    L.loaded.concord.same_ret m

/-- **A file that is run as a module and kept then.** Of its stylesheet nothing is left but the
module. -/
theorem loading {run : Runner σ} {run' : Runner (Traced ε σ)} (hr : Runners L run run')
    {R : Change ε σ} {p : Path} {bindings : Bindings} {body : List Stmt}
    (noted : Table Path Module → List ε)
    (hnoted : ∀ (s : State σ) m es, (L.notes.kept p m).run (Traced.ofState s es) =
      (.ok (), Traced.ofState s (noted s.modules ++ es)))
    (failed : ∀ {ds} {s s' : State σ},
      L.Ran .top ds { s with sheet := .start bindings (some p) } s' →
        R ds s { s' with sheet := s.sheet })
    (kept : ∀ {ds} {s s' : State σ},
      (run (.file p) body).run { s with sheet := .start bindings (some p) } = (.ok (), s') →
      L.Ran .top ds { s with sheet := .start bindings (some p) } s' →
        R (noted s'.modules ++ ds) s
          { sheet := s.sheet
            modules := s'.modules.insert p s'.sheet.toModule
            host := Log.Sink.write (loadedRecord p s'.sheet.toModule) s'.host }) :
    Accounts R (fun _ => True)
      (do
        let m ← Render.runModule run p bindings body
        keep p m
        return (p, m))
      (do
        let m ← Render.runModule run' p bindings body
        L.notes.kept p m
        keep p m
        return (p, m)) := by
  intro s es
  obtain ⟨ds, hrun, hran, -⟩ := hr (.file p) body { s with sheet := .start bindings (some p) } es
  rw [run_bind, run_bind, run_runModule, run_runModule]
  rw [show ({ Traced.ofState s es with sheet := .start bindings (some p) } : State _) =
    Traced.ofState { s with sheet := .start bindings (some p) } es from rfl, hrun]
  rcases hs : (run (.file p) body).run { s with sheet := .start bindings (some p) }
    with ⟨e | _, s'⟩
  · rw [hs] at hran
    exact ⟨ds, rfl, failed hran, nofun⟩
  · rw [hs] at hran
    refine ⟨noted s'.modules ++ ds, ?_, kept hs hran, fun _ _ => trivial⟩
    let done : State σ := { s' with
      sheet := s.sheet, host := Log.Sink.write (loadedRecord p s'.sheet.toModule) s'.host }
    show (L.notes.kept p s'.sheet.toModule >>= fun _ =>
      keep p s'.sheet.toModule >>= fun _ => pure (p, s'.sheet.toModule)).run
        (Traced.ofState done (ds ++ es)) = _
    rw [run_bind, hnoted, ← List.append_assoc]
    rfl

namespace Calling

variable (K : L.Calling)
include K

theorem importFile (hn : Nexts L next next') (origin : Origin) (url : String) :
    Accounts (L.Ran .top) (fun _ => True) (Render.importFile h limits next origin url)
      (Noted.importFile L.notes (Traced.host h) limits next' origin url) :=
  importFile_of h limits (L.ran .top) (L.ran_of_called .top)
    (fun p => (K.read p).mono fun _ _ _ => L.ran_of_called .top) K.imported hn origin url

theorem moduleOf (hn : Nexts L next next') (origin : Origin) (url : String) {bindings : Bindings}
    (hb : bindings.Distinct) :
    Accounts L.Loaded (fun _ => True) (Render.moduleOf h limits next origin url bindings)
      (Noted.moduleOf L.notes (Traced.host h) limits next' origin url bindings) := by
  let C := L.loaded.concord
  have called {β : Type} {P : β → Prop} {act : Render σ β} {act' : Render (Traced ε σ) β}
      (ha : Accounts L.Called P act act') : Accounts L.Loaded P act act' :=
    ha.mono fun _ _ _ => L.loaded_of_called
  unfold Render.moduleOf Noted.moduleOf
  refine C.andThen (called (L.resolve h origin url)) fun p => C.andThen (C.module? p) fun m => ?_
  cases m with
  | some m =>
    -- a module that is loaded is shared, unless it is to be configured
    dsimp only
    split
    · exact .noting L.loaded (K.shared p m) (C.same_ret _)
    · exact C.fail _
  | none =>
    cases hn with
    | none => exact C.fail (.importDepth limits.imports p)
    | some hr =>
      refine .noting L.loaded (called (K.read p)) ?_
      exact C.andThen (called (L.readSheet h p)) fun body => K.loaded hr p hb body

theorem loaders (hn : Nexts L next next') (origin : Origin) :
    L.Loaders (Render.loader h limits next origin)
      (Noted.loader L.notes (Traced.host h) limits next' origin) where
  importFile url := K.importFile h limits hn origin url
  moduleOf url _ hb := K.moduleOf h limits hn origin url hb
  kept hs := (kept_of_moduleOf hs).1

theorem run {loader : Loader σ} {loader' : Loader (Traced ε σ)} (hl : L.Loaders loader loader')
    (body : List Stmt) :
    Accounts (L.Ran .top) (fun _ => True) (Render.runFile.run h limits loader body)
      (Noted.run L.notes (Traced.host h) limits loader' body) :=
  (L.ran .top).concord.andThen (execAll h limits (K.callAt h limits _) (.top hl) body) fun _ =>
    (L.ran .top).concord.same_ret _

/-- **Files** are accounted for, however many imports lie inside each other. -/
theorem runFile (n : Nat) :
    Runners L (Render.runFile h limits n) (Noted.runFile L.notes (Traced.host h) limits n) := by
  induction n with
  | zero => exact fun origin body => K.run h limits (K.loaders h limits .none origin) body
  | succ n ih => exact fun origin body => K.run h limits (K.loaders h limits (.some ih) origin) body

/-- So is what the statements of a file reach others by. -/
theorem loaderAt (n : Nat) (origin : Origin) :
    L.Loaders (Render.loaderAt h limits n origin)
      (Noted.loaderAt L.notes (Traced.host h) limits n origin) := by
  cases n with
  | zero => exact K.loaders h limits .none origin
  | succ n => exact K.loaders h limits (.some (K.runFile h limits n)) origin

end Calling

end

end Ledger
end Stylesheet
