import Stylesheet.Proofs.Render.LedgerFiles
import Stylesheet.Proofs.Render.Loading
import Stylesheet.Proofs.Render.Members

/-!
# Properties of the modules that are kept

A module is kept behind the last statement of its file, and nothing else changes the modules. So a
property of them that holds behind every file that was loaded holds at every statement of a
rendering, of one that fails as well. It may depend on which modules were replaced by then.

* `Milestone.render`: a rendering in which the modules are noted at every statement.
* `Milestone.Property`: a property of modules that loading a file keeps.
* `Milestone.Property.render`: such a property holds to the end of every rendering.
-/

namespace Stylesheet

open Render

/-- What is noted of the modules of a rendering. -/
inductive Milestone where
  /-- A statement is about to run, and these modules are loaded. -/
  | passed (modules : Table Path Module)
  /-- A module is kept in the place of another one, since its file was asked for again while it was
  running. -/
  | replaced (p : Path)

namespace Milestone

variable {σ : Type}

/-! ### Renderings with milestones -/

/-- Note the modules that are loaded. -/
def look : Render (Traced Milestone σ) Unit := do
  let s ← get
  Traced.note (passed s.modules)

/-- The modules are noted before every statement, and that a module is replaced before another one
is kept in its place. -/
def notes : Notes (Traced Milestone σ) where
  before := look
  kept p _ := do
    match ← module? p with
    | some _ => Traced.note (replaced p)
    | none => pure ()

/-- What is noted when a module is kept. -/
def keptNotes (modules : Table Path Module) (p : Path) : List Milestone :=
  match modules.find? p with
  | some _ => [replaced p]
  | none => []

theorem run_kept (s : State σ) (es : List Milestone) (p : Path) (m : Module) :
    (notes.kept p m).run (Traced.ofState s es) =
      (.ok (), Traced.ofState s (keptNotes s.modules p ++ es)) := by
  have hfind : (module? p).run (Traced.ofState s es) =
      (.ok (s.modules.find? p), Traced.ofState s es) := rfl
  unfold notes keptNotes
  dsimp only
  rw [run_bind, hfind]
  cases s.modules.find? p with
  | some _ => rfl
  | none => rfl

section

variable [Log.Sink σ]

/-- **A rendering with its milestones.** -/
def render (limits : Limits) (h : Host σ) (source : String) :
    StateM (Traced Milestone σ) (Except RenderError Unit) :=
  Noted.render notes limits (Traced.host h) source

end

/-! ### Properties of modules -/

/-- The statements of a file have run, as those of a module. -/
def Done [Log.Sink σ] (h : Host σ) (limits : Limits) (p : Path) (s s' : State σ) : Prop :=
  ∃ n source tree, h.read p = .ok source ∧ parse source = .ok tree ∧
    (Render.runFile h limits n (.file p) (Stmt.ofTree tree)).run s = (.ok (), s')

/-- **A property of the modules that are kept,** which may depend on the milestones so far. It holds
when a statement is passed, and when a module is kept behind the statements of its file. -/
structure Property [Log.Sink σ] (h : Host σ) (limits : Limits) where
  Holds : List Milestone → Table Path Module → Prop
  passed {es : List Milestone} {modules : Table Path Module} :
    Holds es modules → Holds (passed modules :: es) modules
  kept {es : List Milestone} {p : Path} {s s' : State σ} : Done h limits p s s' →
    s'.sheet.Distinct → Holds es s'.modules →
      Holds (keptNotes s'.modules p ++ es) (s'.modules.insert p s'.sheet.toModule)

namespace Property

variable [Log.Sink σ] {h : Host σ} {limits : Limits} (P : Property h limits)

/-- **A step that keeps the property.** It also leaves every member of the stylesheet there once. -/
structure Step (ds : List Milestone) (s s' : State σ) : Prop where
  distinct : s.sheet.Distinct → s'.sheet.Distinct
  holds : ∀ es, P.Holds es s.modules → P.Holds (ds ++ es) s'.modules

theorem composes : Composes P.Step where
  refl s := ⟨id, fun _ => id⟩
  trans h h' := by
    refine ⟨h'.distinct ∘ h.distinct, fun es hes => ?_⟩
    rw [List.append_assoc]
    exact h'.holds _ (h.holds es hes)

variable {P} in
/-- A step that does not change the modules. -/
theorem Step.of_modules {s s' : State σ} (hd : s.sheet.Distinct → s'.sheet.Distinct)
    (hm : s'.modules = s.modules) : P.Step [] s s' := ⟨hd, fun _ hes => hm ▸ hes⟩

variable {P} in
/-- A step that runs in the stylesheet up to its blocks and namespaces. -/
theorem Step.within {ds : List Milestone} {s s' : State σ} {sheet sheet' : Sheet}
    (h : P.Step ds { s with sheet } s')
    (enter : s.sheet.Distinct → sheet.Distinct)
    (leave : s'.sheet.Distinct → sheet'.Distinct) : P.Step ds s { s' with sheet := sheet' } :=
  ⟨fun hd => leave (h.distinct (enter hd)), h.holds⟩

variable {P} in
theorem Step.of_functions (s : State σ) (n : Name) (f : UserFunction) : P.Step [] s
    { s with sheet := { s.sheet with functions := s.sheet.functions.insert n f } } :=
  .of_modules (fun hd => ⟨hd.bindings, hd.functions.insert n f⟩) rfl

variable {P} in
theorem Step.of_taken {ds : List Milestone} {s s' : State σ} (h : Taken P.Step ds s s') :
    P.Step ds s s' := by
  obtain ⟨s₁, hstep, rfl | htaking⟩ := h
  · exact hstep
  · have taking : P.Step [] s₁ s' := by
      cases htaking with
      | flat l => exact .of_modules (fun hd => ⟨hd.bindings, hd.functions⟩) rfl
      | named n _ => exact .of_modules (fun hd => ⟨hd.bindings, hd.functions⟩) rfl
      | @merged p m front _ => exact .of_modules (fun hd => hd.merge m front) rfl
    exact P.composes.trans hstep taking

/-- **The ledger of a property:** every step keeps it. -/
def ledger : Ledger Milestone σ where
  notes := notes
  Called := P.Step
  Ran _ := P.Step
  Loaded := P.Step
  called := P.composes
  ran _ := P.composes
  loaded := P.composes
  ran_of_called _ := id
  loaded_of_called := id
  top_of_loop := id
  host _ _ := .of_modules id rfl
  before _ s _ := ⟨[.passed s.modules], rfl, ⟨id, fun _ hes => P.passed hes⟩, fun _ _ => trivial⟩
  behind _ := .ret P.composes trivial
  default _ := .ret P.composes trivial
  start _ := .ret P.composes trivial
  value _ := .ret P.composes trivial
  loops := rfl
  assign _ _ n v :=
    .of_modules (fun hd => ⟨Scopes.distinct_assign hd.bindings n v, hd.functions⟩) rfl
  global _ n v := .of_run (fun _ _ => rfl) fun _ =>
    .of_modules (fun hd => ⟨hd.bindings.insert n v, hd.functions⟩) rfl
  function _ _ _ := .declareFunction P.composes (fun _ _ => .of_modules id rfl) Step.of_functions
  block _ _ _ _ _ h := h.within (fun hd => ⟨hd.bindings, hd.functions⟩)
    fun hd => ⟨hd.bindings, hd.functions⟩
  load h := h.mono fun _ _ _ => Step.of_taken

theorem homing : P.ledger.Homing :=
  .of_changes (fun _ _ _ => rfl)
    (fun h => h.within (fun hd => ⟨hd.bindings, hd.functions⟩)
      fun hd => ⟨hd.bindings, hd.functions⟩)
    fun _ h => ⟨id, h.holds⟩

/-! ### Files -/

/-- What runs another file keeps the property, if there is one. -/
inductive Nexts : Option (Runner σ) → Option (Runner (Traced Milestone σ)) → Prop
  | none : Nexts none none
  | some (n : Nat) (hr : Ledger.Runners P.ledger (Render.runFile h limits n)
      (Noted.runFile notes (Traced.host h) limits n)) :
      Nexts (some (Render.runFile h limits n)) (some (Noted.runFile notes (Traced.host h) limits n))

variable {P} in
theorem Nexts.nexts {next : Option (Runner σ)} {next' : Option (Runner (Traced Milestone σ))}
    (hn : P.Nexts next next') : Ledger.Nexts P.ledger next next' := by
  cases hn with
  | none => exact .none
  | some n hr => exact .some hr

/-- What is read is the file. -/
theorem readSheet_accounts (p : Path) :
    Accounts P.Step
      (fun body => ∃ source tree, h.read p = .ok source ∧ parse source = .ok tree ∧
        body = Stmt.ofTree tree)
      (readSheet h p) (readSheet (Traced.host h) p) := by
  have hread : (Traced.host h : Host (Traced Milestone σ)).read = h.read := rfl
  unfold Render.readSheet
  rw [hread]
  refine P.composes.concord.andThen (P.ledger.report _ _) fun _ => ?_
  cases hp : h.read p with
  | error reason => exact P.composes.concord.fail _
  | ok source =>
    dsimp only
    cases ht : parse source with
    | error e => exact P.composes.concord.fail _
    | ok tree => exact P.composes.concord.ret ⟨source, tree, rfl, ht, rfl⟩

/-- **A module that is loaded and kept** keeps the property. -/
theorem load_accounts {n : Nat} (hr : Ledger.Runners P.ledger (Render.runFile h limits n)
    (Noted.runFile notes (Traced.host h) limits n)) {p : Path} {source : String} {tree : Node}
    (hp : h.read p = .ok source) (ht : parse source = .ok tree) {bindings : Bindings}
    (hb : bindings.Distinct) :
    Accounts P.Step (fun _ => True)
      (do
        let m ← runModule (Render.runFile h limits n) p bindings (Stmt.ofTree tree)
        Render.keep p m
        return (p, m))
      (do
        let m ← runModule (Noted.runFile notes (Traced.host h) limits n) p bindings
          (Stmt.ofTree tree)
        notes.kept p m
        Render.keep p m
        return (p, m)) := by
  refine Ledger.loading (L := P.ledger) hr (keptNotes · p) (fun s m es => run_kept s es p m)
    (fun hstep => ⟨id, hstep.holds⟩) fun hs hstep => ⟨id, fun es hes => ?_⟩
  rw [List.append_assoc]
  exact P.kept ⟨n, source, tree, hp, ht, hs⟩ (hstep.distinct (Sheet.distinct_start hb _))
    (hstep.holds es hes)

theorem moduleOf_accounts {next : Option (Runner σ)} {next' : Option (Runner (Traced Milestone σ))}
    (hn : P.Nexts next next') (origin : Origin) (url : String) {bindings : Bindings}
    (hb : bindings.Distinct) :
    Accounts P.Step (fun _ => True) (Render.moduleOf h limits next origin url bindings)
      (Noted.moduleOf notes (Traced.host h) limits next' origin url bindings) := by
  let C := P.composes.concord
  have hresolve : Accounts P.Step (fun _ => True) (resolve h origin url)
      (resolve (Traced.host h) origin url) := P.ledger.resolve h origin url
  unfold Render.moduleOf Noted.moduleOf
  refine C.andThen hresolve fun p => C.andThen (C.module? p) fun m => ?_
  cases m with
  | some m =>
    dsimp only
    split
    · exact .noting P.composes (.ret P.composes trivial) (C.same_ret _)
    · exact C.fail _
  | none =>
    cases hn with
    | none => exact C.fail (.importDepth limits.imports p)
    | some n hr =>
      refine .noting P.composes (.ret P.composes trivial) ?_
      refine C.seq (P.readSheet_accounts p) fun body hbody => ?_
      obtain ⟨source, tree, hp, ht, rfl⟩ := hbody
      exact P.load_accounts hr hp ht hb

theorem loaders {next : Option (Runner σ)} {next' : Option (Runner (Traced Milestone σ))}
    (hn : P.Nexts next next') (origin : Origin) :
    P.ledger.Loaders (Render.loader h limits next origin)
      (Noted.loader notes (Traced.host h) limits next' origin) where
  importFile url := by
    refine Ledger.importFile_of (L := P.ledger) h limits P.composes id
      (fun _ => .ret P.composes trivial) (fun ha => ha.around ?_) hn.nexts origin url
    intro ds s s' hstep
    exact Step.within hstep (fun hd => ⟨hd.bindings, hd.functions⟩)
      fun hd => ⟨hd.bindings, hd.functions⟩
  moduleOf url bindings hb := P.moduleOf_accounts hn origin url hb
  kept hs := (kept_of_moduleOf hs).1

theorem run_accounts {loader : Loader σ} {loader' : Loader (Traced Milestone σ)}
    (hl : P.ledger.Loaders loader loader') (body : List Stmt) :
    Accounts P.Step (fun _ => True) (Render.runFile.run h limits loader body)
      (Noted.run notes (Traced.host h) limits loader' body) :=
  P.composes.concord.andThen
    (Ledger.execAll (L := P.ledger) h limits (P.homing.callAt h limits _) (.top hl) body) fun _ =>
      P.composes.concord.same_ret _

/-- **Files** keep the property, however many imports lie inside each other. -/
theorem runFile_accounts (n : Nat) :
    Ledger.Runners P.ledger (Render.runFile h limits n)
      (Noted.runFile notes (Traced.host h) limits n) := by
  induction n with
  | zero => exact fun origin body => P.run_accounts (P.loaders .none origin) body
  | succ n ih => exact fun origin body => P.run_accounts (P.loaders (.some n ih) origin) body

/-- **A property of modules** holds to the end of a rendering if it holds before it. -/
theorem render (hstart : P.Holds [] .empty) (source : String) (g : σ) :
    ∃ es, Milestone.render limits h source ⟨g, []⟩ =
        ((Stylesheet.render limits h source g).1, ⟨(Stylesheet.render limits h source g).2, es⟩) ∧
      ∃ modules, P.Holds es modules := by
  obtain ⟨es, s', hrun, hstep⟩ := Accounts.render P.composes
    (fun body => P.runFile_accounts limits.imports .entry body) source g
  have hend := hstep.holds [] hstart
  rw [List.append_nil] at hend
  exact ⟨es, hrun, _, hend⟩

end Property
end Milestone
end Stylesheet
