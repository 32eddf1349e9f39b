import Stylesheet.Proofs.Render.History
import Stylesheet.Proofs.Render.Loading

/-!
# Renderings with a history

A rendering whose host also keeps the history of its rules that load modules: where a module is
loaded the events are noted. Leaving the history out, the rendering is the one without it.

* `Traced.render`: a rendering with its history.
* `Traced.render_of_render`: what is rendered without a history is rendered with a legal one.
-/

namespace Stylesheet

open Render

namespace Traced

variable {σ α : Type}

/-- Where a rule gets a module, and around the run of a file. -/
def notes : Notes (Traced LoadEvent σ) where
  shared p m := note (.shared p m)
  loaded p act := do
    note (.opened p)
    act
  kept p m := note (.closed p m)

variable [Log.Sink σ]

/-- **A rendering with its history.** -/
def render (limits : Limits) (h : Host σ) (source : String) :
    StateM (Traced LoadEvent σ) (Except RenderError Unit) :=
  Noted.render notes limits (host h) source

/-! ### Leaving the history out -/

/-- The states of the hosts with and without a history agree: the modules are those that are kept
after the history, and every path in it is that of a file. -/
structure Keeps (isFile : Path → Prop) (running : List Path) (modules : Table Path Module) (h : σ)
    (t : Traced LoadEvent σ) : Prop where
  inner : t.inner = h
  kept : modules = LoadEvent.kept t.history
  legal : LoadEvent.Legal t.history running
  files : ∀ p, LoadEvent.Asked t.history p → isFile p

/-- The comparison of a rendering with itself and its history. -/
def tracking (isFile : Path → Prop) (running : List Path) : Comparison σ (Traced LoadEvent σ) :=
  .simulation (fun _ => True) (Keeps isFile running) fun r h =>
    ⟨congrArg (Log.Sink.write r) h.inner, h.kept, h.legal, h.files⟩

variable {isFile : Path → Prop} {running : List Path} {h : Host σ} {limits : Limits}

theorem lift_same (step : StateM σ α) :
    (tracking isFile running).Same (ofHost step) (ofHost (lift step)) := by
  intro s t hst a s' hs
  cases hs
  refine ⟨{ t with host := { t.host with inner := (step s.host).2 } }, ?_,
    ⟨hst.sheet, hst.modules, hst.calls, hst.kept, rfl, hst.host.kept, hst.host.legal,
      hst.host.files⟩, trivial⟩
  rw [← hst.host.inner]
  rfl

theorem answers : (tracking isFile running).Answers h (host h) := by
  intro name _
  rw [find?_host]
  cases h.functions.function? name with
  | none => exact .inl ⟨rfl, rfl⟩
  | some f => exact .inr ⟨f, _, rfl, rfl, fun args => lift_same (f args)⟩

/-- Every path with which the host answers an import is that of a file. -/
def Finds (isFile : Path → Prop) (h : Host σ) : Prop :=
  ∀ origin url s p s', (resolve h origin url).run s = (.ok p, s') → isFile p

theorem hosts : (tracking isFile running).Hosts h (host h) where
  answers := answers
  read := rfl
  resolve origin url := by
    refine Comparison.Same.seq (lift_same _) fun r => ?_
    cases r with
    | ok p => exact Comparison.simulation _ _ _ |>.ret fun _ _ _ _ _ _ => trivial
    | error message => exact Comparison.simulation _ _ _ |>.fail _

/-- What runs another file goes together whatever is running. -/
inductive Nexts (isFile : Path → Prop) :
    Option (Runner σ) → Option (Runner (Traced LoadEvent σ)) → Prop
  | none : Nexts isFile none none
  | some {run : Runner σ} {run' : Runner (Traced LoadEvent σ)}
      (h : ∀ running, (tracking isFile running).Runners run run') :
      Nexts isFile (some run) (some run')

theorem Nexts.nexts {next : Option (Runner σ)} {next' : Option (Runner (Traced LoadEvent σ))}
    (hn : Nexts isFile next next') : (tracking isFile running).Nexts next next' := by
  cases hn with
  | none => exact .none
  | some h => exact .some (h running)

theorem asked_cons {e : LoadEvent} {es : List LoadEvent} {q : Path}
    (h : LoadEvent.Asked (e :: es) q) : e.asked? = some q ∨ LoadEvent.Asked es q := by
  obtain ⟨e', he', hq⟩ := h
  rcases List.mem_cons.1 he' with rfl | he'
  · exact .inl hq
  · exact .inr ⟨e', he', hq⟩

theorem readSheet_same (p : Path) :
    (tracking isFile running).Same (readSheet h p) (readSheet (host h) p) := by
  have hread : (host h : Host (Traced LoadEvent σ)).read p = h.read p := rfl
  exact (Comparison.readSheet hread).same

theorem readSheet_modules {s s' : State σ} {p : Path} {body : List Stmt}
    (hs : (readSheet h p).run s = (.ok body, s')) : s'.modules = s.modules := by
  unfold readSheet at hs
  obtain ⟨_, s₁, hreport, hs⟩ := run_bind_eq_ok.1 hs
  cases hreport
  split at hs
  · cases hs
  · split at hs <;> cases hs
    rfl

omit [Log.Sink σ] in
/-- Noting that kept members are shared keeps the agreement. -/
theorem Keeps.shared {modules : Table Path Module} {g : σ} {t : Traced LoadEvent σ} {p : Path}
    {m : Module} (hk : Keeps isFile running modules g t) (hp : isFile p)
    (hm : modules.find? p = some m) :
    Keeps isFile running modules g { t with history := .shared p m :: t.history } where
  inner := hk.inner
  kept := hk.kept
  legal := .shared hk.legal (hk.kept ▸ hm)
  files q hq := by
    rcases asked_cons hq with hq | hq
    · cases hq
      exact hp
    · exact hk.files q hq

omit [Log.Sink σ] in
theorem Keeps.opened {modules : Table Path Module} {g : σ} {t : Traced LoadEvent σ} {p : Path}
    (hk : Keeps isFile running modules g t) (hp : isFile p) (hm : modules.find? p = none) :
    Keeps isFile (p :: running) modules g { t with history := .opened p :: t.history } where
  inner := hk.inner
  kept := hk.kept
  legal := .opened hk.legal (hk.kept ▸ hm)
  files q hq := by
    rcases asked_cons hq with hq | hq
    · cases hq
      exact hp
    · exact hk.files q hq

omit [Log.Sink σ] in
theorem Keeps.closed {modules : Table Path Module} {g : σ} {t : Traced LoadEvent σ} {p : Path}
    {m : Module} (hk : Keeps isFile (p :: running) modules g t) :
    Keeps isFile running (modules.insert p m) g { t with history := .closed p m :: t.history } where
  inner := hk.inner
  kept := congrArg (·.insert p m) hk.kept
  legal := .closed hk.legal
  files q hq := by
    rcases asked_cons hq with hq | hq
    · cases hq
    · exact hk.files q hq

/-- **Loading a module** goes together with loading it and noting the events. -/
theorem moduleOf_rel (hf : Finds isFile h) {next : Option (Runner σ)}
    {next' : Option (Runner (Traced LoadEvent σ))} (hn : Nexts isFile next next') (origin : Origin)
    (url : String) (bindings : Bindings) :
    (tracking isFile running).Rel (fun pm => pm.2.CallsOnly fun _ => True)
      (Render.moduleOf h limits next origin url bindings)
      (Noted.moduleOf notes (host h) limits next' origin url bindings) := by
  intro s t hst a s' hs
  unfold Render.moduleOf at hs
  unfold Noted.moduleOf
  obtain ⟨p, s₁, hp, hs⟩ := run_bind_eq_ok.1 hs
  have hfile := hf origin url s p s₁ hp
  obtain ⟨t₁, hp', h₁, _⟩ := hosts.resolve origin url s t hst p s₁ hp
  obtain ⟨m, s₂, hm, hs⟩ := run_bind_eq_ok.1 hs
  obtain ⟨t₂, hm', h₂, hcalls⟩ := (tracking isFile running).module? p s₁ t₁ h₁ m s₂ hm
  obtain ⟨hkept, hsame⟩ := run_module?_eq_ok hm
  subst hsame
  cases m with
  | some m =>
    dsimp only at hs
    split at hs
    · -- the module was kept, and sharing it is noted
      next hsize =>
      cases hs
      refine ⟨{ t₂ with host := { t₂.host with history := .shared p m :: t₂.host.history } }, ?_,
        ⟨h₂.sheet, h₂.modules, h₂.calls, h₂.kept, h₂.host.shared hfile hkept.symm⟩, hcalls m rfl⟩
      refine run_bind_eq_ok.2 ⟨p, t₁, hp', run_bind_eq_ok.2 ⟨some m, t₂, hm', ?_⟩⟩
      dsimp only
      rw [if_pos hsize]
      exact run_bind_eq_ok.2 ⟨(), _, rfl, rfl⟩
    · cases hs
  | none =>
    cases hn with
    | none => cases hs
    | @some run run' hr =>
      -- the file is opened before its statements run, and closed when its module is kept
      obtain ⟨_, _, hrun, hs⟩ := run_bind_eq_ok.1 hs
      cases hrun
      obtain ⟨body, s₃, hbody, hs⟩ := run_bind_eq_ok.1 hs
      obtain ⟨t₃, hbody', h₃, _⟩ := readSheet_same p _ t₂ h₂ body s₃ hbody
      rw [← readSheet_modules hbody] at hkept
      have h₄ : Comparison.Agree (fun _ => True) (Keeps isFile (p :: running)) s₃
          { t₃ with host := { t₃.host with history := .opened p :: t₃.host.history } } :=
        ⟨h₃.sheet, h₃.modules, h₃.calls, h₃.kept, h₃.host.opened hfile hkept.symm⟩
      obtain ⟨m, s₅, hmodule, hs⟩ := run_bind_eq_ok.1 hs
      obtain ⟨t₅, hmodule', h₅, hcalls⟩ :=
        Comparison.runModule (hr (p :: running)) p bindings (fun _ _ => trivial) _ _ h₄ m s₅ hmodule
      obtain ⟨_, s₆, hkeep, hs⟩ := run_bind_eq_ok.1 hs
      cases hkeep
      cases hs
      refine ⟨⟨t₅.sheet, t₅.modules.insert p m,
        { t₅.host with history := .closed p m :: t₅.host.history }⟩, ?_,
        ⟨h₅.sheet, ?_, h₅.calls, h₅.kept.insert p hcalls, h₅.host.closed⟩, hcalls⟩
      · refine run_bind_eq_ok.2 ⟨p, t₁, hp', run_bind_eq_ok.2 ⟨none, t₂, hm', ?_⟩⟩
        refine run_bind_eq_ok.2 ⟨run', t₂, rfl, run_bind_eq_ok.2 ⟨(), t₂, rfl, ?_⟩⟩
        refine run_bind_eq_ok.2 ⟨body, t₃, hbody', run_bind_eq_ok.2 ⟨(), _, rfl, ?_⟩⟩
        exact run_bind_eq_ok.2 ⟨m, t₅, hmodule', run_bind_eq_ok.2 ⟨(), _, rfl, rfl⟩⟩
      · exact congrArg (·.insert p m) h₅.modules

/-- Nothing is noted of statements. -/
theorem noting : (tracking isFile running (σ := σ)).Noting .none notes :=
  { Comparison.noting_none (C := tracking isFile running) with }

theorem finders : (tracking isFile running).Finders .none notes h (host h) :=
  hosts.finders fun _ => Comparison.same_ret ()

theorem loader_rel (hf : Finds isFile h) {next : Option (Runner σ)}
    {next' : Option (Runner (Traced LoadEvent σ))} (hn : Nexts isFile next next')
    (origin : Origin) : (tracking isFile running).Loaders (Render.loader h limits next origin)
      (Noted.loader notes (host h) limits next' origin) :=
  ⟨Comparison.importFile limits finders id hn.nexts origin, moduleOf_rel hf hn origin⟩

theorem run_rel {loader : Loader σ} {loader' : Loader (Traced LoadEvent σ)}
    (hl : (tracking isFile running).Loaders loader loader') (body : List Stmt) :
    (tracking isFile running).Same (Render.runFile.run h limits loader body)
      (Noted.run notes (host h) limits loader' body) := by
  rw [← Noted.run_none]
  exact Comparison.run limits noting answers hl fun _ _ => trivial

theorem runFile_rel (hf : Finds isFile h) (n : Nat) (running : List Path) :
    (tracking isFile running).Runners (Render.runFile h limits n)
      (Noted.runFile notes (host h) limits n) := by
  induction n generalizing running with
  | zero => exact fun origin body _ => run_rel (loader_rel hf .none origin) body
  | succ n ih => exact fun origin body _ => run_rel (loader_rel hf (.some ih) origin) body

/-- **The history may be left out:** a rendering that succeeds succeeds with a history, which is
legal and in which every path is that of a file. -/
theorem render_of_render (hf : Finds isFile h) {source : String} {g g' : σ}
    (hr : Stylesheet.render limits h source g = (.ok (), g')) :
    ∃ es, render limits h source ⟨g, []⟩ = (.ok (), ⟨g', es⟩) ∧ LoadEvent.Legal es [] ∧
      ∀ p, LoadEvent.Asked es p → isFile p := by
  obtain ⟨tree, s', hp, hs, rfl⟩ := renderBy_eq_ok.1 hr
  have start : Comparison.Agree (fun _ => True) (Keeps isFile []) (entryState g)
      (entryState ⟨g, []⟩) :=
    ⟨rfl, rfl, Table.all_empty, Table.all_empty, rfl, rfl, .nil, fun _ ⟨_, he, _⟩ => nomatch he⟩
  obtain ⟨t', ht, hst, _⟩ :=
    runFile_rel hf limits.imports [] _ _ (fun _ _ => trivial) _ _ start () s' hs
  refine ⟨t'.host.history, renderBy_eq_ok.2 ⟨tree, t', hp, ht, ?_⟩, hst.host.legal, hst.host.files⟩
  rw [← hst.host.inner]

end Traced
end Stylesheet
