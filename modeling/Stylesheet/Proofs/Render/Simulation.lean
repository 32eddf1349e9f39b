import Stylesheet.Proofs.Render.Files

/-!
# Simulations

Two comparisons of renderings. In a simulation a step that succeeds for the one host succeeds for
the other with the same result, and keeps the stylesheet, the modules and a relation of the hosts.
In a restriction the second host is the first one with less allowed, and the steps are the same if
what is allowed was enough in the end.

* `Comparison.simulation`: the comparison by a relation of the hosts.
* `Comparison.restriction`: the comparison by a bound on the state of the host.
-/

namespace Stylesheet
namespace Render

variable {σ τ : Type} {α β : Type}

/-! ### Runs of steps -/

theorem run_bind (act : Render σ α) (next : α → Render σ β) (s : State σ) :
    (act >>= next).run s =
      match act.run s with
      | (.ok a, s') => (next a).run s'
      | (.error e, s') => (.error e, s') := by
  simp only [ExceptT.run, bind, ExceptT.bind, ExceptT.mk, ExceptT.bindCont, StateT.bind]
  rcases h : act s with ⟨_ | _, s'⟩
  · rfl
  · rfl

/-- **A sequence succeeds** if its first part does, and the second behind it. -/
theorem run_bind_eq_ok {act : Render σ α} {next : α → Render σ β} {s s'' : State σ} {b : β} :
    (act >>= next).run s = (.ok b, s'') ↔
      ∃ a s', act.run s = (.ok a, s') ∧ (next a).run s' = (.ok b, s'') := by
  rw [run_bind]
  rcases act.run s with ⟨_ | a, s'⟩
  · constructor
    · intro h
      cases h
    · rintro ⟨a, s₁, h, _⟩
      cases h
  · constructor
    · intro h
      exact ⟨a, s', rfl, h⟩
    · rintro ⟨a₁, s₁, h, hn⟩
      cases h
      exact hn

/-- Steps behind another one are the same if they are for its results. -/
theorem bind_congr_ok {act : Render σ α} {f g : α → Render σ β}
    (h : ∀ s a s', act.run s = (.ok a, s') → f a = g a) : act >>= f = act >>= g := by
  funext s
  change (act >>= f).run s = (act >>= g).run s
  rw [run_bind, run_bind]
  rcases hs : act.run s with ⟨_ | a, s'⟩
  · rfl
  · change (f a).run s' = (g a).run s'
    rw [h s a s' hs]

theorem run_sheet (s : State σ) : (sheet : Render σ Sheet).run s = (.ok s.sheet, s) := rfl

theorem run_module (p : Path) (s : State σ) :
    (module? p).run s = (.ok (s.modules.find? p), s) := rfl

theorem run_module?_eq_ok {s s' : State σ} {p : Path} {m : Option Module}
    (h : (module? p).run s = (.ok m, s')) : m = s.modules.find? p ∧ s' = s := by
  cases h
  exact ⟨rfl, rfl⟩

theorem run_pure_eq_ok {a b : α} {s s' : State σ} :
    (pure a : Render σ α).run s = (.ok b, s') ↔ b = a ∧ s' = s := by
  constructor
  · intro h
    cases h
    exact ⟨rfl, rfl⟩
  · rintro ⟨rfl, rfl⟩
    rfl

theorem run_ofHost_eq_ok {step : StateM σ α} {s s' : State σ} {a : α} :
    (ofHost step).run s = (.ok a, s') ↔
      ∃ h, step s.host = (a, h) ∧ s' = { s with host := h } := by
  constructor
  · intro h
    cases h
    exact ⟨_, rfl, rfl⟩
  · rintro ⟨g, h, rfl⟩
    unfold ofHost
    simp only [ExceptT.run, ExceptT.mk]
    rw [h]

/-- An import is resolved if the importer answers with a path. -/
theorem run_resolve_eq_ok {host : Host σ} {origin : Origin} {url : String} {s s' : State σ}
    {p : Path} :
    (resolve host origin url).run s = (.ok p, s') ↔
      ∃ h, host.importer url origin s.host = (.ok p, h) ∧ s' = { s with host := h } := by
  unfold resolve
  rw [run_bind_eq_ok]
  constructor
  · rintro ⟨r, s₁, hr, hs⟩
    obtain ⟨h, himport, rfl⟩ := run_ofHost_eq_ok.1 hr
    cases r with
    | error message => cases hs
    | ok q =>
      cases hs
      exact ⟨h, himport, rfl⟩
  · rintro ⟨h, himport, rfl⟩
    exact ⟨.ok p, _, run_ofHost_eq_ok.2 ⟨h, himport, rfl⟩, rfl⟩

theorem run_around (act : Render σ α) (enter : Sheet → Sheet) (leave : Sheet → Sheet → Sheet)
    (s : State σ) :
    (around act enter leave).run s =
      ((act.run { s with sheet := enter s.sheet }).1,
        { (act.run { s with sheet := enter s.sheet }).2 with
          sheet := leave s.sheet (act.run { s with sheet := enter s.sheet }).2.sheet }) := rfl

theorem run_around_eq_ok {act : Render σ α} {enter : Sheet → Sheet} {leave : Sheet → Sheet → Sheet}
    {s s' : State σ} {a : α} :
    (around act enter leave).run s = (.ok a, s') ↔
      ∃ inner, act.run { s with sheet := enter s.sheet } = (.ok a, inner) ∧
        s' = { inner with sheet := leave s.sheet inner.sheet } := by
  rw [run_around]
  constructor
  · intro h
    injection h with hr hs
    exact ⟨_, Prod.ext hr rfl, hs.symm⟩
  · rintro ⟨inner, h, rfl⟩
    rw [h]

/-- The state of a rendering before the first statement of the source. -/
def entryState (h : σ) : State σ := ⟨.start .empty none, .empty, h⟩

theorem renderBy_of_parse {run : Runner σ} {source : String} {tree : Node} (h : σ)
    (hp : parse source = .ok tree) :
    renderBy run source h = (((run .entry (Stmt.ofTree tree)).run (entryState h)).1,
      ((run .entry (Stmt.ofTree tree)).run (entryState h)).2.host) := by
  unfold renderBy
  rw [hp]
  rfl

/-- **A rendering succeeds** if the source parses and its statements do. -/
theorem renderBy_eq_ok {run : Runner σ} {source : String} {h h' : σ} :
    renderBy run source h = (.ok (), h') ↔
      ∃ tree s', parse source = .ok tree ∧
        (run .entry (Stmt.ofTree tree)).run (entryState h) = (.ok (), s') ∧ s'.host = h' := by
  cases hp : parse source with
  | error e =>
    have hr : renderBy run source h = (.error (.parse e), h) := by
      unfold renderBy
      rw [hp]
      rfl
    rw [hr]
    constructor
    · intro hr
      cases hr
    · rintro ⟨tree, s', ht, _⟩
      cases ht
  | ok tree =>
    rw [renderBy_of_parse h hp]
    rcases hs : (run .entry (Stmt.ofTree tree)).run (entryState h) with ⟨r, s'⟩
    constructor
    · intro hr
      cases hr
      exact ⟨tree, s', rfl, hs, rfl⟩
    · rintro ⟨tree', s'', ht, hs', rfl⟩
      cases ht
      rw [hs] at hs'
      cases hs'
      rfl

namespace Comparison

/-! ### Simulations -/

/-- **States that agree:** the same stylesheet runs with the same modules, which call only what may
be called, and the states of the hosts are related. -/
structure Agree (ok : Name → Prop) (Φ : Table Path Module → σ → τ → Prop) (s : State σ)
    (t : State τ) : Prop where
  sheet : t.sheet = s.sheet
  modules : t.modules = s.modules
  calls : s.sheet.CallsOnly ok
  kept : s.modules.All (Module.CallsOnly ok)
  host : Φ s.modules s.host t.host

/-- A step simulates another one if it succeeds whenever the other does, with the same result, and
keeps a relation of the states. -/
def Simulates (R : State σ → State τ → Prop) (Q : α → Prop) (act : Render σ α)
    (act' : Render τ α) : Prop :=
  ∀ s t, R s t → ∀ a s', act.run s = (.ok a, s') → ∃ t', act'.run t = (.ok a, t') ∧ R s' t' ∧ Q a

theorem Simulates.around {ok : Name → Prop} {Φ : Table Path Module → σ → τ → Prop} {Q : α → Prop}
    {act : Render σ α} {act' : Render τ α} {enter : Sheet → Sheet} {leave : Sheet → Sheet → Sheet}
    (he : ∀ s, s.CallsOnly ok → (enter s).CallsOnly ok)
    (hl : ∀ s s', s.CallsOnly ok → s'.CallsOnly ok → (leave s s').CallsOnly ok)
    (h : Simulates (Agree ok Φ) Q act act') :
    Simulates (Agree ok Φ) Q (Render.around act enter leave) (Render.around act' enter leave) := by
  intro s t hst a s' hs
  obtain ⟨inner, hi, rfl⟩ := run_around_eq_ok.1 hs
  have entered : Agree ok Φ { s with sheet := enter s.sheet } { t with sheet := enter t.sheet } :=
    ⟨congrArg enter hst.sheet, hst.modules, he _ hst.calls, hst.kept, hst.host⟩
  obtain ⟨inner', hi', hii', ha⟩ := h _ _ entered a inner hi
  refine ⟨_, run_around_eq_ok.2 ⟨inner', hi', rfl⟩,
    ⟨?_, hii'.modules, hl _ _ hst.calls hii'.calls, hii'.kept, hii'.host⟩, ha⟩
  rw [hst.sheet, hii'.sheet]

variable [Log.Sink σ] [Log.Sink τ]

/-- **The comparison by a relation of the hosts** that records do not touch. -/
def simulation (ok : Name → Prop) (Φ : Table Path Module → σ → τ → Prop)
    (hΦ : ∀ {m h h'} (r : Log.Record), Φ m h h' → Φ m (Log.Sink.write r h) (Log.Sink.write r h')) :
    Comparison σ τ where
  ok := ok
  Rel := Simulates (Agree ok Φ)
  weaken h hQ s t hst a s' hs := by
    obtain ⟨t', ht, hst', ha⟩ := h s t hst a s' hs
    exact ⟨t', ht, hst', hQ a ha⟩
  ret ha s t hst b s' hs := by
    obtain ⟨rfl, rfl⟩ := run_pure_eq_ok.1 hs
    exact ⟨t, rfl, hst, ha⟩
  fail e s t _ a s' hs := by cases hs
  seq h hn s t hst b s'' hs := by
    obtain ⟨a, s', hs', hb⟩ := run_bind_eq_ok.1 hs
    obtain ⟨t', ht', hst', ha⟩ := h s t hst a s' hs'
    obtain ⟨t'', ht'', hst'', hQ⟩ := hn a ha s' t' hst' b s'' hb
    exact ⟨t'', run_bind_eq_ok.2 ⟨a, t', ht', ht''⟩, hst'', hQ⟩
  sheet s t hst a s' hs := by
    cases hs
    refine ⟨t, ?_, hst, hst.calls⟩
    rw [← hst.sheet]
    rfl
  module? p s t hst a s' hs := by
    cases hs
    refine ⟨t, ?_, hst, fun m hm => hst.kept.find? hm⟩
    rw [← hst.modules]
    rfl
  modifySheet hf s t hst a s' hs := by
    cases hs
    refine ⟨{ t with sheet := _ }, rfl,
      ⟨?_, hst.modules, hf _ hst.calls, hst.kept, hst.host⟩, trivial⟩
    rw [hst.sheet]
  around := Simulates.around
  report level text s t hst a s' hs := by
    cases hs
    exact ⟨_, rfl, ⟨hst.sheet, hst.modules, hst.calls, hst.kept, hΦ _ hst.host⟩, trivial⟩

/-! ### Restrictions -/

/-- A step is the same with less allowed if its state is bounded in the end, and it was bounded
before then. -/
def Restricts (Bound : σ → Prop) (Q : α → Prop) (act act' : Render σ α) : Prop :=
  ∀ s a s', act.run s = (.ok a, s') →
    Q a ∧ (Bound s'.host → Bound s.host ∧ act'.run s = (.ok a, s'))

/-- **The comparison by a bound** on the state of the host that records do not touch. -/
def restriction (Bound : σ → Prop)
    (hb : ∀ {h} (r : Log.Record), Bound (Log.Sink.write r h) → Bound h) : Comparison σ σ where
  ok _ := True
  Rel := Restricts Bound
  weaken h hQ s a s' hs := ⟨hQ a (h s a s' hs).1, (h s a s' hs).2⟩
  ret ha s b s' hs := by
    obtain ⟨rfl, rfl⟩ := run_pure_eq_ok.1 hs
    exact ⟨ha, fun h => ⟨h, rfl⟩⟩
  fail e s a s' hs := by cases hs
  seq h hn s b s'' hs := by
    obtain ⟨a, s', hs', hb⟩ := run_bind_eq_ok.1 hs
    obtain ⟨ha, first⟩ := h s a s' hs'
    obtain ⟨hQ, second⟩ := hn a ha s' b s'' hb
    refine ⟨hQ, fun hbound => ?_⟩
    obtain ⟨hbetween, hrest⟩ := second hbound
    exact ⟨(first hbetween).1, run_bind_eq_ok.2 ⟨a, s', (first hbetween).2, hrest⟩⟩
  sheet s a s' hs := by
    cases hs
    exact ⟨fun _ _ _ _ => trivial, fun h => ⟨h, rfl⟩⟩
  module? p s a s' hs := by
    cases hs
    exact ⟨fun _ _ _ _ _ _ => trivial, fun h => ⟨h, rfl⟩⟩
  modifySheet _ s a s' hs := by
    cases hs
    exact ⟨trivial, fun h => ⟨h, rfl⟩⟩
  around _ _ h s a s' hs := by
    obtain ⟨inner, hi, rfl⟩ := run_around_eq_ok.1 hs
    obtain ⟨ha, hrest⟩ := h _ a inner hi
    refine ⟨ha, fun hbound => ⟨(hrest hbound).1, ?_⟩⟩
    exact run_around_eq_ok.2 ⟨inner, (hrest hbound).2, rfl⟩
  report level text s a s' hs := by
    cases hs
    exact ⟨trivial, fun h => ⟨hb _ h, rfl⟩⟩

end Comparison
end Render
end Stylesheet
