import Stylesheet.Proofs.Render.Simulation

/-!
# Hosts with a history

A host whose state also keeps events, the latest first. It answers as before and notes nothing by
itself; steps that go together with and without the history differ in nothing else.

* `Traced.host`: a host with a history.
* `Traced.forgetting`: the comparison that leaves the history out, of successes and failures alike.
-/

namespace Stylesheet

open Render

/-- The state of a host with a history. -/
structure Traced (ε σ : Type) where
  inner : σ
  /-- The events so far, the latest first. -/
  history : List ε

namespace Traced

variable {ε σ α : Type}

/-- A step of the host. -/
def lift (step : StateM σ α) : StateM (Traced ε σ) α := fun t =>
  let (a, inner) := step t.inner
  (a, { t with inner })

/-- The same host with a history. -/
def host (h : Host σ) : Host (Traced ε σ) where
  importer url origin := lift (h.importer url origin)
  functions := ⟨h.functions.entries.map fun (n, f) => (n, fun args => lift (f args))⟩
  read := h.read

/-- Note an event. -/
def note (e : ε) : Render (Traced ε σ) Unit :=
  ofHost (modify fun t => { t with history := e :: t.history })

/-- Note an event behind a step, whether it fails or not. The event may tell of the stylesheet that
is running then. -/
def closing (e : Sheet → ε) (act : Render (Traced ε σ) α) : Render (Traced ε σ) α :=
  ExceptT.mk fun s =>
    let (r, s') := act.run s
    (r, { s' with host := { s'.host with history := e s'.sheet :: s'.host.history } })

/-- Another host function under every name of a registry. -/
theorem find?_host (h : Host σ) (name : String) :
    (host h : Host (Traced ε σ)).functions.function? name =
      (h.functions.function? name).map fun f args => lift (f args) := by
  unfold Registry.function? Table.find? host
  rw [List.find?_map, Option.map_map, Option.map_map]
  rfl

instance [Log.Sink σ] : Log.Sink (Traced ε σ) :=
  ⟨fun r t => { t with inner := Log.Sink.write r t.inner }⟩

/-! ### Leaving the history out -/

/-- A state of a rendering with a history. -/
def ofState (s : State σ) (es : List ε) : State (Traced ε σ) := ⟨s.sheet, s.modules, ⟨s.host, es⟩⟩

/-- A step with a history does what the step without it does. -/
def Forgets (Q : α → Prop) (act : Render σ α) (act' : Render (Traced ε σ) α) : Prop :=
  ∀ s es, (∃ es', act'.run (ofState s es) = ((act.run s).1, ofState (act.run s).2 es')) ∧
    ∀ a, (act.run s).1 = .ok a → Q a

theorem Forgets.run {Q : α → Prop} {act : Render σ α} {act' : Render (Traced ε σ) α}
    (h : Forgets Q act act') {s s' : State σ} {r : Except RenderError α} (es : List ε)
    (hs : act.run s = (r, s')) : ∃ es', act'.run (ofState s es) = (r, ofState s' es') := by
  obtain ⟨es', h'⟩ := (h s es).1
  rw [hs] at h'
  exact ⟨es', h'⟩

theorem Forgets.run_inner {Q : α → Prop} {act : Render σ α} {act' : Render (Traced ε σ) α}
    (h : Forgets Q act act') {s : State σ} {es : List ε} {t : State (Traced ε σ)}
    {r : Except RenderError α} (ht : act'.run (ofState s es) = (r, t)) :
    ∃ s' es', act.run s = (r, s') ∧ t = ofState s' es' := by
  obtain ⟨es', h'⟩ := (h s es).1
  rw [ht] at h'
  cases h'
  exact ⟨_, es', rfl, rfl⟩

theorem Forgets.bind {β : Type} {P : α → Prop} {Q : β → Prop} {act : Render σ α}
    {act' : Render (Traced ε σ) α} {next : α → Render σ β} {next' : α → Render (Traced ε σ) β}
    (h : Forgets P act act') (hn : ∀ a, P a → Forgets Q (next a) (next' a)) :
    Forgets Q (act >>= next) (act' >>= next') := by
  intro s es
  rcases hs : act.run s with ⟨e | a, s'⟩
  · obtain ⟨es', hs'⟩ := h.run es hs
    rw [run_bind, run_bind, hs, hs']
    exact ⟨⟨es', rfl⟩, nofun⟩
  · obtain ⟨es', hs'⟩ := h.run es hs
    have ha : P a := (h s es).2 a (by rw [hs])
    rw [run_bind, run_bind, hs, hs']
    exact hn a ha s' es'

variable [Log.Sink σ]

/-- **The comparison that leaves the history out.** -/
def forgetting : Comparison σ (Traced ε σ) where
  ok _ := True
  Rel := Forgets
  weaken h hQ s es := ⟨(h s es).1, fun a ha => hQ a ((h s es).2 a ha)⟩
  ret ha s es := by
    refine ⟨⟨es, rfl⟩, fun b hb => ?_⟩
    cases hb
    exact ha
  fail e s es := ⟨⟨es, rfl⟩, nofun⟩
  seq := Forgets.bind
  sheet s es := ⟨⟨es, rfl⟩, fun _ _ _ _ _ _ => trivial⟩
  module? p s es := ⟨⟨es, rfl⟩, fun _ _ _ _ _ _ _ _ => trivial⟩
  modifySheet _ s es := ⟨⟨es, rfl⟩, fun _ _ => trivial⟩
  around {_ _ act act' enter leave} _ _ h s es := by
    obtain ⟨es', h'⟩ := (h { s with sheet := enter s.sheet } es).1
    refine ⟨⟨es', ?_⟩, fun a ha => (h { s with sheet := enter s.sheet } es).2 a ha⟩
    rw [run_around, run_around]
    exact congrArg (fun r => (r.1, { r.2 with sheet := leave s.sheet r.2.sheet })) h'
  report level text s es := ⟨⟨es, rfl⟩, fun _ _ => trivial⟩

/-- Every step of the host goes together with itself. -/
theorem forgets_lift (step : StateM σ α) :
    (forgetting (ε := ε)).Same (ofHost step) (ofHost (lift step)) :=
  fun _ es => ⟨⟨es, rfl⟩, fun _ _ => trivial⟩

theorem forgets_keep : (forgetting (ε := ε) (σ := σ)).Keeps :=
  fun _ _ _ _ es => ⟨⟨es, rfl⟩, fun _ _ => trivial⟩

theorem forgets_answers (h : Host σ) : (forgetting (ε := ε)).Answers h (host h) := by
  intro name _
  rw [find?_host]
  cases h.functions.function? name with
  | none => exact .inl ⟨rfl, rfl⟩
  | some f => exact .inr ⟨f, _, rfl, rfl, fun args => forgets_lift (f args)⟩

end Traced
end Stylesheet
