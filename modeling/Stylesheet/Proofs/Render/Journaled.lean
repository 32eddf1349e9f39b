import Stylesheet.Proofs.Builtin.Outcomes
import Stylesheet.Proofs.Render.Holdings
import Stylesheet.Proofs.Render.Journal

/-!
# What a journal shows

A rendering with a journal goes along with the rendering itself: the same results and the same
states, with a sound journal. The journal is sound if the references of all states in it hold, then
and for good, if its values belong to a closed family as far as those of the host do, and if it
stays within the limits. What is known at one moment is known at every later one.

* `Journal.Sound`: what a sound journal shows.
* `Setting.Sound`: a state with a sound journal that leads to it.
* `Setting.Goes`: a step goes along with the same step that keeps a journal.
-/

namespace Stylesheet

open Render

/-! ### Entries -/

namespace Entry

/-- The references of a state hold when it is passed. -/
def Reaches : Entry → Prop
  | .passed sheet modules => sheet.Reaches modules ∧ modules.All (Module.Reaches modules)
  | _ => True

/-- The references of a stylesheet that was passed hold among some modules. -/
def Stands (modules : Table Path Module) : Entry → Prop
  | .passed sheet _ => sheet.Reaches modules
  | _ => True

/-- The references of a stylesheet that was passed hold at a later moment. -/
def Outlives (later earlier : Entry) : Prop :=
  match later with
  | .passed _ modules => earlier.Stands modules
  | _ => True

/-- All values that are in reach, kept or used belong to a family. -/
def Holds (V : Value → Prop) : Entry → Prop
  | .passed sheet modules => sheet.scopes.All V ∧ modules.All fun m => m.bindings.All V
  | .used vs => ∀ v ∈ vs, V v
  | _ => True

theorem Stands.grow {modules modules' : Table Path Module} {e : Entry} (h : e.Stands modules)
    (hg : Grows modules modules') : e.Stands modules' := by
  cases e with
  | passed sheet _ => exact Sheet.Reaches.grow h hg
  | _ => trivial

theorem Holds.imp {V W : Value → Prop} {e : Entry} (h : e.Holds V) (hVW : ∀ v, V v → W v) :
    e.Holds W := by
  cases e with
  | passed sheet modules => exact ⟨h.1.imp hVW, h.2.imp fun _ hm => hm.imp hVW⟩
  | used vs => exact fun v hv => hVW v (h v hv)
  | _ => trivial

end Entry

namespace Journal

/-! ### Journals -/

variable {V : Value → Prop} {limits : Limits} {es es' : Journal}

/-- Everything that functions of the host returned belongs to a family. -/
def Answered (V : Value → Prop) (es : Journal) : Prop := ∀ v, Entry.answered v ∈ es → V v

/-- A value belongs to a family if everything does that functions of the host returned. -/
def Known (V : Value → Prop) (es : Journal) (v : Value) : Prop := Answered V es → V v

theorem Answered.of_suffix (h : Answered V es') (hs : es <:+ es') : Answered V es :=
  fun v hv => h v (hs.mem hv)

theorem Known.later {v : Value} (h : Known V es v) (hs : es <:+ es') : Known V es' v :=
  fun ha => h (ha.of_suffix hs)

/-- **A sound journal** within limits. -/
structure Sound (V : Value → Prop) (limits : Limits) (es : Journal) : Prop where
  /-- The references of every state hold. -/
  reaches : ∀ e ∈ es, e.Reaches
  /-- They hold at every later moment as well. -/
  outlives : es.Pairwise Entry.Outlives
  /-- The values belong to the family if those of the host do. -/
  holds : Answered V es → ∀ e ∈ es, e.Holds V
  /-- At no moment are more calls or files open than allowed. -/
  bounded : ∀ ds, ds <:+ es → depth .call ds ≤ limits.calls ∧ depth .file ds ≤ limits.imports
  /-- The body of no loop runs more often than allowed. -/
  rounds : ∀ n, Entry.round n ∈ es → n ≤ limits.rounds
  /-- The clock did not run out. -/
  runs : Entry.stopped ∉ es

theorem sound_nil : Sound V limits [] where
  reaches := nofun
  outlives := .nil
  holds _ := nofun
  bounded ds hds := by
    rw [List.suffix_nil.1 hds]
    exact ⟨Nat.zero_le _, Nat.zero_le _⟩
  rounds := nofun
  runs := nofun

/-- One more entry in a sound journal. -/
theorem Sound.cons (h : Sound V limits es) {e : Entry} (hreaches : e.Reaches)
    (houtlives : ∀ e' ∈ es, e.Outlives e') (hholds : e.Holds (Known V (e :: es)))
    (hcalls : depth .call (e :: es) ≤ limits.calls) (hfiles : depth .file (e :: es) ≤ limits.imports)
    (hround : ∀ n, e = .round n → n ≤ limits.rounds) (hruns : e ≠ .stopped) :
    Sound V limits (e :: es) where
  reaches := List.forall_mem_cons.2 ⟨hreaches, h.reaches⟩
  outlives := List.pairwise_cons.2 ⟨houtlives, h.outlives⟩
  holds ha := by
    refine List.forall_mem_cons.2 ⟨hholds.imp fun _ hv => hv ha, h.holds ?_⟩
    exact ha.of_suffix (List.suffix_cons e es)
  bounded ds hds := by
    rcases List.suffix_cons_iff.1 hds with rfl | hds
    · exact ⟨hcalls, hfiles⟩
    · exact h.bounded ds hds
  rounds n hn := by
    rcases List.mem_cons.1 hn with hn | hn
    · exact hround n hn.symm
    · exact h.rounds n hn
  runs hmem := by
    rcases List.mem_cons.1 hmem with hmem | hmem
    · exact hruns hmem.symm
    · exact h.runs hmem

end Journal

open Journal (Known)

/-! ### Moments of a rendering -/

/-- The functions of a host make values of a family of such values. -/
def Host.Honest {σ : Type} (V : Value → Prop) (h : Host σ) : Prop :=
  ∀ name f, h.functions.function? name = some f → ∀ args g v, (∀ a ∈ args, V a) →
    (f args g).1 = .ok v → V v

/-- The moment at which a step of a rendering starts. -/
structure Setting (σ : Type) where
  host : Host σ
  family : Value → Prop
  closed : Value.Closed family
  limits : Limits
  clock : Nat
  /-- The clock outlasts the rendering. -/
  ample : limits.imports + limits.calls + limits.rounds < clock
  /-- How many calls are open. -/
  calls : Nat
  /-- How many files are open. -/
  files : Nat

/-- The same moment but for the calls and files that are open. -/
def Setting.at {σ : Type} (S : Setting σ) (calls files : Nat) : Setting σ :=
  { S with calls, files }

/-- What is entered at that moment. -/
abbrev Setting.notes {σ : Type} (S : Setting σ) : Notes (Traced Entry σ) := Journal.notes S.clock

variable {σ α β : Type} {S : Setting σ}

/-- **A sound state** with the journal that leads to it. -/
structure Setting.Sound (S : Setting σ) (s : State σ) (es : Journal) : Prop where
  journal : Journal.Sound S.family S.limits es
  calls : Journal.depth .call es = S.calls
  files : Journal.depth .file es = S.files
  reaches : s.sheet.Reaches s.modules
  holds : s.sheet.Holds (Known S.family es)
  modulesReach : s.modules.All (Module.Reaches s.modules)
  modulesHold : s.modules.All (Module.Holds (Known S.family es))
  stands : ∀ e ∈ es, e.Stands s.modules
  answers : S.host.Honest S.family → Journal.Answered S.family es

/-- **What stays** from one moment to a later one: what is entered, the modules that are loaded and
the path of the stylesheet. -/
structure Later (s : State σ) (es : Journal) (s' : State σ) (es' : Journal) : Prop where
  journal : es <:+ es'
  modules : Grows s.modules s'.modules
  path : s'.sheet.path = s.sheet.path

theorem Later.refl (s : State σ) (es : Journal) : Later s es s es :=
  ⟨List.suffix_rfl, Grows.refl _, rfl⟩

theorem Later.trans {s s' s'' : State σ} {es es' es'' : Journal} (h : Later s es s' es')
    (h' : Later s' es' s'' es'') : Later s es s'' es'' :=
  ⟨h.journal.trans h'.journal, h.modules.trans h'.modules, h'.path.trans h.path⟩

namespace Setting

/-- The family of what is known of values. -/
abbrev Knows (S : Setting σ) (es : Journal) (v : Value) : Prop := Known S.family es v

theorem knows_closed (S : Setting σ) (es : Journal) : Value.Closed (S.Knows es) := S.closed.under _

namespace Sound

variable {s s' : State σ} {es es' : Journal}

theorem bounded (h : S.Sound s es) : S.calls ≤ S.limits.calls ∧ S.files ≤ S.limits.imports := by
  have hb := h.journal.bounded es List.suffix_rfl
  rwa [h.calls, h.files] at hb

/-- Another stylesheet in place of the one that is running. -/
theorem withSheet (h : S.Sound s es) {sheet : Sheet} (hreaches : sheet.Reaches s.modules)
    (hholds : sheet.Holds (S.Knows es)) : S.Sound { s with sheet } es :=
  { h with reaches := hreaches, holds := hholds }

/-- Other variables in reach. -/
theorem withScopes (h : S.Sound s es) {scopes : Scopes} (hs : scopes.All (S.Knows es)) :
    S.Sound { s with sheet := { s.sheet with scopes } } es :=
  h.withSheet ⟨h.reaches.functions, h.reaches.namespaces⟩ ⟨hs, h.holds.functions⟩

/-- The stylesheet of an earlier moment in place of the one that is running. -/
theorem back (h : S.Sound s es) (hl : es <:+ es') (hg : Grows s.modules s'.modules)
    (h' : S.Sound s' es') : S.Sound { s' with sheet := s.sheet } es' :=
  h'.withSheet (h.reaches.grow hg) (h.holds.imp fun _ hv => hv.later hl)

theorem withHost (h : S.Sound s es) (g : σ) : S.Sound { s with host := g } es :=
  { h with }

/-- **One more entry,** behind which other calls and files may be open. -/
theorem enter (h : S.Sound s es) {e : Entry} {calls files : Nat}
    (hcalls : Journal.depth .call (e :: es) = calls) (hfiles : Journal.depth .file (e :: es) = files)
    (hc : calls ≤ S.limits.calls) (hf : files ≤ S.limits.imports) (hreaches : e.Reaches)
    (hstands : e.Stands s.modules) (houtlives : ∀ e' ∈ es, e.Outlives e')
    (hholds : e.Holds (S.Knows (e :: es))) (hround : ∀ n, e = .round n → n ≤ S.limits.rounds)
    (hruns : e ≠ .stopped) (hanswer : ∀ v, e = .answered v → S.host.Honest S.family → S.family v) :
    (S.at calls files).Sound s (e :: es) where
  journal := h.journal.cons hreaches houtlives hholds (hcalls ▸ hc) (hfiles ▸ hf) hround hruns
  calls := hcalls
  files := hfiles
  reaches := h.reaches
  holds := h.holds.imp fun _ hv => hv.later (List.suffix_cons e es)
  modulesReach := h.modulesReach
  modulesHold := h.modulesHold.imp fun _ hm => hm.imp fun _ hv => hv.later (List.suffix_cons e es)
  stands := List.forall_mem_cons.2 ⟨hstands, h.stands⟩
  answers hh v hv := by
    rcases List.mem_cons.1 hv with hv | hv
    · exact hanswer v hv.symm hh
    · exact h.answers hh v hv

/-- The state itself is entered. -/
theorem look (h : S.Sound s es) : S.Sound s (.passed s.sheet s.modules :: es) := by
  have hl := List.suffix_cons (Entry.passed s.sheet s.modules) es
  refine h.enter h.calls h.files h.bounded.1 h.bounded.2 ⟨h.reaches, h.modulesReach⟩ h.reaches
    h.stands ⟨?_, ?_⟩ nofun nofun nofun
  · exact h.holds.scopes.imp fun _ hv => hv.later hl
  · exact h.modulesHold.imp fun _ hm => hm.bindings.imp fun _ hv => hv.later hl

theorem use (h : S.Sound s es) {vs : List Value} (hvs : ∀ v ∈ vs, S.Knows es v) :
    S.Sound s (.used vs :: es) :=
  h.enter h.calls h.files h.bounded.1 h.bounded.2 trivial trivial (fun _ _ => trivial)
    (fun v hv => (hvs v hv).later (List.suffix_cons _ _)) nofun nofun nofun

/-- What an honest host returns belongs to the family. -/
theorem answer (h : S.Sound s es) {v : Value} (hv : S.host.Honest S.family → S.family v) :
    S.Sound s (.answered v :: es) :=
  h.enter h.calls h.files h.bounded.1 h.bounded.2 trivial trivial (fun _ _ => trivial) trivial nofun
    nofun (fun w hw => by injection hw with hw; exact hw ▸ hv)

theorem round (h : S.Sound s es) {n : Nat} (hn : n ≤ S.limits.rounds) :
    S.Sound s (.round n :: es) :=
  h.enter h.calls h.files h.bounded.1 h.bounded.2 trivial trivial (fun _ _ => trivial) trivial
    (fun k hk => by injection hk with hk; exact hk ▸ hn) nofun nofun

/-- A module that is done is kept. -/
theorem keep (h : S.Sound s es) {sheet : Sheet} {p : Path} (hp : sheet.path = some p)
    (hreaches : sheet.Reaches s.modules) (hholds : sheet.Holds (S.Knows es)) :
    S.Sound { s with modules := s.modules.insert p sheet.toModule } es where
  journal := h.journal
  calls := h.calls
  files := h.files
  reaches := h.reaches.grow (grows_insert _ _ _)
  holds := h.holds
  modulesReach := Module.reaches_keep h.modulesReach (Module.reaches_toModule hreaches hp)
  modulesHold := h.modulesHold.insert p hholds.toModule
  stands e he := (h.stands e he).grow (grows_insert _ _ _)
  answers := h.answers

end Sound

/-! ### Steps that go along with a journal -/

/-- **A step goes along** with one that keeps a journal: both do the same, the state and the journal
stay sound, and the result is what it should be, and no error that is excluded. -/
def Goes (S : Setting σ) (Q : State σ → Journal → α → Prop) (act : Render σ α)
    (act' : Journal.Step σ α) (s : State σ) (es : Journal) : Prop :=
  S.Sound s es → ∃ es', act'.run (Traced.ofState s es) =
      ((act.run s).1, Traced.ofState (act.run s).2 es') ∧
    S.Sound (act.run s).2 es' ∧ Later s es (act.run s).2 es' ∧
    Outcome (·.isExcluded = false) (Q (act.run s).2 es') (act.run s).1

/-- Nothing in particular. -/
abbrev Any (_ : State σ) (_ : Journal) (_ : α) : Prop := True

/-- A property of the result, where nothing is changed. -/
abbrev Same (P : α → Prop) (s : State σ) (es : Journal) (s' : State σ) (es' : Journal) (a : α) :
    Prop := s' = s ∧ es' = es ∧ P a

namespace Goes

variable {Q : State σ → Journal → α → Prop} {Q' : State σ → Journal → β → Prop} {act : Render σ α}
  {act' : Journal.Step σ α} {s : State σ} {es : Journal}

/-- A step whose runs are known. -/
theorem of_run {r : Except RenderError α} {s' : State σ} {es' : Journal}
    (hrun : act.run s = (r, s'))
    (hrun' : act'.run (Traced.ofState s es) = (r, Traced.ofState s' es'))
    (h : S.Sound s es → S.Sound s' es' ∧ Later s es s' es' ∧
      Outcome (·.isExcluded = false) (Q s' es') r) : S.Goes Q act act' s es := by
  intro hs
  rw [hrun]
  exact ⟨es', hrun', h hs⟩

theorem mono {P : State σ → Journal → α → Prop} (h : S.Goes Q act act' s es)
    (hQ : ∀ s' es' a, Later s es s' es' → Q s' es' a → P s' es' a) : S.Goes P act act' s es := by
  intro hs
  obtain ⟨es', hrun, hs', hl, hr⟩ := h hs
  exact ⟨es', hrun, hs', hl, hr.mono fun a ha => hQ _ _ a hl ha⟩

/-- What is known of the state may be used for a step. -/
theorem knowing (h : S.Sound s es → S.Goes Q act act' s es) : S.Goes Q act act' s es :=
  fun hs => h hs hs

theorem ret {a : α} (ha : Q s es a) : S.Goes Q (pure a) (pure a) s es :=
  of_run rfl rfl fun hs => ⟨hs, .refl s es, ha⟩

theorem fail {e : RenderError} (he : e.isExcluded = false := by rfl) :
    S.Goes Q (throw e) (throw e) s es := by
  have hrun : (throw e : Render σ α).run s = (.error e, s) := rfl
  exact of_run hrun rfl fun hs => ⟨hs, .refl s es, he⟩

/-- **Steps in sequence** go along, whatever is known behind the first. -/
theorem bind {next : α → Render σ β} {next' : α → Journal.Step σ β} (h : S.Goes Q act act' s es)
    (hn : ∀ a s' es', Later s es s' es' → Q s' es' a → S.Goes Q' (next a) (next' a) s' es') :
    S.Goes Q' (act >>= next) (act' >>= next') s es := by
  intro hs
  obtain ⟨es', hrun, hs', hl, hr⟩ := h hs
  rw [run_bind, run_bind, hrun]
  rcases hact : act.run s with ⟨e | a, s'⟩
  · rw [hact] at hs' hl hr
    exact ⟨es', rfl, hs', hl, hr⟩
  · rw [hact] at hs' hl hr
    obtain ⟨es'', hrun', hs'', hl', hr'⟩ := hn a s' es' hl hr hs'
    exact ⟨es'', hrun', hs'', hl.trans hl', hr'⟩

/-- Steps behind one that changes nothing. -/
theorem reading {P : α → Prop} {next : α → Render σ β} {next' : α → Journal.Step σ β}
    (h : S.Goes (Same P s es) act act' s es) (hn : ∀ a, P a → S.Goes Q' (next a) (next' a) s es) :
    S.Goes Q' (act >>= next) (act' >>= next') s es := by
  refine bind h fun a s' es' _ ha => ?_
  obtain ⟨rfl, rfl, ha⟩ := ha
  exact hn a ha

/-- What is read may be all that is asked for. -/
theorem result {P : α → Prop} (h : S.Goes (Same P s es) act act' s es) (hQ : ∀ a, P a → Q s es a) :
    S.Goes Q act act' s es := by
  refine h.mono fun s' es' a _ ha => ?_
  obtain ⟨rfl, rfl, ha⟩ := ha
  exact hQ a ha

theorem same {P : α → Prop} {a : α} (ha : P a) : S.Goes (Same P s es) (pure a) (pure a) s es :=
  ret ⟨rfl, rfl, ha⟩

/-- A part of a rule, or a fault that is none of a number. -/
theorem ofFault {P : α → Prop} {r : Except Fault α} (h : Outcome (·.isUnread = false) P r) :
    S.Goes (Same P s es) (ofFault r) (ofFault r) s es := by
  cases r with
  | ok a => exact same h
  | error f => exact fail h

theorem ofExcept {P : α → Prop} {r : Except RenderError α}
    (h : Outcome (·.isExcluded = false) P r) :
    S.Goes (Same P s es) (Render.ofExcept r) (Render.ofExcept r) s es := by
  cases r with
  | ok a => exact same h
  | error e => exact fail h

theorem sheet : S.Goes (Same (· = s.sheet) s es) Render.sheet Render.sheet s es :=
  of_run rfl rfl fun hs => ⟨hs, .refl s es, rfl, rfl, rfl⟩

theorem module? (p : Path) :
    S.Goes (Same (· = s.modules.find? p) s es) (Render.module? p) (Render.module? p) s es :=
  of_run rfl rfl fun hs => ⟨hs, .refl s es, rfl, rfl, rfl⟩

/-- A change of the stylesheet that keeps it sound, and keeps its path. -/
theorem modifySheet {f : Sheet → Sheet}
    (hf : S.Sound s es → S.Sound { s with sheet := f s.sheet } es)
    (hpath : (f s.sheet).path = s.sheet.path) :
    S.Goes Any (Render.modifySheet f) (Render.modifySheet f) s es :=
  of_run rfl rfl fun hs => ⟨hf hs, ⟨List.suffix_rfl, Grows.refl _, hpath⟩, trivial⟩

theorem modifyScopes {f : Scopes → Scopes}
    (hf : s.sheet.scopes.All (S.Knows es) → (f s.sheet.scopes).All (S.Knows es)) :
    S.Goes Any (Render.modifyScopes f) (Render.modifyScopes f) s es :=
  modifySheet (f := fun sheet => { sheet with scopes := f sheet.scopes })
    (fun hs => hs.withScopes (hf hs.holds.scopes)) rfl

/-- A step that is undone in part. -/
theorem around {P : State σ → Journal → α → Prop} {enter : Sheet → Sheet}
    {leave : Sheet → Sheet → Sheet}
    (henter : S.Sound s es → S.Sound { s with sheet := enter s.sheet } es)
    (h : S.Goes Q act act' { s with sheet := enter s.sheet } es)
    (hleave : ∀ s' es', S.Sound s es → Later { s with sheet := enter s.sheet } es s' es' →
      S.Sound s' es' → S.Sound { s' with sheet := leave s.sheet s'.sheet } es' ∧
        (leave s.sheet s'.sheet).path = s.sheet.path)
    (hQ : ∀ s' es' a, Q s' es' a → P { s' with sheet := leave s.sheet s'.sheet } es' a) :
    S.Goes P (Render.around act enter leave) (Render.around act' enter leave) s es := by
  intro hs
  obtain ⟨es', hrun, hs', hl, hr⟩ := h (henter hs)
  obtain ⟨hback, hpath⟩ := hleave _ _ hs hl hs'
  refine ⟨es', ?_, hback, ⟨hl.journal, hl.modules, hpath⟩, hr.mono fun a => hQ _ _ a⟩
  rw [run_around, run_around]
  exact congrArg (fun r => (r.1, { r.2 with sheet := leave s.sheet r.2.sheet })) hrun

/-! ### Entries -/

/-- An entry before a step that goes along. -/
theorem entering {e : Entry} (he : S.Sound s es → S.Sound s (e :: es))
    (h : S.Goes Q act act' s (e :: es)) :
    S.Goes Q act (Traced.note e >>= fun _ => act') s es := by
  intro hs
  obtain ⟨es', hrun, hs', hl, hr⟩ := h (he hs)
  exact ⟨es', hrun, hs', ⟨(List.suffix_cons e es).trans hl.journal, hl.modules, hl.path⟩, hr⟩

theorem looking (h : ∀ es', Later s es s es' → S.Goes Q act act' s es') :
    S.Goes Q act (Journal.look >>= fun _ => act') s es :=
  entering (e := .passed s.sheet s.modules) (fun hs => hs.look)
    (h _ ⟨List.suffix_cons _ es, Grows.refl _, rfl⟩)

theorem handing {vs : List Value} (hvs : ∀ v ∈ vs, S.Knows es v)
    (h : ∀ es', Later s es s es' → S.Goes Q act act' s es') :
    S.Goes Q act (Journal.use vs >>= fun _ => act') s es :=
  entering (fun hs => hs.use hvs) (h _ ⟨List.suffix_cons _ es, Grows.refl _, rfl⟩)

/-- A step inside one more call or file. -/
theorem inside {what : Nesting} {calls files : Nat}
    (hcalls : calls = if what = .call then S.calls + 1 else S.calls)
    (hfiles : files = if what = .file then S.files + 1 else S.files)
    (hc : calls ≤ S.limits.calls) (hf : files ≤ S.limits.imports)
    (hQ : ∀ s' es' e a, Q s' es' a → Q s' (e :: es') a)
    (h : (S.at calls files).Goes Q act act' s (.opened what :: es)) :
    S.Goes Q act (Journal.inside what act') s es := by
  intro hs
  have hcall : Journal.depth .call (.opened what :: es) = calls := by
    rw [hcalls, ← hs.calls]
    rfl
  have hfile : Journal.depth .file (.opened what :: es) = files := by
    rw [hfiles, ← hs.files]
    rfl
  have hopened : (S.at calls files).Sound s (.opened what :: es) :=
    hs.enter hcall hfile hc hf trivial trivial (fun _ _ => trivial) trivial nofun nofun nofun
  obtain ⟨es', hrun, hs', hl, hr⟩ := h hopened
  refine ⟨.closed what :: es', ?_, ?_, ?_, hr.mono fun a ha => hQ _ _ _ a ha⟩
  · exact congrArg (fun r => (r.1, { r.2 with
      host := { r.2.host with history := Entry.closed what :: r.2.host.history } })) hrun
  · refine hs'.enter ?_ ?_ hs.bounded.1 hs.bounded.2 trivial trivial (fun _ _ => trivial) trivial
      nofun nofun nofun
    · rw [Journal.depth, hs'.calls]
      change (if what = .call then calls - 1 else calls) = S.calls
      rw [hcalls]
      split <;> rfl
    · rw [Journal.depth, hs'.files]
      change (if what = .file then files - 1 else files) = S.files
      rw [hfiles]
      split <;> rfl
  · exact ⟨(List.suffix_cons _ es).trans (hl.journal.trans (List.suffix_cons _ es')), hl.modules,
      hl.path⟩

/-! ### Hosts -/

theorem lift (step : StateM σ α) :
    S.Goes Any (ofHost step) (ofHost (Traced.lift step)) s es :=
  of_run rfl rfl fun hs => ⟨hs.withHost _, ⟨List.suffix_rfl, Grows.refl _, rfl⟩, trivial⟩

theorem report [Log.Sink σ] (level : Log.Level) (text : String) :
    S.Goes Any (Render.report level text) (Render.report level text) s es :=
  of_run rfl rfl fun hs => ⟨hs.withHost _, ⟨List.suffix_rfl, Grows.refl _, rfl⟩, trivial⟩

/-- A function of the host gets values that are known, and what it returns is entered. -/
theorem asked {name : String} {f : HostFunction σ} (hf : S.host.functions.function? name = some f)
    {args : List Value} (hargs : ∀ v ∈ args, S.Knows es v) :
    S.Goes (fun _ es' r => ∀ v, r = .ok v → S.Knows es' v) (ofHost (f args))
      (ofHost (Journal.asked f args)) s es := by
  intro hs
  have hused := (hs.withHost (f args s.host).2).use hargs
  change ∃ es', ((Except.ok (f args s.host).1 : Except RenderError (Except String Value)),
      Traced.ofState { s with host := (f args s.host).2 }
        (Journal.answers (f args s.host).1 ++ .used args :: es)) =
      (.ok (f args s.host).1, Traced.ofState { s with host := (f args s.host).2 } es') ∧ _
  refine ⟨_, rfl, ?_, ⟨?_, Grows.refl _, rfl⟩, ?_⟩
  · cases hr : (f args s.host).1 with
    | ok v =>
      refine hused.answer fun hh => ?_
      exact hh name f hf args s.host v (fun a ha => hargs a ha (hs.answers hh)) hr
    | error message => exact hused
  · exact (List.suffix_cons _ _).trans (List.suffix_append _ _)
  · change ∀ v, (f args s.host).1 = .ok v → _
    intro v hv ha
    rw [hv] at ha
    exact ha v List.mem_cons_self

end Goes
end Setting
end Stylesheet
