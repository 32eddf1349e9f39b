import Stylesheet.Proofs.Render.JournaledExec
import Stylesheet.Render.Run

/-!
# Calls and files with a journal

The calls that may still lie inside each other are those that are allowed and not open, and so are
the files. So a rendering goes along with itself: where it fails for its limits, as many calls or
files are open as allowed.

* `Setting.callers`: calls go along.
* `Setting.runners`: so do files.
* `Journal.render_sound`: a rendering keeps a sound journal.
-/

namespace Stylesheet

open Render

variable {σ α β : Type} {S : Setting σ}

namespace Setting.Goes

variable {s : State σ} {es : Journal}

/-! ### Calls -/

/-- The journal so far may be looked at. -/
theorem counting {Q : State σ → Journal → α → Prop} {act : Render σ α}
    {next' : Journal → Journal.Step σ α} (h : S.Sound s es → S.Goes Q act (next' es) s es) :
    S.Goes Q act (Journal.soFar >>= next') s es := knowing h

/-- The body of a function sees the variables of its stylesheet, and leaves the blocks of the
caller as they were. -/
theorem inFrame {act : Render σ (Option Value)} {act' : Journal.Step σ (Option Value)}
    (h : ∀ s, S.Goes S.Returns act act' s es) :
    S.Goes S.Returns (Render.inFrame act) (Render.inFrame act') s es := by
  unfold Render.inFrame
  refine around (fun hs => hs.withScopes ?_) (h _) ?_ fun _ _ _ hr => hr
  · exact ⟨List.forall_mem_singleton.2 Table.all_empty, hs.holds.scopes.global⟩
  · intro s' es' hs hl hs'
    refine ⟨hs'.withScopes ⟨fun block hb v hv => ?_, hs'.holds.scopes.global⟩, hl.path⟩
    exact (hs.holds.scopes.locals block hb v hv).later hl.journal

/-- Whatever a step does to another stylesheet is forgotten. -/
theorem inSheet {Q P : State σ → Journal → α → Prop} {act : Render σ α} {act' : Journal.Step σ α}
    {other : Sheet}
    (hother : S.Sound s es → other.Reaches s.modules ∧ other.Holds (S.Knows es))
    (h : S.Goes Q act act' { s with sheet := other } es)
    (hQ : ∀ s' es' a, Q s' es' a → P { s' with sheet := s.sheet } es' a) :
    S.Goes P (Render.inSheet other act) (Render.inSheet other act') s es := by
  refine around (fun hs => hs.withSheet (hother hs).1 (hother hs).2) h ?_ hQ
  intro s' es' hs hl hs'
  exact ⟨hs.back hl.journal hl.modules hs', rfl⟩

/-- **A function runs at home,** which is there wherever the function can be reached. -/
theorem atHome {f : UserFunction} (hf : f.Reaches s.modules s.sheet.path) (name : String)
    {act : Render σ (Option Value)} {act' : Journal.Step σ (Option Value)}
    (h : ∀ s, S.Goes S.Returns act act' s es) :
    S.Goes S.Returns (Render.atHome name f act) (Render.atHome name f act') s es := by
  refine knowing fun hs => ?_
  unfold Render.atHome
  unfold UserFunction.Reaches at hf
  cases hhome : f.home with
  | none => exact inFrame h
  | some p =>
    rw [hhome] at hf
    refine reading sheet ?_
    rintro _ rfl
    split
    · exact inFrame h
    · next hpath =>
      refine reading (module? p) ?_
      rintro _ rfl
      rcases hf with hp | ⟨m, hm⟩
      · -- the function belongs to the stylesheet that is running
        rw [hp, beq_self_eq_true] at hpath
        exact absurd rfl hpath
      · rw [hm]
        refine inSheet (fun hs => ⟨?_, ?_⟩) (inFrame h) fun _ _ _ hr => hr
        · exact Sheet.reaches_ofModule (hs.modulesReach.find? hm) p
        · exact Sheet.holds_ofModule (hs.modulesHold.find? hm) p

end Setting.Goes

namespace Setting

open Goes

section

variable [Log.Sink σ]

omit [Log.Sink σ] in
/-- What a call enters is known, and one call more is open for the arguments and the body. -/
theorem calling {args : Arguments} {s : State σ} {es : Journal} {act : Render σ (Option Value)}
    {act' : Journal.Step σ (Option Value)} (hcalls : S.calls < S.limits.calls) (hs : S.Sound s es)
    (hargs : args.All (S.Knows es))
    (h : ∀ es', es <:+ es' → (S.at (S.calls + 1) S.files).Goes S.Returns act act' s es') :
    S.Goes S.Returns act (Journal.call args act') s es := by
  have hcall : S.Goes S.Returns (act >>= pure) (Journal.call args act') s es := by
    refine looking fun es₁ hl₁ => handing (fun v hv => ?_) fun es₂ hl₂ => ?_
    · rcases List.mem_append.1 hv with hv | hv
      · exact (hargs.positional v hv).later hl₁.journal
      · obtain ⟨x, hx, rfl⟩ := List.mem_map.1 hv
        exact (hargs.named x hx).later hl₁.journal
    · refine bind (Q := S.Returns) ?_ fun r s₃ es₃ _ hr => ?_
      · refine inside rfl rfl hcalls hs.bounded.2
          (fun _ es e r hr v hv => (hr v hv).later (List.suffix_cons e es)) (h _ ?_)
        exact (hl₁.trans hl₂).journal.trans (List.suffix_cons _ _)
      · cases r with
        | none => exact ret fun v hv => by cases hv
        | some v =>
          have hv := hr v rfl
          refine handing (List.forall_mem_singleton.2 hv) fun es₄ hl₄ => ret fun w hw => ?_
          cases hw
          exact hv.later hl₄.journal
  rwa [bind_pure] at hcall

/-- A call goes along if the calls inside it do. -/
theorem invoke {caller : Caller σ} {caller' : Caller (Traced Entry σ)}
    (hcalls : S.calls < S.limits.calls)
    (callers : (S.at (S.calls + 1) S.files).Callers caller caller') :
    S.Callers (Render.invoke S.host S.limits caller)
      (Noted.invoke S.notes (Journal.host S.host) S.limits caller') := by
  intro name f args s es hplain hreaches hargs
  refine knowing fun hs => ?_
  unfold Render.invoke Noted.invoke
  refine bind (Q := S.Returns) (calling hcalls hs hargs ?_) fun r s₁ es₁ _ hr => ?_
  · -- the parameters are bound at home, and the body runs there
    refine fun es₁ hl₁ => atHome hreaches name fun s₂ => looking fun es₃ hl₃ => ?_
    have hbound : args.All (S.Knows es₃) := hargs.imp fun _ hv =>
      hv.later (hl₁.trans hl₃.journal)
    refine bind (bindAll callers name _ hplain.parameters hbound) fun _ s₄ es₄ _ _ => ?_
    exact looking fun es₅ _ => execAll callers .function hplain.body s₄ es₅
  · cases r with
    | none => exact fail
    | some v => exact ret (hr v rfl)

/-- **Calls** go along, of which as many may lie inside each other as are not open. -/
theorem callers {n clock : Nat} (hn : S.calls + n = S.limits.calls) (hclock : n < clock) :
    S.Callers (Render.callAt S.host S.limits n)
      (Journal.callAt S.clock (Journal.host S.host) S.limits clock) := by
  induction n generalizing S clock with
  | zero =>
    obtain ⟨clock, rfl⟩ := Nat.exists_eq_add_one_of_ne_zero (Nat.ne_of_gt hclock)
    intro name f args s es _ _ _
    refine counting fun hs => ?_
    rw [if_pos (by rw [hs.calls]; omega)]
    exact fail
  | succ n ih =>
    obtain ⟨clock, rfl⟩ := Nat.exists_eq_add_one_of_ne_zero (Nat.ne_zero_of_lt hclock)
    have deeper : (S.at (S.calls + 1) S.files).Callers (Render.callAt S.host S.limits n)
        (Journal.callAt S.clock (Journal.host S.host) S.limits clock) :=
      ih (S := S.at (S.calls + 1) S.files) (by change S.calls + 1 + n = S.limits.calls; omega)
        (by omega)
    intro name f args s es hplain hreaches hargs
    refine counting fun hs => ?_
    rw [if_neg (by rw [hs.calls]; omega)]
    exact invoke (by omega) deeper name f args s es hplain hreaches hargs

/-! ### Files -/

variable {s : State σ} {es : Journal}

omit [Log.Sink σ] in
theorem resolve (origin : Origin) (url : String) :
    S.Goes Any (Render.resolve S.host origin url)
      (Render.resolve (Journal.host S.host) origin url) s es := by
  unfold Render.resolve
  refine bind (lift (S.host.importer url origin)) fun r s' es' _ _ => ?_
  cases r with
  | ok p => exact ret trivial
  | error message => exact fail

/-- The statements of a file have no literals but scalars. -/
theorem readSheet (p : Path) :
    S.Goes (fun _ _ body => ∀ stmt ∈ body, stmt.Plain) (Render.readSheet S.host p)
      (Render.readSheet (Journal.host S.host) p) s es := by
  have hread : (Journal.host S.host).read = S.host.read := rfl
  unfold Render.readSheet
  rw [hread]
  refine bind (report _ _) fun _ s' es' _ _ => ?_
  cases S.host.read p with
  | error reason => exact fail
  | ok source =>
    dsimp only
    cases hp : parse source with
    | error e => exact fail
    | ok tree => exact ret (Stmt.plain_ofTree (legible_of_parse hp))

/-- Runs of the statements of files go along. -/
def Runners (S : Setting σ) (run : Runner σ) (run' : Runner (Traced Entry σ)) : Prop :=
  ∀ origin (body : List Stmt) s es, (∀ stmt ∈ body, stmt.Plain) →
    S.Goes Any (run origin body) (run' origin body) s es

/-- What runs another file goes along, if there is one. -/
inductive Nexts (S : Setting σ) : Option (Runner σ) → Option (Runner (Traced Entry σ)) → Prop
  | none : Nexts S none none
  | some {run : Runner σ} {run' : Runner (Traced Entry σ)} (hr : S.Runners run run') :
      Nexts S (some run) (some run')

variable {next : Option (Runner σ)} {next' : Option (Runner (Traced Entry σ))}

/-- **An imported file** runs in the stylesheet that imports it, with namespaces of its own. -/
theorem importFile (hn : S.Nexts next next') (origin : Origin) (url : String) :
    S.Goes Any (Render.importFile S.host S.limits next origin url)
      (Render.importFile (Journal.host S.host) S.limits next' origin url) s es := by
  unfold Render.importFile
  split
  · exact report _ _
  · refine bind (resolve origin url) fun p s₁ es₁ _ _ => ?_
    cases hn with
    | none => exact fail (e := .importDepth S.limits.imports p)
    | some hr =>
      refine bind (readSheet p) fun body s₂ es₂ _ hbody => ?_
      refine around (fun hs => ?_) (hr _ body _ _ hbody) ?_ fun _ _ _ _ => trivial
      · exact hs.withSheet ⟨hs.reaches.functions, Namespaces.reaches_none _⟩
          ⟨hs.holds.scopes, hs.holds.functions⟩
      · intro s' es' hs hl hs'
        refine ⟨hs'.withSheet ⟨hs'.reaches.functions, ?_⟩ ⟨hs'.holds.scopes, hs'.holds.functions⟩,
          hl.path⟩
        exact hs.reaches.namespaces.grow hl.modules

/-- What is known of the members of a file before they are kept. -/
def Members (S : Setting σ) (p : Path) (s : State σ) (es : Journal) (m : Module) : Prop :=
  ∃ sheet : Sheet, m = sheet.toModule ∧ sheet.path = some p ∧ sheet.Reaches s.modules ∧
    sheet.Holds (S.Knows es)

/-- **A module** runs in a stylesheet of its own. -/
theorem runModule {run : Runner σ} {run' : Runner (Traced Entry σ)} (hr : S.Runners run run')
    (p : Path) {bindings : Bindings} (hbindings : bindings.All (S.Knows es)) {body : List Stmt}
    (hbody : ∀ stmt ∈ body, stmt.Plain) :
    S.Goes (S.Members p) (Render.runModule run p bindings body)
      (Render.runModule run' p bindings body)
      s es := by
  have members : S.Goes (S.Members p)
      (do run (.file p) body; return (← sheet).toModule)
      (do run' (.file p) body; return (← sheet).toModule)
      { s with sheet := .start bindings (some p) } es := by
    refine bind (hr _ body _ es hbody) fun _ s' es' hl _ => knowing fun hs' => ?_
    refine reading sheet ?_
    rintro _ rfl
    exact ret ⟨s'.sheet, rfl, hl.path, hs'.reaches, hs'.holds⟩
  refine bind (Q := S.Members p) ?_ fun m s₁ es₁ hl₁ hm =>
    bind (report _ _) fun _ s₂ es₂ hl₂ _ => ret ?_
  · exact inSheet (fun _ => ⟨Sheet.reaches_start _ _ _, Sheet.holds_start hbindings _⟩) members
      fun _ _ _ hm => hm
  · obtain ⟨sheet, rfl, hpath, hreaches, hholds⟩ := hm
    exact ⟨sheet, rfl, hpath, hreaches.grow hl₂.modules,
      hholds.imp fun _ hv => hv.later hl₂.journal⟩

omit [Log.Sink σ] in
/-- A module is kept when all of its statements are done. -/
theorem keep {p : Path} {m : Module} (hm : S.Members p s es m) :
    S.Goes (fun s' es' _ => S.Loads s' es' (p, m)) (Render.keep p m) (Render.keep p m) s es := by
  obtain ⟨sheet, rfl, hpath, hreaches, hholds⟩ := hm
  refine of_run rfl rfl fun hs => ⟨hs.keep hpath hreaches hholds, ?_, ?_⟩
  · exact ⟨List.suffix_rfl, grows_insert _ _ _, rfl⟩
  · exact ⟨loaded_insert _ _ _, Module.reaches_toModule hreaches hpath, hholds.toModule⟩

/-- **A module that is loaded** leaves no reference open, whether it runs or is shared. -/
theorem moduleOf (hn : S.Nexts next next') (origin : Origin) (url : String) {bindings : Bindings}
    (hbindings : bindings.All (S.Knows es)) :
    S.Goes S.Loads (Render.moduleOf S.host S.limits next origin url bindings)
      (Render.moduleOf (Journal.host S.host) S.limits next' origin url bindings) s es := by
  unfold Render.moduleOf
  refine bind (resolve origin url) fun p s₁ es₁ hl₁ _ => knowing fun hs₁ => ?_
  refine reading (module? p) ?_
  rintro _ rfl
  cases hm : s₁.modules.find? p with
  | some m =>
    dsimp only
    split
    · exact ret ⟨⟨m, hm⟩, hs₁.modulesReach.find? hm, hs₁.modulesHold.find? hm⟩
    · exact fail
  | none =>
    cases hn with
    | none => exact fail (e := .importDepth S.limits.imports p)
    | some hr =>
      refine bind (readSheet p) fun body s₂ es₂ hl₂ hbody => ?_
      have hknown : bindings.All (S.Knows es₂) :=
        hbindings.imp fun _ hv => hv.later (hl₁.trans hl₂).journal
      refine bind (runModule hr p hknown hbody) fun m s₃ es₃ _ hm => ?_
      exact bind (keep hm) fun _ s₄ es₄ _ hloads => ret hloads

/-- What runs another file, unless as many files are open as allowed. -/
def next? (S : Setting σ) (run : Runner (Traced Entry σ)) : Option (Runner (Traced Entry σ)) :=
  if S.limits.imports ≤ S.files then none
  else some fun origin body => Journal.inside .file (run origin body)

omit [Log.Sink σ] in
/-- The files that are open are counted in the journal. -/
theorem opening {run : Runner (Traced Entry σ)} {Q : State σ → Journal → α → Prop}
    {act : Render σ α} {act' : Option (Runner (Traced Entry σ)) → Journal.Step σ α}
    (ha : S.Goes Q act (act' (S.next? run)) s es) :
    S.Goes Q act (Journal.next? S.limits run >>= act') s es := by
  intro hs
  have hnext : (Journal.next? S.limits run).run (Traced.ofState s es) =
      (.ok (S.next? run), Traced.ofState s es) := by
    change (if S.limits.imports ≤ Journal.depth .file es then pure none
      else pure (some _) : Journal.Step σ _).run _ = _
    unfold Setting.next?
    rw [hs.files]
    split <;> rfl
  rw [run_bind, hnext]
  exact ha hs

/-- What the statements of a file reach others by goes along. -/
theorem loaders {run : Runner (Traced Entry σ)} (hn : S.Nexts next (S.next? run))
    (origin : Origin) :
    S.Loaders (Render.loader S.host S.limits next origin)
      (Journal.loader (Journal.host S.host) S.limits run origin) where
  importFile url s es := looking fun es₁ _ => opening (importFile hn origin url)
  moduleOf url bindings s es hbindings := by
    have hloaded : S.Goes S.Loads (Render.moduleOf S.host S.limits next origin url bindings >>= pure)
        ((Journal.loader (Journal.host S.host) S.limits run origin).moduleOf url bindings) s es :=
      opening <| bind (moduleOf hn origin url hbindings) fun pm s₁ es₁ _ hpm =>
        looking fun es₂ hl => ret ⟨hpm.loaded, hpm.reaches,
          hpm.holds.imp fun _ hv => hv.later hl.journal⟩
    rwa [bind_pure] at hloaded

/-- The statements at the top of a file go along, where no call is open. -/
theorem run (hcalls : S.calls = 0) {loader : Loader σ} {loader' : Loader (Traced Entry σ)}
    (hl : S.Loaders loader loader') {body : List Stmt} (hbody : ∀ stmt ∈ body, stmt.Plain)
    (s : State σ) (es : Journal) :
    S.Goes Any (Render.runFile.run S.host S.limits loader body)
      (Journal.run S.clock (Journal.host S.host) S.limits loader' body) s es := by
  have hc : S.Callers (Render.callAt S.host S.limits S.limits.calls)
      (Journal.callAt S.clock (Journal.host S.host) S.limits S.clock) :=
    callers (by omega) (by have := S.ample; omega)
  exact looking fun es₁ _ => bind (execAll hc (.top hl) hbody s es₁) fun _ _ _ _ _ => ret trivial

/-- **Files** go along, of which as many may lie inside each other as are not open. -/
theorem runners (hcalls : S.calls = 0) {n clock : Nat} (hn : S.files + n = S.limits.imports)
    (hclock : n < clock) :
    S.Runners (Render.runFile S.host S.limits n)
      (Journal.runFile S.clock (Journal.host S.host) S.limits clock) := by
  induction n generalizing S clock with
  | zero =>
    obtain ⟨clock, rfl⟩ := Nat.exists_eq_add_one_of_ne_zero (Nat.ne_of_gt hclock)
    intro origin body s es hbody
    refine run hcalls (loaders ?_ origin) hbody s es
    rw [Setting.next?, if_pos (by omega)]
    exact .none
  | succ n ih =>
    obtain ⟨clock, rfl⟩ := Nat.exists_eq_add_one_of_ne_zero (Nat.ne_zero_of_lt hclock)
    have deeper : (S.at S.calls (S.files + 1)).Runners (Render.runFile S.host S.limits n)
        (Journal.runFile S.clock (Journal.host S.host) S.limits clock) :=
      ih (S := S.at S.calls (S.files + 1)) hcalls
        (by change S.files + 1 + n = S.limits.imports; omega) (by omega)
    intro origin body s es hbody
    refine run hcalls (loaders ?_ origin) hbody s es
    rw [Setting.next?, if_neg (by omega)]
    refine .some fun origin body s es hbody => knowing fun hs => ?_
    have hfiles : S.files + 1 ≤ S.limits.imports := by omega
    exact inside rfl rfl hs.bounded.1 hfiles (fun _ _ _ _ _ => trivial)
      (deeper origin body s _ hbody)

end

/-- Before the first statement nothing is open. -/
def first (h : Host σ) {V : Value → Prop} (hV : Value.Closed V) (limits : Limits) (n : Nat) :
    Setting σ where
  host := h
  family := V
  closed := hV
  limits := limits
  clock := Journal.ample limits + n
  ample := by
    unfold Journal.ample
    omega
  calls := 0
  files := 0

theorem sound_entryState (h : Host σ) {V : Value → Prop} (hV : Value.Closed V) (limits : Limits)
    (n : Nat) (g : σ) : (first h hV limits n).Sound (entryState g) [] where
  journal := Journal.sound_nil
  calls := rfl
  files := rfl
  reaches := Sheet.reaches_start _ _ _
  holds := Sheet.holds_start Table.all_empty _
  modulesReach := Table.all_empty
  modulesHold := Table.all_empty
  stands := nofun
  answers _ := nofun

end Setting

/-- **A rendering keeps a sound journal,** however long its clock runs: the result and the state of
the host are those of the rendering itself, and no module that is referred to is missing, nor does a
number stand in the code that cannot be read. -/
theorem Journal.render_sound [Log.Sink σ] {V : Value → Prop} (hV : Value.Closed V) (limits : Limits)
    (h : Host σ) (source : String) (g : σ) (n : Nat) :
    ∃ es, Journal.render (ample limits + n) limits h source ⟨g, []⟩ =
        ((Stylesheet.render limits h source g).1, ⟨(Stylesheet.render limits h source g).2, es⟩) ∧
      Journal.Sound V limits es ∧ (h.Honest V → Journal.Answered V es) ∧
      ∀ e, (Stylesheet.render limits h source g).1 = .error e → e.isExcluded = false := by
  unfold Journal.render Stylesheet.render
  cases hp : parse source with
  | error e =>
    unfold renderBy
    rw [hp]
    refine ⟨[], rfl, Journal.sound_nil, fun _ => nofun, fun e' he => ?_⟩
    cases he
    rfl
  | ok tree =>
    have hclock : limits.imports < ample limits + n := by
      unfold ample
      omega
    obtain ⟨es, hrun, hsound, -, hresult⟩ := Setting.runners (S := .first h hV limits n) rfl
      (Nat.zero_add _) hclock .entry _ (entryState g) [] (Stmt.plain_ofTree (legible_of_parse hp))
      (Setting.sound_entryState h hV limits n g)
    rw [renderBy_of_parse _ hp, renderBy_of_parse _ hp]
    refine ⟨es, congrArg (fun r => (r.1, r.2.host)) hrun, hsound.journal, hsound.answers,
      fun e he => ?_⟩
    dsimp only at he
    change (Render.runFile h limits limits.imports .entry (Stmt.ofTree tree) (entryState g)).1 = _
      at he
    change Outcome _ _ (Render.runFile h limits limits.imports .entry (Stmt.ofTree tree)
      (entryState g)).1 at hresult
    rw [he] at hresult
    exact hresult

end Stylesheet
