import Stylesheet.Proofs.Import.Once
import Stylesheet.Proofs.Render.Chains
import Stylesheet.Proofs.Render.Milestones
import Stylesheet.Proofs.Render.Renamed

/-!
# Forwarded members

A file whose last statement forwards another one has all members of it, behind the front that the
rule gives. That goes on along a chain of such files: what is found under a namespace for the first
file is what is found under one for the last, as long as none of the files behind the first is
loaded again. Of a built-in module nothing is forwarded.

* `Forwarding.Chain`: files each of which forwards the next.
* `Forwarding.forwarded`: the members along a chain, at every statement of a rendering.
* `Forwarding.forwarded_counterexample`: built-in modules, and files that are loaded again.
-/

namespace Stylesheet

open Render

namespace Forwarding

variable {σ : Type}

/-! ### Files that forward others -/

/-- **A file forwards another one:** its last statement is a rule that does so, behind a front.
However its path is spelled, the host finds the other file at a path that equals `q`. -/
def Forwards (h : Host σ) (p : Path) (front : Name) (q : Path) : Prop :=
  ∀ p' source tree, (p' == p) = true → h.read p' = .ok source → parse source = .ok tree →
    ∃ init header, Stmt.ofTree tree = init ++ [.load .forward (.ok header)] ∧
      header.libraryName? = none ∧ header.front = front ∧
      ∀ g q' g', h.importer header.url (.file p') g = (.ok q', g') → (q' == q) = true

/-- **A chain of files** each of which forwards the next, and none of which behind the first was
loaded again. -/
inductive Chain (h : Host σ) (again : Path → Prop) : Path → Name → Path → Prop
  | link {p q : Path} {front : Name} (hf : Forwards h p front q) (hq : ¬ again q) :
      Chain h again p front q
  | more {p q r : Path} {front front' : Name} (hf : Forwards h p front q) (hq : ¬ again q)
      (hc : Chain h again q front' r) : Chain h again p (front ++ front') r

section

variable [Log.Sink σ] {h : Host σ} {limits : Limits}

variable (h limits) in
/-- The statements of a file reach others through a loader, however many imports there are. -/
theorem exists_loaderAt_eq (n : Nat) (origin : Origin) :
    ∃ next, loaderAt h limits n origin = loader h limits next origin := by
  cases n with
  | zero => exact ⟨_, rfl⟩
  | succ n => exact ⟨_, rfl⟩

/-- The last statement of a file runs last. -/
theorem forward_of_runFile {n : Nat} {origin : Origin} {init : List Stmt} {header : LoadHeader}
    {s s' : State σ}
    (hs : (runFile h limits n origin (init ++ [.load .forward (.ok header)])).run s =
      (.ok (), s')) :
    ∃ s₀, (runFile h limits n origin init).run s = (.ok (), s₀) ∧
      (forward (Expr.eval h (callAt h limits limits.calls)) (loaderAt h limits n origin)
        header).run s₀ = (.ok (), s') := by
  rw [runFile_eq] at hs
  obtain ⟨r, s₁, hall, hs⟩ := run_bind_eq_ok.1 hs
  cases hs
  rw [← Noted.execAll_none, Noted.execAll_append] at hall
  simp only [Noted.execAll_none] at hall
  obtain ⟨r₀, s₀, hinit, hall⟩ := run_bind_eq_ok.1 hall
  -- no statement at the top of a file returns, so that the last one runs
  obtain rfl : r₀ = none := (Stmt.execAll_returns h limits _ rfl init s r₀ s₀ hinit).1
  obtain ⟨r₁, s₂, hexec, hnone⟩ := run_bind_eq_ok.1 hall
  have hstop : s' = s₂ := by
    cases r₁ with
    | some v =>
      cases hnone
      rfl
    | none =>
      cases hnone
      rfl
  obtain ⟨header', s₃, hheader, hexec⟩ := run_bind_eq_ok.1 hexec
  cases hheader
  obtain ⟨_, s₄, hforward, hexec⟩ := run_bind_eq_ok.1 hexec
  cases hexec
  rw [hstop, runFile_eq]
  exact ⟨s₀, run_bind_eq_ok.2 ⟨none, s₀, hinit, rfl⟩, hforward⟩

/-- A file whose last statement forwards another one ends with merging its members. -/
theorem merged_of_runFile {n : Nat} {origin : Origin} {init : List Stmt} {header : LoadHeader}
    {s s' : State σ} (hl : header.libraryName? = none)
    (hs : (runFile h limits n origin (init ++ [.load .forward (.ok header)])).run s =
      (.ok (), s')) :
    ∃ (sheet : Sheet) (q : Path) (m : Module) (g g' : σ),
      h.importer header.url origin g = (.ok q, g') ∧
      s'.modules.find? q = some m ∧ s'.sheet = sheet.merge m header.front := by
  obtain ⟨s₀, -, hs⟩ := forward_of_runFile hs
  unfold forward at hs
  rw [hl] at hs
  obtain ⟨bindings, s₁, -, hs⟩ := run_bind_eq_ok.1 hs
  obtain ⟨⟨q, m⟩, s₂, hm, hs⟩ := run_bind_eq_ok.1 hs
  obtain ⟨next, hloader⟩ := exists_loaderAt_eq h limits n origin
  rw [hloader] at hm
  obtain ⟨hfind, g, g', himport⟩ := kept_of_moduleOf hm
  cases hs
  exact ⟨s₂.sheet, q, m, g, g', himport, hfind, rfl⟩

/-- **Of a built-in module nothing is forwarded:** a file whose last statement forwards one has the
members that the statements before it leave. -/
theorem members_of_forwarded_library {n : Nat} {origin : Origin} {init : List Stmt}
    {header : LoadHeader} {library : String} {s s' : State σ}
    (hl : header.libraryName? = some library)
    (hs : (runFile h limits n origin (init ++ [.load .forward (.ok header)])).run s =
      (.ok (), s')) :
    ∃ s₀, (runFile h limits n origin init).run s = (.ok (), s₀) ∧
      s'.sheet.toModule.bindings = s₀.sheet.toModule.bindings ∧
      s'.sheet.toModule.functions = s₀.sheet.toModule.functions := by
  obtain ⟨s₀, hinit, hs⟩ := forward_of_runFile hs
  refine ⟨s₀, hinit, ?_⟩
  unfold forward at hs
  rw [hl] at hs
  obtain ⟨l, s₁, hlibrary, hs⟩ := run_bind_eq_ok.1 hs
  unfold libraryOf at hlibrary
  split at hlibrary
  · cases hlibrary
    cases hs
    exact ⟨rfl, rfl⟩
  · cases hlibrary

end

/-! ### Modules that are linked -/

/-- The module of a path was replaced by another one. -/
def Replaced (es : List Milestone) (p : Path) : Prop :=
  ∃ q, .replaced q ∈ es ∧ (q == p) = true

theorem Replaced.later {es : List Milestone} {p : Path} (h : Replaced es p)
    (ds : List Milestone) : Replaced (ds ++ es) p := by
  obtain ⟨q, hq, hqp⟩ := h
  exact ⟨q, List.mem_append_right ds hq, hqp⟩

/-- A module that is kept in the place of another one replaces it. -/
theorem replaced_of_kept {modules : Table Path Module} {p q : Path} {m : Module}
    (hq : modules.find? q = some m) (hpq : (p == q) = true) (es : List Milestone) :
    Replaced (Milestone.keptNotes modules p ++ es) q := by
  rw [← modules.find?_congr hpq] at hq
  unfold Milestone.keptNotes
  rw [hq]
  exact ⟨p, List.mem_cons_self, hpq⟩

/-- **The modules are linked:** every member of a module is there once, and a module whose file
forwards another one re-exports the module of that file, unless it was replaced. -/
structure Linked (h : Host σ) (es : List Milestone) (modules : Table Path Module) : Prop where
  distinct : ∀ p m, modules.find? p = some m → m.Distinct
  forwards : ∀ {p q m front}, modules.find? p = some m → Forwards h p front q → ¬ Replaced es q →
    ∃ m', modules.find? q = some m' ∧ m.Reexports front m'

variable {h : Host σ} {es : List Milestone} {modules : Table Path Module}

theorem linked_empty : Linked h es .empty := ⟨nofun, nofun⟩

theorem Linked.later (hl : Linked h es modules) (ds : List Milestone) :
    Linked h (ds ++ es) modules :=
  ⟨hl.distinct, fun hp hf hq => hl.forwards hp hf fun hr => hq (hr.later ds)⟩

section

variable [Log.Sink σ] {limits : Limits} {p q : Path} {front : Name} {s s' : State σ}

/-- Behind the statements of a file that forwards another one, its members are re-exported. -/
theorem reexports_of_done (hd : Milestone.Done h limits p s s') (hl : Linked h es s'.modules)
    {p' : Path} (hp : (p == p') = true) (hf : Forwards h p' front q) :
    ∃ m, s'.modules.find? q = some m ∧ s'.sheet.toModule.Reexports front m := by
  obtain ⟨n, source, tree, hread, ht, hs⟩ := hd
  obtain ⟨init, header, hlast, hlibrary, rfl, hfinds⟩ := hf p source tree hp hread ht
  rw [hlast] at hs
  obtain ⟨sheet, q', m, g, g', himport, hm, hsheet⟩ := merged_of_runFile hlibrary hs
  rw [s'.modules.find?_congr (hfinds g q' g' himport)] at hm
  refine ⟨m, hm, ?_⟩
  rw [hsheet]
  exact sheet.reexports_merge (hl.distinct q m hm) header.front

/-- **Keeping a module** leaves the modules linked. -/
theorem Linked.kept (hd : Milestone.Done h limits p s s') (hdistinct : s'.sheet.Distinct)
    (hl : Linked h es s'.modules) :
    Linked h (Milestone.keptNotes s'.modules p ++ es)
      (s'.modules.insert p s'.sheet.toModule) := by
  -- a module that was there is there still, unless it is replaced now
  have stays {q : Path} {m : Module} (hq : s'.modules.find? q = some m)
      (hr : ¬ Replaced (Milestone.keptNotes s'.modules p ++ es) q) :
      (s'.modules.insert p s'.sheet.toModule).find? q = some m := by
    rw [Table.find?_insert]
    by_cases hpq : (p == q) = true
    · exact absurd (replaced_of_kept hq hpq es) hr
    · rw [if_neg hpq]
      exact hq
  constructor
  · intro p' m hm
    rw [Table.find?_insert] at hm
    split at hm
    · cases hm
      exact hdistinct.toModule
    · exact hl.distinct p' m hm
  · intro p' q m front hm hf hr
    rw [Table.find?_insert] at hm
    split at hm
    · next hp =>
      cases hm
      obtain ⟨m', hm', hre⟩ := reexports_of_done hd hl hp hf
      exact ⟨m', stays hm' hr, hre⟩
    · obtain ⟨m', hm', hre⟩ := hl.forwards hm hf fun hq => hr (hq.later _)
      exact ⟨m', stays hm' hr, hre⟩

/-- The modules were linked at every statement. -/
def Throughout (h : Host σ) : List Milestone → Prop
  | [] => True
  | .passed modules :: es => Linked h es modules ∧ Throughout h es
  | .replaced _ :: es => Throughout h es

omit [Log.Sink σ] in
theorem throughout_keptNotes (ht : Throughout h es) (modules : Table Path Module) (p : Path) :
    Throughout h (Milestone.keptNotes modules p ++ es) := by
  unfold Milestone.keptNotes
  cases modules.find? p with
  | some _ => exact ht
  | none => exact ht

omit [Log.Sink σ] in
theorem Throughout.linked {later before : List Milestone}
    (ht : Throughout h (later ++ .passed modules :: before)) : Linked h before modules := by
  induction later with
  | nil => exact ht.1
  | cons e later ih =>
    cases e with
    | passed _ => exact ih ht.2
    | replaced _ => exact ih ht

/-- **Modules stay linked** in a rendering, at every statement and behind the last. -/
def linking (h : Host σ) (limits : Limits) : Milestone.Property h limits where
  Holds es modules := Linked h es modules ∧ Throughout h es
  passed hes := ⟨hes.1.later [_], hes⟩
  kept hd hdistinct hes := ⟨hes.1.kept hd hdistinct, throughout_keptNotes hes.2 _ _⟩

omit [Log.Sink σ] in
/-- Along a chain of files that forward each other, all members are re-exported. -/
theorem Linked.chain (hl : Linked h es modules) (hc : Chain h (Replaced es) p front q) {m : Module}
    (hm : modules.find? p = some m) :
    ∃ m', modules.find? q = some m' ∧ m.Reexports front m' := by
  induction hc generalizing m with
  | link hf hq => exact hl.forwards hm hf hq
  | more hf hq _ ih =>
    obtain ⟨m', hm', hre⟩ := hl.forwards hm hf hq
    obtain ⟨m'', hm'', hre'⟩ := ih hm'
    exact ⟨m'', hm'', hre.trans hre'⟩

end

/-! ### Members under namespaces -/

/-- A namespace stands for the module of a path. -/
def StandsFor (s : State σ) (space : String) (p : Path) : Prop :=
  s.sheet.namespaces.named.find? (.ofString space) = some (.module p)

/-- A function can be called under a namespace. -/
def HasFunction (s : State σ) (space name : String) : Prop :=
  ∃ p m f, StandsFor s space p ∧ s.modules.find? p = some m ∧
    m.functions.find? (.ofString name) = some f

/-- **The same members under two namespaces:** a variable of the one is under the other, behind a
front, with the same value, and a call of a function does the same under both, up to its name in
errors. -/
structure SameMembers [Log.Sink σ] (h : Host σ) (limits : Limits) (front : Name) (s : State σ)
    (space space' : String) : Prop where
  value : ∀ name name' n v t, Name.ofString name' = front ++ Name.ofString name →
    ((Expr.member space name).eval h (callAt h limits n)).run s = (.ok v, t) →
      ((Expr.member space' name').eval h (callAt h limits n)).run s = (.ok v, t)
  call : ∀ name name' n args, Name.ofString name' = front ++ Name.ofString name →
    HasFunction s space name →
      Renamed (Eval.qualified space name) (Eval.qualified space' name')
        (((Expr.memberCall space name args).eval h (callAt h limits n)).run s)
        (((Expr.memberCall space' name' args).eval h (callAt h limits n)).run s)

section

variable {s : State σ} {space : String} {p : Path} {m : Module} (hs : StandsFor s space p)
  (hm : s.modules.find? p = some m)
include hs

theorem run_namespaceOf : (Eval.namespaceOf space).run s = (.ok (.module p), s) := by
  unfold StandsFor at hs
  unfold Eval.namespaceOf
  rw [run_bind, run_sheet]
  dsimp only
  rw [hs]
  rfl

include hm

/-- A variable of a module is looked up among its variables. -/
theorem run_memberValue (name : String) :
    (Eval.memberValue space name).run s =
      match m.bindings.find? (.ofString name) with
      | some v => (.ok v, s)
      | none => (.error (.undefinedVariable (Eval.qualified space name)), s) := by
  unfold Eval.memberValue
  dsimp only
  rw [run_bind, run_namespaceOf hs]
  dsimp only
  rw [run_bind, run_module, hm]
  dsimp only [Option.bind_some]
  rw [pure_bind]
  cases m.bindings.find? (.ofString name) with
  | some v => rfl
  | none => rfl

/-- A function of a module is looked up among its functions before the arguments are evaluated. -/
theorem run_memberCall {name : String} {f : UserFunction}
    (hf : m.functions.find? (.ofString name) = some f) (caller : Caller σ)
    (args : Render σ Arguments) :
    (Eval.memberCall caller space name args).run s =
      (args >>= caller (Eval.qualified space name) f).run s := by
  unfold Eval.memberCall
  dsimp only
  rw [run_bind, run_namespaceOf hs]
  dsimp only
  rw [run_bind, run_module, hm]
  dsimp only [Option.bind_some]
  rw [hf]

end

/-- Modules of which one re-exports the other have the same members under their namespaces. -/
theorem sameMembers_of_reexports [Log.Sink σ] (limits : Limits) {s : State σ} {u w : String}
    {p q : Path} {m m' : Module} {front : Name} (hw : StandsFor s w p) (hu : StandsFor s u q)
    (hm : s.modules.find? p = some m) (hm' : s.modules.find? q = some m')
    (hre : m.Reexports front m') : SameMembers h limits front s u w where
  value name name' n v t hname hv := by
    rw [Expr.eval, run_memberValue hu hm'] at hv
    cases hfind : m'.bindings.find? (.ofString name) with
    | none =>
      rw [hfind] at hv
      cases hv
    | some v' =>
      rw [hfind] at hv
      cases hv
      rw [Expr.eval, run_memberValue hw hm, hname, hre.bindings _ _ hfind]
  call name name' n args hname hf := by
    obtain ⟨q', k, f, hq', hk, hf⟩ := hf
    obtain rfl : q' = q := by
      unfold StandsFor at hq' hu
      rw [hu] at hq'
      cases hq'
      rfl
    obtain rfl : k = m' := Option.some.inj (hk.symm.trans hm')
    have hf' : m.functions.find? (.ofString name') = some f := by
      rw [hname]
      exact hre.functions _ _ hf
    rw [Expr.eval, Expr.eval, run_memberCall hu hm' hf, run_memberCall hw hm hf']
    exact RenamedSteps.behind _ (fun a => callAt_renamed h limits f a _ _ n) s

/-- **Forwarded members:** at every statement of a rendering, the members that are found under a
namespace for a file are those that are found under one for the last file of a chain that forwards
it, if the first file is loaded. -/
theorem forwarded [Log.Sink σ] (limits : Limits) (h : Host σ) (source : String) (g : σ) :
    ∃ es, Milestone.render limits h source ⟨g, []⟩ =
        ((render limits h source g).1, ⟨(render limits h source g).2, es⟩) ∧
      ∀ later modules before, es = later ++ .passed modules :: before →
      ∀ p front q, Chain h (Replaced before) p front q → modules.find? p ≠ none →
        modules.find? q ≠ none ∧
        ∀ (s : State σ) w u, s.modules = modules → StandsFor s w p → StandsFor s u q →
          SameMembers h limits front s u w := by
  obtain ⟨es, hrun, final, -, ht⟩ := (linking h limits).render ⟨linked_empty, trivial⟩ source g
  refine ⟨es, hrun, ?_⟩
  rintro later modules before rfl p front q hc hp
  obtain ⟨m, hm⟩ := Option.ne_none_iff_exists'.1 hp
  obtain ⟨m', hm', hre⟩ := ht.linked.chain hc hm
  refine ⟨by rw [hm']; exact nofun, ?_⟩
  rintro s w u rfl hw hu
  exact sameMembers_of_reexports limits hw hu hm hm' hre

/-! ### Renderings of fixed files -/

/-- The URL and the alias of the rule that forwards a file at the end of a source. -/
def lastForward? (source : String) : Option (String × Alias) :=
  match parse source with
  | .ok tree =>
      match (Stmt.ofTree tree).getLast? with
      | some (.load .forward (.ok header)) => some (header.url, header.as)
      | _ => none
  | .error _ => none

/-- A file of which one text is read forwards what that text forwards. -/
theorem forwards_of_last {h : Host σ} {p q : Path} (source url front : String)
    (hsource : ∀ p', (p' == p) = true → ∀ text, h.read p' = .ok text → text = source)
    (hlast : lastForward? source = some (url, .withFront front))
    (hlibrary : (⟨url, .withFront front, none⟩ : LoadHeader).libraryName? = none)
    (hfinds : ∀ p' g q' g', h.importer url (.file p') g = (.ok q', g') → (q' == q) = true) :
    Forwards h p (.ofString front) q := by
  intro p' text tree hp hread ht
  rw [hsource p' hp text hread] at ht
  unfold lastForward? at hlast
  rw [ht] at hlast
  dsimp only at hlast
  split at hlast
  · next header hheader =>
    obtain ⟨init, hinit⟩ := List.getLast?_eq_some_iff.1 hheader
    obtain ⟨headerUrl, headerAs, configuration⟩ := header
    cases hlast
    exact ⟨init, _, hinit, hlibrary, rfl, hfinds p'⟩
  · cases hlast

/-- A host of three files, the first of which forwards the second, and the second the third. -/
def chainHost : Host (List Log.Record) where
  importer url _ := return match url with
    | "w" => .ok ⟨"./w.scss"⟩
    | "v" => .ok ⟨"./v.scss"⟩
    | "u" => .ok ⟨"./u.scss"⟩
    | _ => .error "no such file"
  functions := .empty
  read p := match p.text with
    | "./w.scss" => .ok "@forward \"v\" as p-*;"
    | "./v.scss" => .ok "@forward \"u\" as q-*;"
    | "./u.scss" => .ok "$x: one;\n@function f($a) \x7b @return $a; \x7d"
    | _ => .error .notFound

theorem chainHost_read {p : Path} {text : String} (h : chainHost.read p = .ok text) :
    (p = ⟨"./w.scss"⟩ ∧ text = "@forward \"v\" as p-*;") ∨
      (p = ⟨"./v.scss"⟩ ∧ text = "@forward \"u\" as q-*;") ∨ p = ⟨"./u.scss"⟩ := by
  obtain ⟨name⟩ := p
  unfold chainHost at h
  dsimp only at h
  split at h
  · cases h
    exact .inl ⟨rfl, rfl⟩
  · cases h
    exact .inr (.inl ⟨rfl, rfl⟩)
  · exact .inr (.inr rfl)
  · cases h

theorem chainHost_chain {again : Path → Prop} (hv : ¬ again ⟨"./v.scss"⟩)
    (hu : ¬ again ⟨"./u.scss"⟩) :
    Chain chainHost again ⟨"./w.scss"⟩ (.ofString "p-" ++ .ofString "q-") ⟨"./u.scss"⟩ := by
  have first : Forwards chainHost ⟨"./w.scss"⟩ (.ofString "p-") ⟨"./v.scss"⟩ := by
    refine forwards_of_last "@forward \"v\" as p-*;" "v" "p-" (fun p hp text hread => ?_)
      (by decide +kernel) (by decide) fun p g q g' himport => ?_
    · rcases chainHost_read hread with ⟨-, htext⟩ | ⟨rfl, -⟩ | rfl
      · exact htext
      · exact absurd hp (by decide)
      · exact absurd hp (by decide)
    · cases himport
      rfl
  have second : Forwards chainHost ⟨"./v.scss"⟩ (.ofString "q-") ⟨"./u.scss"⟩ := by
    refine forwards_of_last "@forward \"u\" as q-*;" "u" "q-" (fun p hp text hread => ?_)
      (by decide +kernel) (by decide) fun p g q g' himport => ?_
    · rcases chainHost_read hread with ⟨rfl, -⟩ | ⟨-, htext⟩ | rfl
      · exact absurd hp (by decide)
      · exact htext
      · exact absurd hp (by decide)
    · cases himport
      rfl
  exact .more first hv (.link second hu)

/-- Nothing was replaced by some milestones. -/
def keepsAll : List Milestone → Bool
  | [] => true
  | .passed _ :: es => keepsAll es
  | .replaced _ :: _ => false

theorem not_replaced {es : List Milestone} (h : keepsAll es = true) (p : Path) : ¬ Replaced es p := by
  rintro ⟨q, hq, -⟩
  induction es with
  | nil => cases hq
  | cons e es ih =>
    cases e with
    | passed _ =>
      rcases List.mem_cons.1 hq with hq | hq
      · cases hq
      · exact ih h hq
    | replaced _ => cases h

/-- A stylesheet with a namespace for the first file of the chain and one for the last. -/
def chainState (modules : Table Path Module) : State (List Log.Record) :=
  ⟨{ Sheet.start .empty none with namespaces := ⟨.ofList [(.ofString "w", .module ⟨"./w.scss"⟩),
    (.ofString "u", .module ⟨"./u.scss"⟩)], []⟩ }, modules, []⟩

def chainSource : String := "@use \"u\";\n@use \"w\";\n$y: w.$p-q-x;"

/-- The latest statement was passed when both files were loaded and none was loaded again. -/
def chainLoaded : List Milestone → Bool
  | .passed modules :: es => keepsAll es && (modules.find? ⟨"./w.scss"⟩).isSome &&
      ((modules.find? ⟨"./u.scss"⟩).bind (·.functions.find? (.ofString "f"))).isSome &&
      ((modules.find? ⟨"./u.scss"⟩).bind (·.bindings.find? (.ofString "x"))).any (·.text == "one")
  | _ => false

theorem forwarded_sample : ∃ later modules before v,
    (Milestone.render .standard chainHost chainSource ⟨[], []⟩).2.history =
        later ++ .passed modules :: before ∧
      SameMembers chainHost .standard (.ofString "p-" ++ .ofString "q-") (chainState modules)
        "u" "w" ∧
      HasFunction (chainState modules) "u" "f" ∧ v.text = "one" ∧
      ((Expr.member "w" "p-q-x").eval chainHost (callAt chainHost .standard 0)).run
        (chainState modules) = (.ok v, chainState modules) := by
  have hloaded : chainLoaded (Milestone.render .standard chainHost chainSource ⟨[], []⟩).2.history =
      true := by decide +kernel
  obtain ⟨es, hrun, hforwarded⟩ := forwarded .standard chainHost chainSource []
  rw [hrun] at hloaded ⊢
  rcases es with _ | ⟨modules | p, before⟩
  · cases hloaded
  · unfold chainLoaded at hloaded
    rw [Bool.and_eq_true, Bool.and_eq_true, Bool.and_eq_true] at hloaded
    obtain ⟨⟨⟨hkeeps, hp⟩, hf⟩, hx⟩ := hloaded
    have hw : StandsFor (chainState modules) "w" ⟨"./w.scss"⟩ := rfl
    have hu : StandsFor (chainState modules) "u" ⟨"./u.scss"⟩ := rfl
    have hchain : Chain chainHost (Replaced before) ⟨"./w.scss"⟩ _ ⟨"./u.scss"⟩ :=
      chainHost_chain (not_replaced hkeeps _) (not_replaced hkeeps _)
    obtain ⟨-, hshares⟩ := hforwarded [] modules before rfl _ _ _ hchain
      (Option.isSome_iff_ne_none.1 hp)
    have hsame := hshares (chainState modules) "w" "u" rfl hw hu
    obtain ⟨f, hf⟩ := Option.isSome_iff_exists.1 hf
    obtain ⟨m, hm, hf⟩ := Option.bind_eq_some_iff.1 hf
    obtain ⟨v, hv, htext⟩ := (Option.any_eq_true _ _).1 hx
    rw [hm, Option.bind_some] at hv
    refine ⟨[], modules, before, v, rfl, hsame, ⟨_, m, f, hu, hm, hf⟩, eq_of_beq htext, ?_⟩
    refine hsame.value "x" "p-q-x" 0 v _ (by decide) ?_
    rw [Expr.eval, run_memberValue hu hm, hv]
  · cases hloaded

/-- The message of the error with which a rendering fails. -/
def errorOf {τ : Type} (run : Except RenderError Unit × τ) : Option String :=
  match run.1 with
  | .ok () => none
  | .error e => some e.message

/-- A file that forwards a built-in module, and one that forwards another. -/
def libraryFiles : Files := .ofList
  [("w.scss", "@forward \"sass:math\";".toUTF8), ("s.scss", "@forward \"sass:string\";".toUTF8)]

/-- A file that is loaded again by the file that forwards it. -/
def againFiles : Files := .ofList
  [("u.scss", "$x: zero !default;\n@if $x == zero \x7b @use \"w\"; \x7d".toUTF8),
    ("w.scss", "@use \"u\" as v with ($x: one);\n@forward \"u\";".toUTF8)]

/-- **Members that are not forwarded:** the variables and the functions of built-in modules, and the
members of a file that is loaded again. -/
theorem forwarded_counterexample :
    (Import.succeeds (Import.renderFiles libraryFiles "@use \"sass:math\" as u;\n$y: u.$pi;") = true ∧
      errorOf (Import.renderFiles libraryFiles "@use \"w\";\n$y: w.$pi;") =
        some "Undefined variable: $w.pi") ∧
    (Import.succeeds (Import.renderFiles libraryFiles
        "@use \"sass:string\" as u;\n$y: u.quote(one);") = true ∧
      errorOf (Import.renderFiles libraryFiles "@use \"s\";\n$y: s.quote(one);") =
        some "Error in function s.quote(): undefined function") ∧
    errorOf (Import.renderFiles againFiles
        "@use \"u\";\n@use \"w\";\n@if w.$x != u.$x \x7b @error differ; \x7d") =
      some "@error: differ" := by
  refine ⟨⟨?_, ?_⟩, ⟨?_, ?_⟩, ?_⟩
  · decide +kernel
  · decide +kernel
  · decide +kernel
  · decide +kernel
  · decide +kernel

end Forwarding
end Stylesheet
