import Stylesheet.Proofs.Render.Statements

/-!
# Comparing files and whole renderings

Two hosts that read the same files and resolve imports alike run a file alike, with all files that
it imports and all modules that it loads. It is enough that they read alike what they find. Notes may
be taken on both sides, which compare.

* `Comparison.Hosts`: hosts that go together.
* `Comparison.Finders`: hosts that go together in what they find, with notes of it.
* `Comparison.top`, `Comparison.runFile`: the statements at the top of a file, and whole files.
-/

namespace Stylesheet
namespace Render

variable {σ : Type} [Log.Sink σ]

/-- Every call in a file is of an allowed name. -/
def FileCallsOnly (ok : Name → Prop) (host : Host σ) (p : Path) : Prop :=
  ∀ source tree, host.read p = .ok source → parse source = .ok tree →
    ∀ n ∈ Stmt.callsOfAll (Stmt.ofTree tree), ok n

instance (ok : Name → Prop) [DecidablePred ok] (host : Host σ) (p : Path) :
    Decidable (FileCallsOnly ok host p) :=
  match hread : host.read p with
  | .error _ => isTrue fun source tree hs => by
      rw [hread] at hs
      cases hs
  | .ok source =>
      match hparse : parse source with
      | .error _ => isTrue fun source' tree hs ht => by
          rw [hread] at hs
          cases hs
          rw [hparse] at ht
          cases ht
      | .ok tree =>
          decidable_of_iff (∀ n ∈ Stmt.callsOfAll (Stmt.ofTree tree), ok n) <| by
            constructor
            · intro hall source' tree' hs ht
              rw [hread] at hs
              cases hs
              rw [hparse] at ht
              cases ht
              exact hall
            · exact fun hall => hall source tree hread hparse

namespace Comparison

variable {τ : Type} [Log.Sink τ] {C : Comparison σ τ} {host : Host σ} {host' : Host τ}

/-- **Hosts that go together:** what they answer, read and resolve does. -/
structure Hosts (C : Comparison σ τ) (host : Host σ) (host' : Host τ) : Prop where
  answers : C.Answers host host'
  read : host'.read = host.read
  resolve : ∀ origin url, C.Rel (FileCallsOnly C.ok host) (Render.resolve host origin url)
    (Render.resolve host' origin url)

/-- **Hosts that go together in what they find:** the path of an import is of a file that both read
alike, and the notes of reading it go together. -/
structure Finders (C : Comparison σ τ) (notes : Notes σ) (notes' : Notes τ) (host : Host σ)
    (host' : Host τ) : Prop where
  answers : C.Answers host host'
  resolve : ∀ origin url, C.Rel
    (fun p => FileCallsOnly C.ok host p ∧ host'.read p = host.read p ∧
      C.Same (notes.read p) (notes'.read p))
    (Render.resolve host origin url) (Render.resolve host' origin url)

/-- **Notes of files that go together.** -/
structure Filing (C : Comparison σ τ) (notes : Notes σ) (notes' : Notes τ) : Prop
    extends C.Noting notes notes' where
  imported : ∀ {act act'}, C.Same act act' → C.Same (notes.imported act) (notes'.imported act')
  shared : ∀ p m, C.Same (notes.shared p m) (notes'.shared p m)
  loaded : ∀ {Q : Path × Module → Prop} p {act act'}, C.Rel Q act act' →
    C.Rel Q (notes.loaded p act) (notes'.loaded p act')
  kept : ∀ p m, C.Same (notes.kept p m) (notes'.kept p m)

/-- What is noted before and behind statements and of files that are read. -/
theorem filing_looks {before behind : Render σ Unit} {before' behind' : Render τ Unit}
    (h : C.Same before before') (h' : C.Same behind behind') (read : Path → Render σ Unit)
    (read' : Path → Render τ Unit) :
    C.Filing { before, behind, read } { before := before', behind := behind', read := read' } where
  toNoting := noting_looks h h' read read'
  imported h := h
  shared _ _ := same_ret ()
  loaded _ _ _ h := h
  kept _ _ := same_ret ()

/-- Nothing is noted but the files that are read. -/
theorem filing_read (read : Path → Render σ Unit) (read' : Path → Render τ Unit) :
    C.Filing { read } { read := read' } := filing_looks (same_ret ()) (same_ret ()) read read'

theorem filing_none : C.Filing .none .none := filing_read _ _

/-- Hosts that read the same files find the same in them. -/
theorem Hosts.finders (hh : C.Hosts host host') {notes : Notes σ} {notes' : Notes τ}
    (hread : ∀ p, C.Same (notes.read p) (notes'.read p)) : C.Finders notes notes' host host' where
  answers := hh.answers
  resolve origin url :=
    C.weaken (hh.resolve origin url) fun p hp => ⟨hp, congrFun hh.read p, hread p⟩

/-- Keeping a module that calls only what may be called goes together. -/
def Keeps (C : Comparison σ τ) : Prop :=
  ∀ p (m : Module), m.CallsOnly C.ok → C.Same (Render.keep p m) (Render.keep p m)

/-- Runs of the same statements go together. -/
def Runners (C : Comparison σ τ) (run : Runner σ) (run' : Runner τ) : Prop :=
  ∀ origin body, (∀ n ∈ Stmt.callsOfAll body, C.ok n) → C.Same (run origin body) (run' origin body)

/-- What runs another file goes together, if there is one. -/
inductive Nexts (C : Comparison σ τ) : Option (Runner σ) → Option (Runner τ) → Prop
  | none : Nexts C none none
  | some {run : Runner σ} {run' : Runner τ} (h : C.Runners run run') :
      Nexts C (some run) (some run')

/-- What is read goes together, and it is the statements of the file. -/
theorem readSheet {p : Path} (hread : host'.read p = host.read p) :
    C.Rel (fun body => FileCallsOnly C.ok host p → ∀ n ∈ Stmt.callsOfAll body, C.ok n)
      (readSheet host p) (readSheet host' p) := by
  unfold Render.readSheet
  rw [hread]
  refine Same.seq (C.report _ _) fun _ => ?_
  cases hp : host.read p with
  | error reason => exact C.fail _
  | ok source =>
    dsimp only
    cases hparse : parse source with
    | error e => exact C.fail _
    | ok tree => exact C.ret fun h => h source tree hp hparse

variable {next : Option (Runner σ)} {next' : Option (Runner τ)} (limits : Limits)

/-- Opening a file goes together, and so does what runs it then. -/
theorem open? {β : Type} {Q : β → Prop} (hn : C.Nexts next next') (p : Path)
    {act : Runner σ → Render σ β} {act' : Runner τ → Render τ β}
    (h : ∀ run run', C.Runners run run' → C.Rel Q (act run) (act' run')) :
    C.Rel Q (open? limits next p >>= act) (open? limits next' p >>= act') := by
  cases hn with
  | none => exact C.fail (.importDepth limits.imports p)
  | some hr => exact h _ _ hr

theorem runModule {run : Runner σ} {run' : Runner τ} (hr : C.Runners run run') (p : Path)
    (bindings : Bindings) {body : List Stmt} (hbody : ∀ n ∈ Stmt.callsOfAll body, C.ok n) :
    C.Rel (Module.CallsOnly C.ok) (runModule run p bindings body)
      (runModule run' p bindings body) := by
  unfold Render.runModule
  refine C.seq (P := Module.CallsOnly C.ok) (inSheet (Sheet.callsOnly_start _ _) ?_) fun m hm => ?_
  · exact (hr _ _ hbody).seq fun _ => C.seq C.sheet fun s hs => C.ret hs
  · exact Same.seq (C.report _ _) fun _ => C.ret hm

section

variable {notes : Notes σ} {notes' : Notes τ} (hf : C.Finders notes notes' host host')
include hf

theorem importFile
    (hi : ∀ {act act'}, C.Same act act' → C.Same (notes.imported act) (notes'.imported act'))
    (hnext : C.Nexts next next') (origin : Origin) (url : String) :
    C.Same (Noted.importFile notes host limits next origin url)
      (Noted.importFile notes' host' limits next' origin url) := by
  unfold Noted.importFile
  split
  · exact C.report _ _
  · refine C.seq (hf.resolve origin url) fun p hp => open? limits hnext p fun run run' hr => ?_
    obtain ⟨hcalls, hread, hmark⟩ := hp
    refine hmark.seq fun _ => C.seq (readSheet hread) fun body hbody => ?_
    exact C.around (fun _ hs => hs) (fun _ _ _ hs => hs) (hi (hr _ _ (hbody hcalls)))

variable (hn : C.Filing notes notes')
include hn

theorem moduleOf (hk : C.Keeps) (hnext : C.Nexts next next') (origin : Origin) (url : String)
    (bindings : Bindings) :
    C.Rel (fun pm => pm.2.CallsOnly C.ok) (Noted.moduleOf notes host limits next origin url bindings)
      (Noted.moduleOf notes' host' limits next' origin url bindings) := by
  unfold Noted.moduleOf
  refine C.seq (hf.resolve origin url) fun p hp => C.seq (C.module? p) fun m hm => ?_
  obtain ⟨hcalls, hread, hmark⟩ := hp
  cases m with
  | some m =>
    dsimp only
    split
    · exact (hn.shared p m).seq fun _ => C.ret (hm m rfl)
    · exact C.fail _
  | none =>
    refine open? limits hnext p fun run run' hr => ?_
    refine hmark.seq fun _ => C.seq (readSheet hread) fun body hbody => hn.loaded p ?_
    refine C.seq (runModule hr p bindings (hbody hcalls)) fun m hm => ?_
    exact (hn.kept p m).seq fun _ => (hk p m hm).seq fun _ => C.ret hm

theorem loaders (hk : C.Keeps) (hnext : C.Nexts next next') (origin : Origin) :
    C.Loaders (Noted.loader notes host limits next origin)
      (Noted.loader notes' host' limits next' origin) :=
  ⟨importFile limits hf hn.imported hnext origin, moduleOf limits hf hn hk hnext origin⟩

end

section

variable {notes : Notes σ} {notes' : Notes τ}

/-- **The statements at the top of a file** compare with themselves, if what they load does. -/
theorem top (hn : C.Noting notes notes') (ha : C.Answers host host') {loader : Loader σ}
    {loader' : Loader τ} (hl : C.Loaders loader loader') {body : List Stmt}
    (hbody : ∀ n ∈ Stmt.callsOfAll body, C.ok n) :
    C.Rel (· = none) (Noted.top notes host limits loader body)
      (Noted.top notes' host' limits loader' body) :=
  C.weaken (execAll limits hn ha (callAt limits hn ha _) (.top hl) body hbody) fun _ h => h rfl

theorem run (hn : C.Noting notes notes') (ha : C.Answers host host') {loader : Loader σ}
    {loader' : Loader τ} (hl : C.Loaders loader loader') {body : List Stmt}
    (hbody : ∀ n ∈ Stmt.callsOfAll body, C.ok n) :
    C.Same (Noted.run notes host limits loader body)
      (Noted.run notes' host' limits loader' body) :=
  C.seq (top limits hn ha hl hbody) fun _ _ => same_ret _

variable (hn : C.Filing notes notes') (hf : C.Finders notes notes' host host') (hk : C.Keeps)
include hn hf hk

/-- **Files** that call only what may be called compare with themselves. -/
theorem runFile (n : Nat) :
    C.Runners (Noted.runFile notes host limits n) (Noted.runFile notes' host' limits n) := by
  induction n with
  | zero =>
    intro origin body hbody
    exact run limits hn.toNoting hf.answers (loaders limits hf hn hk .none origin) hbody
  | succ n ih =>
    intro origin body hbody
    exact run limits hn.toNoting hf.answers (loaders limits hf hn hk (.some ih) origin) hbody

theorem loaderAt (n : Nat) (origin : Origin) :
    C.Loaders (Noted.loaderAt notes host limits n origin)
      (Noted.loaderAt notes' host' limits n origin) := by
  cases n with
  | zero => exact loaders limits hf hn hk .none origin
  | succ n => exact loaders limits hf hn hk (.some (runFile limits hn hf hk n)) origin

/-- **The statements of the source** that is rendered. -/
theorem entry {body : List Stmt} (hbody : ∀ n ∈ Stmt.callsOfAll body, C.ok n) :
    C.Rel (· = none) (Noted.entry notes host limits body) (Noted.entry notes' host' limits body) :=
  top limits hn.toNoting hf.answers (loaderAt limits hn hf hk _ _) hbody

end

/-- Without notes, files compare for hosts that go together. -/
theorem Hosts.runFile (hh : C.Hosts host host') (hk : C.Keeps) (n : Nat) :
    C.Runners (Render.runFile host limits n) (Render.runFile host' limits n) := by
  rw [← Noted.runFile_none, ← Noted.runFile_none]
  exact Comparison.runFile limits filing_none (hh.finders fun _ => same_ret ()) hk n

end Comparison
end Render
end Stylesheet
