import Stylesheet.Proofs.Extract.Transparent

/-!
# What an extraction depends on

An extraction learns of files through its resolver only: it reads files at paths that were
answered, and it lists those paths. So other contents of all other files change nothing.

* `Import.recorded`: a resolver that keeps what it answers.
* `Import.Attends`: a resolver that answers what another one does.
* `Extraction.extract_attended`: extractions with such resolvers and other files.
* `Extraction.dependencies_complete`: the dependencies are what was answered, they hold all files
  that are read, and nothing else matters.
-/

namespace Stylesheet

open Render Export

/-! ### Resolvers -/

namespace Import

variable {σ τ : Type}

/-- What happens to files. -/
inductive FileEvent where
  /-- A resolver answered with a path. -/
  | answered (p : Path)
  /-- The file at a path was read. -/
  | read (p : Path)

namespace FileEvent

/-- The path of an answer. -/
def answer? : FileEvent → Option Path
  | answered p => some p
  | read _ => none

/-- The paths of all answers, in the order of the events. -/
def answers (es : List FileEvent) : List Path := es.filterMap answer?

/-- All files that were read are among the given ones. -/
def ReadsWithin (files : List Path) (es : List FileEvent) : Prop := ∀ p, read p ∈ es → p ∈ files

theorem readsWithin_cons {files : List Path} {e : FileEvent} {es : List FileEvent}
    (he : ∀ p, e = read p → p ∈ files) (hes : ReadsWithin files es) :
    ReadsWithin files (e :: es) := by
  intro p hp
  rcases List.mem_cons.1 hp with hp | hp
  · exact he p hp.symm
  · exact hes p hp

end FileEvent

/-- **A resolver that keeps what it answers.** -/
def recorded (resolve : Resolver σ) : Resolver (Traced FileEvent σ) := fun dir request => do
  match ← Traced.lift (resolve dir request) with
  | .error reason => return .error reason
  | .ok p =>
      modify fun t => { t with history := .answered p :: t.history }
      return .ok p

/-- Keep that the file at a path is read. -/
def markRead (p : Path) : StateM (Traced FileEvent σ) Unit :=
  modify fun t => { t with history := .read p :: t.history }

open Classical in
/-- The resolver that only answers with the given files. -/
noncomputable def only (files : List Path) (resolve : Resolver σ) : Resolver σ :=
  fun dir request g =>
    let (r, g) := resolve dir request g
    match r with
    | .ok p => (if p ∈ files then .ok p else .error "", g)
    | .error reason => (.error reason, g)

variable {resolve : Resolver σ} {dir : Path} {request : String} {g g' : σ} {p : Path}

theorem only_eq_ok {files : List Path} :
    only files resolve dir request g = (.ok p, g') ↔
      resolve dir request g = (.ok p, g') ∧ p ∈ files := by
  unfold only
  rcases resolve dir request g with ⟨_ | q, g₁⟩
  · constructor
    · intro h
      cases h
    · rintro ⟨h, _⟩
      cases h
  · by_cases hq : q ∈ files
    · simp only [if_pos hq]
      constructor
      · intro h
        cases h
        exact ⟨rfl, hq⟩
      · exact fun h => h.1
    · simp only [if_neg hq]
      constructor
      · intro h
        cases h
      · rintro ⟨h, hp⟩
        cases h
        exact absurd hp hq

variable [Log.Sink σ] [Log.Sink τ]

/-- What an importer reports about a file that was found. -/
def foundRecord (dir : Path) (url : String) (p : Path) : Log.Record :=
  ⟨.debug, .importer, "Resolved import " ++ url ++ " from " ++ dir.quoted ++ " to " ++ p.quoted⟩

/-- **An importer finds a file** if its resolver does, and keeps its path. -/
theorem importer_eq_ok {base : Path} {url : String} {origin : Origin} {t t' : Tracked σ} :
    importer base resolve url origin t = (.ok p, t') ↔
      ∃ g, resolve (directory base origin) (Import.request url) t.inner = (.ok p, g) ∧
        t' = ⟨Log.Sink.write (foundRecord (directory base origin) url p) g, p :: t.found⟩ := by
  unfold importer Tracked.lift
  dsimp only [bind, StateT.bind]
  rcases resolve (directory base origin) (Import.request url) t.inner with ⟨_ | q, g₁⟩
  · constructor
    · intro h
      cases h
    · rintro ⟨g, h, _⟩
      cases h
  · constructor
    · intro h
      cases h
      exact ⟨g₁, rfl, rfl⟩
    · rintro ⟨g, h, rfl⟩
      cases h
      rfl

/-- **A resolver that answers what another one does**, in states that stay related. The relation
also sees what was answered so far, the latest first, and reading one of the files keeps it. -/
structure Attends (files : List Path) (Ψ : List Path → σ → τ → Prop) (resolve : Resolver σ)
    (resolve' : Resolver τ) (mark : Path → StateM τ Unit) : Prop where
  write : ∀ {found g h} r, Ψ found g h → Ψ found (Log.Sink.write r g) (Log.Sink.write r h)
  answer : ∀ {found dir request g g' h p}, Ψ found g h → resolve dir request g = (.ok p, g') →
    ∃ h', resolve' dir request h = (.ok p, h') ∧ Ψ (p :: found) g' h'
  mark : ∀ {found g h p}, p ∈ files → Ψ found g h → Ψ found g (mark p h).2

/-- Every resolver attends itself. -/
theorem attends_self (files : List Path) (resolve : Resolver σ) :
    Attends files (fun _ g h => h = g) resolve resolve (fun _ => pure ()) where
  write r h := congrArg (Log.Sink.write r) h
  answer := by
    rintro found dir request g g' h p rfl hp
    exact ⟨g', hp, rfl⟩
  mark _ h := h

/-- **The states of a resolver that keeps what it answers:** it has kept what was answered, and
only the given files were read. -/
structure Keeping (files found : List Path) (g : σ) (h : Traced FileEvent σ) : Prop where
  inner : h.inner = g
  answers : FileEvent.answers h.history = found
  reads : FileEvent.ReadsWithin files h.history

/-- A resolver that keeps what it answers attends the resolver itself. -/
theorem attends_recorded (files : List Path) (resolve : Resolver σ) :
    Attends files (Keeping files) resolve (recorded resolve) markRead where
  write r h := ⟨congrArg (Log.Sink.write r) h.inner, h.answers, h.reads⟩
  answer := by
    rintro found dir request g g' ⟨g, es⟩ p ⟨rfl, hanswers, hreads⟩ hp
    refine ⟨⟨g', .answered p :: es⟩, ?_, rfl, congrArg (p :: ·) hanswers,
      FileEvent.readsWithin_cons nofun hreads⟩
    unfold recorded Traced.lift
    dsimp only [bind, StateT.bind]
    rw [hp]
    rfl
  mark := by
    rintro found g ⟨g, es⟩ p hp ⟨rfl, hanswers, hreads⟩
    refine ⟨rfl, hanswers, FileEvent.readsWithin_cons ?_ hreads⟩
    rintro q ⟨⟩
    exact hp

end Import

/-! ### Extractions with other files -/

namespace Extraction

variable {σ τ : Type} [Log.Sink σ] [Log.Sink τ] {function : String} {entry : Path}
  {read read' : Path → Except ReadFault String} {resolve : Import.Resolver σ}
  {resolve' : Import.Resolver τ} {mark : Path → StateM τ Unit} {files : List Path}
  {Ψ : List Path → σ → τ → Prop} {limits : Limits}

/-- An extraction that succeeds has parsed its source and wrapped its declarations. -/
theorem wrapped_of_extract {engine : Engine (Collected σ)} {source : String} {g g' : σ}
    {x : Extraction} (h : extract engine function entry read resolve source g = (.ok x, g')) :
    ∃ tree n, parse source = .ok tree ∧ (wrapDeclarations function tree).result = .ok n := by
  unfold extract at h
  cases ht : parse source with
  | error e =>
    rw [ht] at h
    cases h
  | ok tree =>
    rw [ht] at h
    cases hn : (wrapDeclarations function tree).result with
    | error e =>
      dsimp only at h
      rw [hn] at h
      cases h
    | ok n => exact ⟨tree, n, rfl, hn⟩

/-! #### Finding only the files that are found -/

/-- All files that were found are among the given ones. -/
def FoundWithin (files : List Path) (c : Collected σ) : Prop := ∀ p ∈ c.imports.found, p ∈ files

theorem hook_imports (args : List Value) (c : Collected σ) :
    (hook args c).2.imports.found = c.imports.found := by
  unfold hook
  cases exportedValue? args with
  | none => rfl
  | some x =>
    obtain ⟨name, value⟩ := x
    dsimp only
    split
    · rfl
    · rfl

/-- The import of an extraction. -/
theorem importer_eq_ok {url : String} {origin : Origin} {c c' : Collected σ} {p : Path} :
    (host function entry read resolve).importer url origin c = (.ok p, c') ↔
      ∃ g, resolve (Import.directory entry origin) (Import.request url) c.imports.inner =
          (.ok p, g) ∧
        c' = { c with imports :=
          ⟨Log.Sink.write (Import.foundRecord (Import.directory entry origin) url p) g,
            p :: c.imports.found⟩ } := by
  have hlift : (host function entry read resolve).importer url origin c =
      ((Import.importer entry resolve url origin c.imports).1,
        { c with imports := (Import.importer entry resolve url origin c.imports).2 }) := rfl
  rw [hlift]
  constructor
  · intro h
    obtain ⟨hp, rfl⟩ := Prod.mk.inj h
    obtain ⟨g, hg, ht⟩ := Import.importer_eq_ok.1 (Prod.ext hp rfl)
    exact ⟨g, hg, congrArg (fun t => { c with imports := t }) ht⟩
  · rintro ⟨g, hg, rfl⟩
    rw [Import.importer_eq_ok.2 ⟨g, hg, rfl⟩]

/-- An extraction compares with one whose resolver only answers with the files that are found. -/
def confining (σ : Type) [Log.Sink σ] (files : List Path) :
    Comparison (Collected σ) (Collected σ) :=
  .restriction (FoundWithin files) fun _ hb => hb

theorem answers_of_hook {C : Comparison (Collected σ) (Collected τ)} {resolve : Import.Resolver σ}
    (hhook : ∀ args, C.Same (ofHost (hook args)) (ofHost (hook args))) :
    C.Answers (host function entry read resolve) (host function entry read' resolve') := by
  intro name _
  rw [function?_host, function?_host]
  by_cases hname : Name.ofString name = .ofString function
  · rw [if_pos hname, if_pos hname]
    exact .inr ⟨hook, hook, rfl, rfl, hhook⟩
  · rw [if_neg hname, if_neg hname]
    exact .inl ⟨rfl, rfl⟩

theorem confining_hosts : (confining σ files).Hosts (host function entry read resolve)
    (host function entry read (Import.only files resolve)) where
  answers := by
    refine answers_of_hook fun args s a s' hs => ⟨trivial, fun hb => ⟨?_, hs⟩⟩
    obtain ⟨c, hc, rfl⟩ := run_ofHost_eq_ok.1 hs
    have hfound : c.imports.found = s.host.imports.found := by
      rw [← hook_imports args s.host, hc]
    intro p hp
    exact hb p (hfound ▸ hp)
  read := rfl
  resolve origin url := by
    intro s p s' hs
    refine ⟨fun _ _ _ _ _ _ => trivial, fun hb => ?_⟩
    obtain ⟨c, himport, rfl⟩ := run_resolve_eq_ok.1 hs
    obtain ⟨g, hg, rfl⟩ := importer_eq_ok.1 himport
    -- the file that is found comes to those found before
    have hall : ∀ q ∈ p :: s.host.imports.found, q ∈ files := hb
    rw [List.forall_mem_cons] at hall
    refine ⟨hall.2, run_resolve_eq_ok.2 ⟨_, importer_eq_ok.2 ⟨g, ?_, rfl⟩, rfl⟩⟩
    exact Import.only_eq_ok.2 ⟨hg, hall.1⟩

theorem confining_keep : (confining σ files).Keeps := by
  intro p m _ s a s' hs
  cases hs
  exact ⟨trivial, fun hb => ⟨hb, rfl⟩⟩

/-! #### Resolvers that attend others -/

/-- The states of two extractions that found and exported the same. -/
structure Alongside (Ψ : List Path → σ → τ → Prop) (c : Collected σ) (c' : Collected τ) : Prop where
  inner : Ψ c.imports.found c.imports.inner c'.imports.inner
  found : c'.imports.found = c.imports.found
  exported : c'.exported = c.exported

omit [Log.Sink σ] [Log.Sink τ] in
/-- What is collected does not depend on the resolver. -/
theorem Alongside.extraction {c : Collected σ} {c' : Collected τ} (h : Alongside Ψ c c') :
    c'.extraction = c.extraction := by
  unfold Collected.extraction Import.Tracked.dependencies
  rw [h.exported, h.found]

/-- A step of the resolver in an extraction. -/
def liftMark (mark : Path → StateM τ Unit) (p : Path) : StateM (Collected τ) Unit :=
  Collected.lift (Import.Tracked.lift (mark p))

/-- What is noted of an extraction: every file before it is read. -/
def readNotes (mark : Path → StateM τ Unit) : Notes (Collected τ) where
  read p := ofHost (liftMark mark p)

section Attended

variable (ha : Import.Attends files Ψ resolve resolve' mark)
include ha

theorem Alongside.write {c : Collected σ} {c' : Collected τ} (r : Log.Record)
    (h : Alongside Ψ c c') : Alongside Ψ (Log.Sink.write r c) (Log.Sink.write r c') :=
  ⟨ha.write r h.inner, h.found, h.exported⟩

theorem hook_alongside (args : List Value) {c : Collected σ} {c' : Collected τ}
    (h : Alongside Ψ c c') :
    (hook args c').1 = (hook args c).1 ∧ Alongside Ψ (hook args c).2 (hook args c').2 := by
  unfold hook
  cases exportedValue? args with
  | none => exact ⟨rfl, h⟩
  | some x =>
    obtain ⟨name, value⟩ := x
    dsimp only
    split
    · exact ⟨rfl, h.write ha _⟩
    · exact ⟨rfl, h.inner, h.found, congrArg (_ :: ·) h.exported⟩

/-- Two extractions compare by the relation of their resolvers. -/
def attending : Comparison (Collected σ) (Collected τ) :=
  .simulation (fun _ => True) (fun _ => Alongside Ψ) fun r h => h.write ha r

theorem attending_finders (hread : ∀ p ∈ files, read' p = read p) :
    (attending ha).Finders .none (readNotes mark)
      (host function entry read (Import.only files resolve))
      (host function entry read' resolve') where
  answers := by
    refine answers_of_hook fun args s t hst a s' hs => ?_
    obtain ⟨c, hc, rfl⟩ := run_ofHost_eq_ok.1 hs
    obtain ⟨hresult, hstate⟩ := hook_alongside ha args hst.host
    rw [hc] at hresult hstate
    refine ⟨_, run_ofHost_eq_ok.2 ⟨_, Prod.ext hresult rfl, rfl⟩, ?_, trivial⟩
    exact ⟨hst.sheet, hst.modules, hst.calls, hst.kept, hstate⟩
  resolve origin url := by
    intro s t hst p s' hs
    obtain ⟨c, himport, rfl⟩ := run_resolve_eq_ok.1 hs
    obtain ⟨g, hg, rfl⟩ := importer_eq_ok.1 himport
    obtain ⟨hg, hp⟩ := Import.only_eq_ok.1 hg
    obtain ⟨h, hh, hΨ⟩ := ha.answer hst.host.inner hg
    refine ⟨_, run_resolve_eq_ok.2 ⟨_, importer_eq_ok.2 ⟨h, hh, rfl⟩, rfl⟩, ?_,
      fun _ _ _ _ _ _ => trivial, hread p hp, ?_⟩
    · exact ⟨hst.sheet, hst.modules, hst.calls, hst.kept, ha.write _ hΨ,
        congrArg (p :: ·) hst.host.found, hst.host.exported⟩
    · intro s t hst a s' hs
      cases hs
      refine ⟨_, rfl, ⟨hst.sheet, hst.modules, hst.calls, hst.kept, ?_⟩, trivial⟩
      exact ⟨ha.mark hp hst.host.inner, hst.host.found, hst.host.exported⟩

theorem attending_keep : (attending ha).Keeps := by
  intro p m hm s t hst a s' hs
  cases hs
  refine ⟨_, rfl, ⟨hst.sheet, ?_, hst.calls, hst.kept.insert p hm, hst.host⟩, trivial⟩
  exact congrArg (·.insert p m) hst.modules

theorem attends_reported (rs : List Log.Record) {found : List Path} {g : σ} {h : τ}
    (hΨ : Ψ found g h) : Ψ found (reported rs g) (reported rs h) := by
  induction rs generalizing g h with
  | nil => exact hΨ
  | cons r rs ih => exact ih (ha.write r hΨ)

theorem attends_engineState (tree : Node) {g : σ} {h : τ} (hΨ : Ψ [] g h) :
    Ψ [] (engineState function entry tree g) (engineState function entry tree h) :=
  attends_reported ha _ (attends_reported ha _ hΨ)

/-- **A rendering of an extraction with other files**, if they are the same where the first one
finds some. -/
theorem render_attended (hread : ∀ p ∈ files, read' p = read p) {source : String} {g : σ} {h : τ}
    (hΨ : Ψ [] g h) {c : Collected σ}
    (hr : render limits (host function entry read resolve) source (.start g) = (.ok (), c))
    (hc : FoundWithin files c) :
    ∃ c', Noted.render (readNotes mark) limits (host function entry read' resolve') source
        (.start h) = (.ok (), c') ∧ Alongside Ψ c c' := by
  obtain ⟨tree, s', hp, hs, rfl⟩ := renderBy_eq_ok.1 hr
  have hhosts : (confining σ files).Hosts (host function entry read resolve)
      (host function entry read (Import.only files resolve)) := confining_hosts
  have hconfined := hhosts.runFile limits confining_keep limits.imports .entry (Stmt.ofTree tree)
    fun _ _ => trivial
  obtain ⟨-, hs⟩ := (hconfined _ _ _ hs).2 hc
  rw [← Noted.runFile_none] at hs
  have start : Comparison.Agree (fun _ => True) (fun _ => Alongside Ψ)
      (entryState (Collected.start g)) (entryState (Collected.start h)) :=
    ⟨rfl, rfl, Sheet.callsOnly_start _ _, Table.all_empty, hΨ, rfl, rfl⟩
  obtain ⟨t', ht, hst, -⟩ := Comparison.runFile limits (Comparison.filing_read _ _)
    (attending_finders ha hread) (attending_keep ha) limits.imports .entry (Stmt.ofTree tree)
    (fun _ _ => trivial) _ _ start () _ hs
  exact ⟨t'.host, renderBy_eq_ok.2 ⟨tree, t', hp, ht, rfl⟩, hst.host⟩

/-- **An extraction with other files:** it gives the same if its resolver attends that of the
extraction and the files are the same at all paths that this one depends on. -/
theorem extract_attended {source : String} {g g' : σ} {h : τ} {x : Extraction}
    (hx : extract (render limits) function entry read resolve source g = (.ok x, g'))
    (hfiles : files = x.dependencies) (hread : ∀ p ∈ files, read' p = read p) (hΨ : Ψ [] g h) :
    ∃ h', extract (Noted.render (readNotes mark) limits) function entry read' resolve' source h =
        (.ok x, h') ∧ Ψ x.dependencies.reverse g' h' := by
  obtain ⟨tree, n, ht, hn⟩ := wrapped_of_extract hx
  obtain ⟨c, hc, rfl, rfl⟩ := (extract_eq_ok ht hn).1 hx
  have hfound : c.extraction.dependencies.reverse = c.imports.found := List.reverse_reverse _
  obtain ⟨c', hc', hcc⟩ := render_attended ha hread (attends_engineState ha tree hΨ) hc
    fun p hp => by
      rw [hfiles, ← List.mem_reverse, hfound]
      exact hp
  refine ⟨_, (extract_eq_ok ht hn).2 ⟨c', hc', hcc.extraction.symm, rfl⟩, ?_⟩
  rw [hfound]
  exact ha.write _ hcc.inner

end Attended

/-- **The dependencies of an extraction** are the paths that its resolver answered with, in the
order of the answers. Every file that is read is one of them, and an extraction with other files
gives the same if they are the same at these paths. -/
theorem dependencies_complete {source : String} {g g' : σ} {x : Extraction}
    (hx : extract (render limits) function entry read resolve source g = (.ok x, g')) :
    (∃ es, extract (Noted.render (readNotes Import.markRead) limits) function entry read
          (Import.recorded resolve) source ⟨g, []⟩ = (.ok x, ⟨g', es⟩) ∧
        Import.FileEvent.answers es.reverse = x.dependencies ∧
        Import.FileEvent.ReadsWithin x.dependencies es) ∧
      ∀ read', (∀ p ∈ x.dependencies, read' p = read p) →
        extract (render limits) function entry read' resolve source g = (.ok x, g') := by
  constructor
  · have hstart : Import.Keeping x.dependencies [] g ⟨g, []⟩ := ⟨rfl, rfl, nofun⟩
    obtain ⟨⟨h', es⟩, hr, rfl, hanswers, hreads⟩ :=
      extract_attended (Import.attends_recorded x.dependencies resolve) hx rfl (fun _ _ => rfl) hstart
    refine ⟨es, hr, ?_, hreads⟩
    rw [Import.FileEvent.answers, List.filterMap_reverse]
    exact (congrArg List.reverse hanswers).trans (List.reverse_reverse _)
  · intro read' hread
    obtain ⟨h', hr, rfl⟩ :=
      extract_attended (Import.attends_self x.dependencies resolve) hx rfl hread rfl
    have hnone : (readNotes fun _ : Path => (pure () : StateM σ Unit)) = .none := rfl
    rw [hnone, Noted.render_none] at hr
    exact hr

/-! ### Extractions from fixed files -/

/-- The extraction of a source from files, whose imports are looked up among other ones. -/
def extractFiles (lookup files : Files) (source : String) :
    Except Error Extraction × List Log.Record :=
  extract (render .standard) "export_var" ⟨"./entry.scss"⟩ files.read (Import.resolve lookup []) source
    []

/-- What an extraction depends on. -/
def dependenciesOf (r : Except Error Extraction) : Option (List String) :=
  match r with
  | .ok x => some (x.dependencies.map (·.text))
  | .error _ => none

theorem exists_of_dependenciesOf {run : Except Error Extraction × List Log.Record}
    {texts : List String} (h : dependenciesOf run.1 = some texts) :
    ∃ x g, run = (.ok x, g) ∧ x.dependencies.map (·.text) = texts := by
  rcases run with ⟨_ | x, g⟩
  · cases h
  · exact ⟨x, g, rfl, Option.some.inj h⟩

/-- A file that is imported by another one, and a third one that is not imported. -/
def nestedFiles (other : String) : Files := .ofList
  [("a.scss", "$a: one;".toUTF8), ("b.scss", "@import \"a\";\n$b: $a;".toUTF8),
    ("c.scss", other.toUTF8)]

/-- A source that reaches one file by two ways. -/
def asksTwice : String := "@import \"b\";\n@use \"a\";\n$x: $b;"

theorem dependencies_complete_sample : ∃ x g es,
    extractFiles (nestedFiles "") (nestedFiles "") asksTwice = (.ok x, g) ∧
      x.dependencies.map (·.text) = ["./b.scss", "./a.scss", "./a.scss"] ∧
      Import.FileEvent.answers es = x.dependencies ∧
      extractFiles (nestedFiles "") (nestedFiles "$c: two;") asksTwice = (.ok x, g) := by
  have hrun : dependenciesOf (extractFiles (nestedFiles "") (nestedFiles "") asksTwice).1 =
      some ["./b.scss", "./a.scss", "./a.scss"] := by decide +kernel
  obtain ⟨x, g, hx, htexts⟩ := exists_of_dependenciesOf hrun
  obtain ⟨⟨es, -, hes, -⟩, hother⟩ := dependencies_complete hx
  refine ⟨x, g, es.reverse, hx, htexts, hes, hother _ fun p hp => ?_⟩
  have hmem : p.text ∈ x.dependencies.map (·.text) := List.mem_map_of_mem hp
  rw [htexts] at hmem
  simp only [List.mem_cons, List.not_mem_nil, or_false, or_self] at hmem
  -- the third file is neither of the two
  obtain ⟨text⟩ := p
  rcases hmem with rfl | rfl
  · rfl
  · rfl

end Extraction
end Stylesheet
