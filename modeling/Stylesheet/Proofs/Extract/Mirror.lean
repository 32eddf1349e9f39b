import Stylesheet.Extract.Run
import Stylesheet.Proofs.Render.Sights

/-!
# Renderings and extractions side by side

The same source is rendered for two hosts: for one that only resolves imports, and for that of an
extraction, which also answers the export function. As long as that function is not called, both
see the same, and the imports that are found are the same.

* `Import.Blind`: resolvers that do not see the log.
* `Extraction.Mirrors`: a step of a rendering that an extraction mirrors.
* `Extraction.mirrors_entry`, `Extraction.mirrors_evalAll`: statements and expressions that do not
  call the export function.
* `Extraction.exported_grows`: what is exported stays exported.
-/

namespace Stylesheet

open Render

/-! ### Importers -/

namespace Import

variable {σ : Type} [Log.Sink σ]

/-- **A resolver that does not see the log:** in states that differ in records only, it gives the
same answers and goes on in such states. -/
structure Blind (Same : σ → σ → Prop) (resolve : Resolver σ) : Prop where
  refl : ∀ g, Same g g
  left : ∀ r g g', Same g g' → Same (Log.Sink.write r g) g'
  right : ∀ r g g', Same g g' → Same g (Log.Sink.write r g')
  answer : ∀ dir request g g', Same g g' →
    (resolve dir request g').1 = (resolve dir request g).1 ∧
      Same (resolve dir request g).2 (resolve dir request g').2

theorem Blind.write {Same : σ → σ → Prop} {resolve : Resolver σ} (h : Blind Same resolve)
    {g g' : σ} (hs : Same g g') (r r' : Log.Record) :
    Same (Log.Sink.write r g) (Log.Sink.write r' g') := h.left r _ _ (h.right r' _ _ hs)

/-- Records written after each other are not seen either. -/
theorem Blind.records {Same : σ → σ → Prop} {resolve : Resolver σ} (h : Blind Same resolve)
    (rs : List Log.Record) {g g' : σ} (hs : Same g g') :
    Same g ((rs.forM fun r => modify (Log.Sink.write r) : StateM σ Unit) g').2 := by
  induction rs generalizing g' with
  | nil => exact hs
  | cons r rs ih => exact ih (h.right r _ _ hs)

theorem firstFile_answer (isFile : Path → Bool) (ps : List Path) (g g' : σ) :
    (firstFile isFile ps g').1 = (firstFile isFile ps g).1 := by
  induction ps generalizing g g' with
  | nil => rfl
  | cons p ps ih =>
    unfold firstFile
    dsimp only [bind, StateT.bind]
    cases isFile p with
    | true => rfl
    | false => exact ih _ _

/-- The resolver of files answers alike in all states. -/
theorem blind_files (files : Files) (loadPaths : List Path) :
    Blind (fun _ _ => True) (resolve files loadPaths : Resolver σ) where
  refl _ := trivial
  left _ _ _ _ := trivial
  right _ _ _ _ := trivial
  answer dir request g g' _ := by
    refine ⟨?_, trivial⟩
    have hfirst := firstFile_answer files.isFile (candidates loadPaths dir request) g g'
    revert hfirst
    unfold resolve resolveWhere
    dsimp only [bind, StateT.bind]
    rcases firstFile files.isFile (candidates loadPaths dir request) g with ⟨r, g₁⟩
    rcases firstFile files.isFile (candidates loadPaths dir request) g' with ⟨r', g₂⟩
    rintro ⟨⟩
    cases r with
    | none => rfl
    | some p => rfl

/-- What an importer found so far after an answer. -/
def foundBy (r : Except String Path) (found : List Path) : List Path :=
  match r with
  | .ok p => p :: found
  | .error _ => found

variable (base : Path) (resolve : Resolver σ) (url : String) (origin : Origin)

theorem importer_found (t : Tracked σ) :
    (importer base resolve url origin t).2.found =
      foundBy (importer base resolve url origin t).1 t.found := by
  unfold importer Tracked.lift
  dsimp only [bind, StateT.bind]
  rcases resolve (directory base origin) (request url) t.inner with ⟨_ | _, g⟩ <;> rfl

variable {resolve}

/-- An importer does not see the log if its resolver does not. -/
theorem Blind.importer {Same : σ → σ → Prop} (h : Blind Same resolve) {t t' : Tracked σ}
    (hs : Same t.inner t'.inner) :
    (Import.importer base resolve url origin t').1 = (Import.importer base resolve url origin t).1 ∧
      Same (Import.importer base resolve url origin t).2.inner
        (Import.importer base resolve url origin t').2.inner := by
  have hanswer := h.answer (directory base origin) (request url) t.inner t'.inner hs
  revert hanswer
  unfold Import.importer Tracked.lift
  dsimp only [bind, StateT.bind]
  rcases resolve (directory base origin) (request url) t.inner with ⟨r, g⟩
  rcases resolve (directory base origin) (request url) t'.inner with ⟨r', g'⟩
  rintro ⟨hr, hg⟩
  obtain rfl : r' = r := hr
  cases r' with
  | error reason => exact ⟨rfl, hg⟩
  | ok p => exact ⟨rfl, h.write hg _ _⟩

end Import

/-! ### The comparisons -/

namespace Extraction

variable {σ : Type} [Log.Sink σ]

/-- A host that only resolves imports. -/
def plainHost (entry : Path) (read : Path → Except ReadFault String) (resolve : Import.Resolver σ) :
    Host (Import.Tracked σ) where
  importer := Import.importer entry resolve
  functions := .empty
  read

/-- The state of a rendering that is seen. -/
abbrev Plainly (σ : Type) := Traced Sight (Import.Tracked σ)

/-- The state of an extraction that is seen. -/
abbrev Collecting (σ : Type) := Traced Sight (Collected σ)

/-- All files that are found are among the given ones. -/
def Bound (files : List Path) (t : Plainly σ) : Prop := ∀ p ∈ t.inner.found, p ∈ files

/-- The states of a rendering and of an extraction with the same history and the same files. -/
structure Matches (Same : σ → σ → Prop) (exported : List Exported) (g : Plainly σ)
    (g' : Collecting σ) : Prop where
  inner : Same g.inner.inner g'.inner.imports.inner
  found : g'.inner.imports.found = g.inner.found
  history : g'.history = g.history
  exported : g'.inner.exported = exported

open Classical in
/-- The host that only finds the given files. -/
noncomputable def within (files : List Path) (h : Host (Plainly σ)) : Host (Plainly σ) :=
  { h with
    importer := fun url origin t =>
      let (r, t) := h.importer url origin t
      match r with
      | .ok p => (if p ∈ files then .ok p else .error "", t)
      | .error message => (.error message, t) }

omit [Log.Sink σ] in
theorem within_importer_eq_ok {files : List Path} {h : Host (Plainly σ)} {url : String}
    {origin : Origin} {t t' : Plainly σ} {p : Path} :
    (within files h).importer url origin t = (.ok p, t') ↔
      h.importer url origin t = (.ok p, t') ∧ p ∈ files := by
  unfold within
  dsimp only
  rcases h.importer url origin t with ⟨_ | q, t₁⟩
  · constructor
    · intro hq
      cases hq
    · rintro ⟨hq, _⟩
      cases hq
  · by_cases hq : q ∈ files
    · simp only [if_pos hq]
      constructor
      · intro h
        cases h
        exact ⟨rfl, hq⟩
      · exact fun h => h.1
    · simp only [if_neg hq]
      constructor
      · intro h
        cases h
      · rintro ⟨h, hp⟩
        cases h
        exact absurd hp hq

section

variable {entry : Path} {read : Path → Except ReadFault String} {resolve : Import.Resolver σ}
  {files : List Path}

/-- A rendering that finds only the given files compares with that of the host that finds no
others. -/
def bounding (σ : Type) [Log.Sink σ] (files : List Path) : Comparison (Plainly σ) (Plainly σ) :=
  .restriction (Bound files) fun _ hb => hb

theorem bounding_hosts : (bounding σ files).Hosts (Sight.host (plainHost entry read resolve))
    (within files (Sight.host (plainHost entry read resolve))) where
  answers name _ := .inl ⟨rfl, rfl⟩
  read := rfl
  resolve origin url := by
    intro s p s' hs
    refine ⟨fun _ _ _ _ _ _ => trivial, fun hb => ?_⟩
    obtain ⟨g, himport, rfl⟩ := run_resolve_eq_ok.1 hs
    -- the file that is found comes to those found before
    have hall : ∀ q ∈ p :: s.host.inner.found, q ∈ files := by
      have hfound := Import.importer_found entry resolve url origin s.host.inner
      rw [Sight.importer_host] at himport
      obtain ⟨hp, rfl⟩ := Prod.mk.inj himport
      rw [show (Import.importer entry resolve url origin s.host.inner).1 = .ok p from hp] at hfound
      intro q hq
      refine hb q ?_
      rw [← show _ = p :: s.host.inner.found from hfound] at hq
      exact hq
    rw [List.forall_mem_cons] at hall
    exact ⟨hall.2, run_resolve_eq_ok.2 ⟨g, within_importer_eq_ok.2 ⟨himport, hall.1⟩, rfl⟩⟩

theorem bounding_look : (bounding σ files).Same Sight.look Sight.look := by
  intro s a s' hs
  cases hs
  exact ⟨trivial, fun hb => ⟨hb, rfl⟩⟩

theorem bounding_keep : (bounding σ files).Keeps := by
  intro p m _ s a s' hs
  cases hs
  exact ⟨trivial, fun hb => ⟨hb, rfl⟩⟩

variable {Same : σ → σ → Prop} {function : String} {exported : List Exported}

/-- A rendering compares with an extraction if it does not call the export function. -/
def mirroring (h : Import.Blind Same resolve) (function : String) (exported : List Exported) :
    Comparison (Plainly σ) (Collecting σ) :=
  .simulation (· ≠ .ofString function) (fun _ => Matches Same exported) fun r hm =>
    ⟨h.write hm.inner r r, hm.found, hm.history, hm.exported⟩

/-- The host of an extraction has one function. -/
theorem function?_host (name : String) :
    (host function entry read resolve).functions.function? name =
      if Name.ofString name = .ofString function then some hook else none := by
  unfold host Registry.register Registry.function?
  dsimp only
  rw [Table.find?_insert]
  by_cases hname : Name.ofString name = .ofString function
  · rw [if_pos hname, hname]
    simp
  · rw [if_neg hname, if_neg]
    · rfl
    · intro heq
      exact hname (eq_of_beq heq).symm

theorem mirroring_hosts (h : Import.Blind Same resolve)
    (hfiles : ∀ p ∈ files, FileCallsOnly (· ≠ .ofString function)
      (plainHost entry read resolve) p) :
    (mirroring h function exported).Hosts (within files (Sight.host (plainHost entry read resolve)))
      (Sight.host (host function entry read resolve)) where
  answers name hname := by
    refine .inl ⟨rfl, ?_⟩
    have hnone : (host function entry read resolve).functions.function? name = none := by
      rw [function?_host, if_neg hname]
    have hfind := Traced.find?_host (ε := Sight) (host function entry read resolve) name
    rw [hnone] at hfind
    exact hfind
  read := rfl
  resolve origin url := by
    intro s t hst p s' hs
    obtain ⟨g, himport, rfl⟩ := run_resolve_eq_ok.1 hs
    obtain ⟨himport, hp⟩ := within_importer_eq_ok.1 himport
    rw [Sight.importer_host] at himport
    obtain ⟨hanswer, rfl⟩ := Prod.mk.inj himport
    have hmatch := hst.host
    obtain ⟨hsame, hinner⟩ := h.importer entry url origin hmatch.inner
    have hfound := Import.importer_found entry resolve url origin s.host.inner
    have hfound' := Import.importer_found entry resolve url origin t.host.inner.imports
    rw [hsame, hmatch.found, ← hfound] at hfound'
    refine ⟨{ t with host := ⟨{ t.host.inner with
        imports := (Import.importer entry resolve url origin t.host.inner.imports).2 },
      .asked url origin :: t.host.history⟩ }, run_resolve_eq_ok.2 ⟨_, ?_, rfl⟩, ?_, hfiles p hp⟩
    · rw [Sight.importer_host]
      exact congrArg (·, _) (hsame.trans hanswer)
    · exact ⟨hst.sheet, hst.modules, hst.calls, hst.kept, hinner, hfound',
        congrArg (Sight.asked url origin :: ·) hmatch.history, hmatch.exported⟩

theorem mirroring_look (h : Import.Blind Same resolve) :
    (mirroring h function exported).Same Sight.look Sight.look := by
  intro s t hst a s' hs
  cases hs
  have hmatch := hst.host
  refine ⟨_, rfl, ⟨hst.sheet, hst.modules, hst.calls, hst.kept, hmatch.inner, hmatch.found, ?_,
    hmatch.exported⟩, trivial⟩
  show Sight.passed t.sheet t.modules :: t.host.history = Sight.passed s.sheet s.modules :: s.host.history
  rw [hst.sheet, hst.modules, hmatch.history]

theorem mirroring_keep (h : Import.Blind Same resolve) :
    (mirroring h function exported).Keeps := by
  intro p m hm s t hst a s' hs
  cases hs
  refine ⟨_, rfl, ⟨hst.sheet, ?_, hst.calls, hst.kept.insert p hm, hst.host⟩, trivial⟩
  exact congrArg (·.insert p m) hst.modules

/-! ### Steps that an extraction mirrors -/

/-- A rendering and an extraction in states that agree, after the same exports. -/
abbrev Agrees (Same : σ → σ → Prop) (function : String) (exported : List Exported)
    (s : State (Plainly σ)) (t : State (Collecting σ)) : Prop :=
  Comparison.Agree (· ≠ .ofString function) (fun _ => Matches Same exported) s t

/-- **A step that an extraction mirrors:** whatever it finds is found in the end, and if that is
among the given files, the step of the extraction gives the same and exports nothing. -/
structure Mirrors {α : Type} (Same : σ → σ → Prop) (function : String) (files : List Path)
    (act : Render (Plainly σ) α) (act' : Render (Collecting σ) α) : Prop where
  bounded : ∀ {s a s'}, act.run s = (.ok a, s') → Bound files s'.host → Bound files s.host
  runs : ∀ {exported s t a s'}, Agrees Same function exported s t → act.run s = (.ok a, s') →
    Bound files s'.host → ∃ t', act'.run t = (.ok a, t') ∧ Agrees Same function exported s' t'

theorem Mirrors.of {α : Type} {P : α → Prop} {act act₁ : Render (Plainly σ) α}
    {act' : Render (Collecting σ) α} (h : Import.Blind Same resolve)
    (hb : (bounding σ files).Rel P act act₁)
    (hm : ∀ exported, (mirroring h function exported).Rel P act₁ act') :
    Mirrors Same function files act act' where
  bounded hs hbound := ((hb _ _ _ hs).2 hbound).1
  runs hst hs hbound := by
    obtain ⟨-, hs₁⟩ := (hb _ _ _ hs).2 hbound
    obtain ⟨t', ht', hst', -⟩ := hm _ _ _ hst _ _ hs₁
    exact ⟨t', ht', hst'⟩

theorem mirrors_look (h : Import.Blind Same resolve) :
    Mirrors Same function files Sight.look Sight.look :=
  .of h bounding_look fun _ => mirroring_look h

theorem mirrors_modifyScopes (h : Import.Blind Same resolve) (f : Scopes → Scopes) :
    Mirrors Same function files (modifyScopes f) (modifyScopes f) :=
  .of h (Comparison.modifyScopes f) fun _ => Comparison.modifyScopes f

section

variable (limits : Limits) (h : Import.Blind Same resolve)
  (hfiles : ∀ p ∈ files, FileCallsOnly (· ≠ .ofString function) (plainHost entry read resolve) p)
include h hfiles

/-- **Statements** that do not call the export function. -/
theorem mirrors_entry {ss : List Stmt} (hss : ∀ n ∈ Stmt.callsOfAll ss, n ≠ .ofString function) :
    Mirrors Same function files
      (Sight.entry limits (plainHost entry read resolve) ss)
      (Sight.entry limits (host function entry read resolve) ss) :=
  .of h
    (Comparison.entry limits (Sight.filing_notes bounding_look)
      (bounding_hosts.finders fun _ => Comparison.same_ret ()) bounding_keep fun _ _ => trivial)
    fun _ => Comparison.entry limits (Sight.filing_notes (mirroring_look h))
      ((mirroring_hosts h hfiles).finders fun _ => Comparison.same_ret ()) (mirroring_keep h) hss

/-- **Expressions** that do not call the export function. -/
theorem mirrors_evalAll {es : List Expr} (hes : ∀ n ∈ Expr.callsOfAll es, n ≠ .ofString function) :
    Mirrors Same function files
      (Expr.evalAll (Sight.host (plainHost entry read resolve))
        (Noted.callAt Sight.notes (Sight.host (plainHost entry read resolve)) limits limits.calls) es)
      (Expr.evalAll (Sight.host (host function entry read resolve))
        (Noted.callAt Sight.notes (Sight.host (host function entry read resolve)) limits
          limits.calls) es) := by
  refine .of h (Comparison.evalAll bounding_hosts.answers
    (Comparison.callAt limits (Sight.filing_notes bounding_look).toNoting bounding_hosts.answers _)
      es fun _ _ => trivial) ?_
  intro exported
  have hanswers := (mirroring_hosts h hfiles : (mirroring h function exported).Hosts _ _).answers
  exact Comparison.evalAll hanswers
    (Comparison.callAt limits (Sight.filing_notes (mirroring_look h)).toNoting hanswers _) es hes

end

/-! ### What is exported -/

theorem hook_exported (args : List Value) (c : Collected σ) :
    c.exported <:+ (hook args c).2.exported := by
  unfold hook
  cases exportedValue? args with
  | none => exact List.suffix_rfl
  | some x =>
    obtain ⟨name, value⟩ := x
    dsimp only
    split
    · exact List.suffix_rfl
    · exact List.suffix_cons _ _

/-- An extraction that has not exported something in the end has not done so before. -/
def growing (σ : Type) [Log.Sink σ] (exported : List Exported) :
    Comparison (Collecting σ) (Collecting σ) :=
  .restriction (fun t => ¬ exported <:+ t.inner.exported) fun _ hb => hb

theorem growing_hosts : (growing σ exported).Hosts (Sight.host (host function entry read resolve))
    (Sight.host (host function entry read resolve)) where
  answers name _ := by
    have hfind := Traced.find?_host (ε := Sight) (host function entry read resolve) name
    cases hf : (host function entry read resolve).functions.function? name with
    | none =>
      rw [hf] at hfind
      exact .inl ⟨hfind, hfind⟩
    | some f =>
      rw [hf] at hfind
      refine .inr ⟨_, _, hfind, hfind, ?_⟩
      intro args s a s' hs
      rw [function?_host] at hf
      split at hf
      · cases hf
        cases hs
        refine ⟨trivial, fun hb => ⟨fun hsuffix => ?_, rfl⟩⟩
        exact hb (hsuffix.trans (hook_exported args s.host.inner))
      · cases hf
  read := rfl
  resolve origin url := by
    intro s p s' hs
    refine ⟨fun _ _ _ _ _ _ => trivial, fun hb => ⟨?_, hs⟩⟩
    obtain ⟨g, himport, rfl⟩ := run_resolve_eq_ok.1 hs
    rw [Sight.importer_host] at himport
    obtain ⟨-, rfl⟩ := Prod.mk.inj himport
    exact hb

/-- **What is exported stays exported.** -/
theorem exported_grows {limits : Limits} {ss : List Stmt} {t t' : State (Collecting σ)}
    {r : Option Value}
    (ht : (Sight.entry limits (host function entry read resolve) ss).run t = (.ok r, t')) :
    t.host.inner.exported <:+ t'.host.inner.exported := by
  have hlook : (growing σ t.host.inner.exported).Same Sight.look Sight.look := by
    intro s a s' hs
    cases hs
    exact ⟨trivial, fun hb => ⟨hb, rfl⟩⟩
  have hkeep : (growing σ t.host.inner.exported).Keeps := by
    intro p m _ s a s' hs
    cases hs
    exact ⟨trivial, fun hb => ⟨hb, rfl⟩⟩
  have hhosts : (growing σ t.host.inner.exported).Hosts
      (Sight.host (host function entry read resolve))
      (Sight.host (host function entry read resolve)) := growing_hosts
  have hentry := Comparison.entry limits (Sight.filing_notes hlook)
    (hhosts.finders fun _ => Comparison.same_ret ()) hkeep
    fun n (_ : n ∈ Stmt.callsOfAll ss) => trivial
  refine Classical.byContradiction fun hn => ?_
  exact ((hentry t r t' ht).2 hn).1 List.suffix_rfl

end

end Extraction
end Stylesheet
