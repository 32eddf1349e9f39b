import Stylesheet.Proofs.Extract.Lockstep
import Stylesheet.Proofs.Import.Once

/-!
# Transparent extractions

An extraction renders a source whose declarations call the export function. It is transparent if
nothing else of the rendering changes: the same imports are asked for in the same order, every
variable has the same value at every point, and what is exported is what the declarations at the
top of the source assign. That is so exactly if no declaration is misread.

* `Extraction.Transparent`: an extraction in which a source is rendered as without it.
* `Extraction.transparent_iff`: which extractions are transparent.
* `Extraction.transparent_counterexample`: extractions that are not.
-/

namespace Stylesheet

open Render Export

namespace Sight

variable {σ : Type} [Log.Sink σ] {limits : Limits} {h : Host σ}

/-- **A rendering that is seen succeeds** if the source parses and its statements do. -/
theorem render_eq_ok {source : String} {g : σ} {t : Traced Sight σ} :
    render limits h source ⟨g, []⟩ = (.ok (), t) ↔
      ∃ tree s', parse source = .ok tree ∧
        (entry limits h (Stmt.ofTree tree)).run (Traced.ofState (entryState g) []) =
          (.ok none, s') ∧ s'.host = t := by
  have hrun (ss : List Stmt) (s' : State (Traced Sight σ)) :
      (Noted.runFile notes (host h) limits limits.imports .entry ss).run
          (entryState ⟨g, []⟩) = (.ok (), s') ↔
        (entry limits h ss).run (Traced.ofState (entryState g) []) = (.ok none, s') := by
    rw [Noted.runFile_entry, run_bind_eq_ok]
    constructor
    · rintro ⟨r, s₁, hs, hr⟩
      obtain ⟨-, rfl⟩ := run_pure_eq_ok.1 hr
      have hentry : (entry limits h ss).run (Traced.ofState (entryState g) []) = (.ok r, s') := hs
      -- no statement at the top of a source returns
      obtain ⟨s₂, es, hblind, -⟩ := (forgets_entry h limits ss).run_inner hentry
      obtain rfl : r = none := (forgets_entry h limits ss (entryState g) []).2 r (by rw [hblind])
      exact hentry
    · exact fun hs => ⟨none, s', hs, rfl⟩
  unfold render Noted.render
  rw [renderBy_eq_ok]
  simp only [hrun]

/-- A rendering is seen in full. -/
theorem render_of_render {source : String} {g g' : σ}
    (hr : Stylesheet.render limits h source g = (.ok (), g')) :
    render limits h source ⟨g, []⟩ = (.ok (), ⟨g', (sights limits h source g).reverse⟩) := by
  obtain ⟨es, hes⟩ := render_eq h limits source g
  rw [hr] at hes
  rw [sights, hes, List.reverse_reverse]

/-- What is seen is the rendering itself. -/
theorem render_of_seen {source : String} {g : σ} {r : Except RenderError Unit} {t : Traced Sight σ}
    (ht : render limits h source ⟨g, []⟩ = (r, t)) :
    Stylesheet.render limits h source g = (r, t.inner) := by
  obtain ⟨es, hes⟩ := render_eq h limits source g
  rw [ht] at hes
  obtain ⟨rfl, rfl⟩ := Prod.mk.inj hes
  rfl

end Sight

namespace Extraction

variable {σ : Type} [Log.Sink σ] {entry : Path} {read : Path → Except ReadFault String}
  {resolve : Import.Resolver σ} {Same : σ → σ → Prop} {function : String} {limits : Limits}

/-! ### The rendering of an extraction -/

/-- The state behind some records. -/
def reported (rs : List Log.Record) (g : σ) : σ :=
  ((rs.forM fun r => modify (Log.Sink.write r) : StateM σ Unit) g).2

/-- **The state in which an extraction starts to render.** -/
def engineState (function : String) (entry : Path) (tree : Node) (g : σ) : σ :=
  reported (treeRecords entry (wrapDeclarations function tree).tree)
    (reported (wrapDeclarations function tree).records g)

theorem engineState_same (h : Import.Blind Same resolve) (tree : Node) (g : σ) :
    Same g (engineState function entry tree g) := h.records _ (h.records _ (h.refl g))

/-- What is reported about an extraction that succeeds. -/
def endRecord (entry : Path) (x : Extraction) : Log.Record :=
  ⟨.info, .extractor, "Extracted " ++ toString x.exported.length ++ " variables and " ++
    toString x.dependencies.length ++ " dependencies from " ++ entry.quoted⟩

theorem collect_eq (engine : Engine (Collected σ)) (host : Host (Collected σ)) (tree : Node) (g : σ) :
    collect engine entry host tree g =
      match engine host tree.print (.start (reported (treeRecords entry tree) g)) with
      | (.error e, c) => (.error (.render e), c.imports.inner)
      | (.ok (), c) =>
          (.ok c.extraction, Log.Sink.write (endRecord entry c.extraction) c.imports.inner) := by
  have hstart : ((treeRecords entry tree).forM fun r => modify (Log.Sink.write r) :
      StateM σ Unit) g = ((), reported (treeRecords entry tree) g) := rfl
  simp only [collect, bind, StateT.bind, hstart, get, getThe, MonadStateOf.get, StateT.get,
    StateT.run, pure]
  rcases engine host tree.print (.start (reported (treeRecords entry tree) g)) with ⟨_ | _, c⟩
  · rfl
  · rfl

theorem extract_eq {source : String} {tree : Node} (ht : parse source = .ok tree) {n : Nat}
    (hwrapped : (wrapDeclarations function tree).result = .ok n) (engine : Engine (Collected σ))
    (g : σ) :
    extract engine function entry read resolve source g =
      collect engine entry (host function entry read resolve) (wrapDeclarations function tree).tree
        (reported (wrapDeclarations function tree).records g) := by
  unfold extract
  rw [ht]
  dsimp only
  rw [hwrapped]
  rfl

/-- **An extraction succeeds** if its rendering does, with what that collects. -/
theorem extract_eq_ok {source : String} {tree : Node} (ht : parse source = .ok tree) {n : Nat}
    (hwrapped : (wrapDeclarations function tree).result = .ok n) {engine : Engine (Collected σ)}
    {g g' : σ} {x : Extraction} :
    extract engine function entry read resolve source g = (.ok x, g') ↔
      ∃ c, engine (host function entry read resolve) (wrapDeclarations function tree).tree.print
        (.start (engineState function entry tree g)) = (.ok (), c) ∧ x = c.extraction ∧
        g' = Log.Sink.write (endRecord entry x) c.imports.inner := by
  rw [extract_eq ht hwrapped, collect_eq, engineState]
  rcases engine (host function entry read resolve) _ _ with ⟨_ | _, c⟩
  · constructor
    · intro hx
      cases hx
    · rintro ⟨c', hc, -⟩
      cases hc
  · constructor
    · intro hx
      cases hx
      exact ⟨c, rfl, rfl, rfl⟩
    · rintro ⟨c', hc, rfl, rfl⟩
      cases hc
      rfl

/-! ### Transparent extractions -/

/-- **A transparent extraction** of a source whose rendering ends in a state: it succeeds, exports
the values that the rendering assigns at the top of the source, and finds the same files. It asks
for the same imports and passes the same states. -/
structure Transparent (limits : Limits) (function : String) (entry : Path)
    (read : Path → Except ReadFault String) (resolve : Import.Resolver σ) (source : String)
    (tree : Node) (g : σ) (c : Import.Tracked σ) : Prop where
  result : ∃ x, (extract (render limits) function entry read resolve source g).1 = .ok x ∧
    x.exported = (assigned limits (plainHost entry read resolve) tree (.start g)).map exportOf ∧
    x.dependencies = c.dependencies
  sights : sights limits (host function entry read resolve)
      (wrapDeclarations function tree).tree.print (.start (engineState function entry tree g)) =
    sights limits (plainHost entry read resolve) source (.start g)

omit [Log.Sink σ] in
/-- States before the first statement agree. -/
theorem agrees_start {g g' : σ} (h : Same g g') :
    Agrees Same function [] (Traced.ofState (entryState (.start g)) [])
      (Traced.ofState (entryState (.start g')) []) where
  sheet := rfl
  modules := rfl
  calls := Sheet.callsOnly_start _ _
  kept := Table.all_empty
  host := ⟨h, rfl, rfl, rfl⟩

section

variable {source : String} {tree tree' : Node} {g : σ} {c : Import.Tracked σ}
  (h : Import.Blind Same resolve) (hf : isName function = true) (ht : parse source = .ok tree)
  (hprinted : parse (wrapDeclarations function tree).tree.print = .ok tree')
  (hcalls : ∀ n ∈ Stmt.callsOfAll (Stmt.ofTree tree), n ≠ .ofString function)
  (hr : render limits (plainHost entry read resolve) source (.start g) = (.ok (), c))
  (hfiles : ∀ p ∈ c.found, FileCallsOnly (· ≠ .ofString function) (plainHost entry read resolve) p)
include h hf ht hprinted hcalls hr hfiles

/-- **A whole source in lockstep** with what it is wrapped to. -/
theorem lockstep_tree :
    ∃ s', s'.host =
        ⟨c, (sights limits (plainHost entry read resolve) source (.start g)).reverse⟩ ∧
      Ends Same function [] (assigned limits (plainHost entry read resolve) tree (.start g)) s'
        (Sight.entry limits (host function entry read resolve) (Stmt.ofTree tree'))
        (Traced.ofState (entryState (.start (engineState function entry tree g))) []) := by
  obtain ⟨tree₁, s', ht₁, hs, hc⟩ := Sight.render_eq_ok.1 (Sight.render_of_render hr)
  rw [ht] at ht₁
  cases ht₁
  have hb : Bound c.found s'.host := by
    rw [hc]
    exact fun p hp => hp
  have hsame : Same g (engineState function entry tree g) := engineState_same h tree g
  have hstart : Agrees Same function [] _ _ := agrees_start hsame
  have hnone : ∀ n ∈ ([] : List Node), boundName? n = none := nofun
  have hends := lockstep h hfiles (fun n hn name => declares_of_parse ht hn) hnone hcalls hstart hs hb
  rw [List.nil_append, ← ofTree_wrapped hf ht hprinted] at hends
  exact ⟨s', hc, hends⟩

/-- If no declaration is misread, the same happens, and it is collected. -/
theorem transparent_of_read
    (hread : ∀ x ∈ assigned limits (plainHost entry read resolve) tree (.start g),
      misread x.1 = false) :
    Transparent limits function entry read resolve source tree g c := by
  obtain ⟨⟨k, hwrapped⟩, -, -⟩ := wrapped_source hf ht
  obtain ⟨s', hc, hends⟩ := lockstep_tree h hf ht hprinted hcalls hr hfiles
  cases hends with
  | @same hx t' ht' h' =>
    have hrender := Sight.render_eq_ok.2 ⟨tree', t', hprinted, ht', rfl⟩
    have hhost := h'.host
    have hfound : t'.host.inner.imports.found = c.found := by rw [hhost.found, hc]
    have hexported : t'.host.inner.exported.reverse =
        (assigned limits (plainHost entry read resolve) tree (.start g)).map exportOf := by
      rw [hhost.exported, exportedBehind, List.append_nil, List.reverse_reverse]
    refine ⟨⟨t'.host.inner.extraction, ?_, hexported, congrArg List.reverse hfound⟩, ?_⟩
    · exact congrArg Prod.fst
        ((extract_eq_ok ht hwrapped).2 ⟨_, Sight.render_of_seen hrender, rfl, rfl⟩)
    · rw [sights, hrender, hhost.history, hc, List.reverse_reverse]
  | other hx _ =>
    obtain ⟨x, hx, hm⟩ := hx
    rw [hread x hx] at hm
    cases hm

/-- If one is misread, something else is exported, or the extraction fails. -/
theorem not_transparent {x : Node × Value}
    (hx : x ∈ assigned limits (plainHost entry read resolve) tree (.start g))
    (hm : misread x.1 = true) :
    ¬ Transparent limits function entry read resolve source tree g c := by
  obtain ⟨⟨k, hwrapped⟩, -, -⟩ := wrapped_source hf ht
  obtain ⟨s', hc, hends⟩ := lockstep_tree h hf ht hprinted hcalls hr hfiles
  cases hends with
  | same hread _ _ =>
    rw [hread x hx] at hm
    cases hm
  | other _ hrun =>
    rintro ⟨⟨y, hy, hexported, -⟩, -⟩
    obtain ⟨c', hc', rfl, -⟩ := (extract_eq_ok ht hwrapped).1 (Prod.ext hy rfl)
    obtain ⟨tree₁, t', ht₁, ht', hhost⟩ := Sight.render_eq_ok.1 (Sight.render_of_render hc')
    rw [hprinted] at ht₁
    cases ht₁
    have hdiverges := hrun t' ht'
    have hreversed : c'.exported = exportedBehind
        (assigned limits (plainHost entry read resolve) tree (.start g)) [] := by
      rw [exportedBehind, List.append_nil, ← hexported]
      exact (List.reverse_reverse _).symm
    rw [hhost] at hdiverges
    exact hdiverges.ne hreversed

/-- **Which extractions are transparent:** for a source that renders, whose wrapped text is a source
and which does not call the export function, those in which no declaration that is evaluated is
misread. -/
theorem transparent_iff :
    Transparent limits function entry read resolve source tree g c ↔
      ∀ x ∈ assigned limits (plainHost entry read resolve) tree (.start g),
        misread x.1 = false := by
  constructor
  · intro htransparent x hx
    cases hm : misread x.1 with
    | false => rfl
    | true => exact absurd htransparent (not_transparent h hf ht hprinted hcalls hr hfiles hx hm)
  · exact transparent_of_read h hf ht hprinted hcalls hr hfiles

end

/-! ### Extractions from fixed files -/

/-- A host that looks imports up among files and keeps all records. -/
def filesHost (files : Files) : Host (Import.Tracked (List Log.Record)) :=
  plainHost ⟨"./entry.scss"⟩ files.read (Import.resolve files [])

/-- A source that renders with some files and does not call the export function, and whose wrapped
text is a source. -/
structure Admitted (files : Files) (source : String) (tree tree' : Node)
    (c : Import.Tracked (List Log.Record)) : Prop where
  parsed : parse source = .ok tree
  printed : parse (wrapDeclarations "export_var" tree).tree.print = .ok tree'
  calls : ∀ n ∈ Stmt.callsOfAll (Stmt.ofTree tree), n ≠ .ofString "export_var"
  rendered : render .standard (filesHost files) source (.start []) = (.ok (), c)
  files : ∀ p ∈ c.found, FileCallsOnly (· ≠ .ofString "export_var") (filesHost files) p

/-- Whether a source is admitted. -/
def admits (files : Files) (source : String) : Bool :=
  match parse source, render .standard (filesHost files) source (.start []) with
  | .ok tree, (.ok (), c) =>
      (parse (wrapDeclarations "export_var" tree).tree.print).isOk &&
        decide (∀ n ∈ Stmt.callsOfAll (Stmt.ofTree tree), n ≠ .ofString "export_var") &&
        decide (∀ p ∈ c.found, FileCallsOnly (· ≠ .ofString "export_var") (filesHost files) p)
  | _, _ => false

theorem exists_admitted {files : Files} {source : String} (h : admits files source = true) :
    ∃ tree tree' c, Admitted files source tree tree' c := by
  unfold admits at h
  split at h
  · next tree c ht hr =>
    rw [Bool.and_eq_true, Bool.and_eq_true, decide_eq_true_iff, decide_eq_true_iff] at h
    obtain ⟨⟨hprinted, hcalls⟩, hfiles⟩ := h
    cases hp : parse (wrapDeclarations "export_var" tree).tree.print with
    | error e =>
      rw [hp] at hprinted
      cases hprinted
    | ok tree' => exact ⟨tree, tree', c, ht, hp, hcalls, hr, hfiles⟩
  · cases h

/-- Which declarations of a source are misread, of those that are evaluated. -/
def misreads (files : Files) (source : String) : List Bool :=
  match parse source with
  | .ok tree => (assigned .standard (filesHost files) tree (.start [])).map fun x => misread x.1
  | .error _ => []

/-- The extraction of a source from files is transparent. -/
abbrev FilesTransparent (files : Files) (source : String) (tree : Node)
    (c : Import.Tracked (List Log.Record)) : Prop :=
  Transparent .standard "export_var" ⟨"./entry.scss"⟩ files.read (Import.resolve files []) source
    tree [] c

/-- A file that is imported. -/
def pairFile : Files := .ofList [("a.scss", "$a: one two;".toUTF8)]

/-- A list with a comment, a default that is skipped, and an empty list. -/
def readWell : String := "@import \"a\";\n$x: $a, three /* c */;\n$x: four !default;\n$y: ();"

theorem transparent_iff_sample : ∃ tree tree' c, Admitted pairFile readWell tree tree' c ∧
    (FilesTransparent pairFile readWell tree c ↔
      ∀ x ∈ assigned .standard (filesHost pairFile) tree (.start []), misread x.1 = false) ∧
    FilesTransparent pairFile readWell tree c := by
  obtain ⟨tree, tree', c, h⟩ := exists_admitted (by decide +kernel : admits pairFile readWell = true)
  have hf : isName "export_var" = true := by decide +kernel
  have hiff := transparent_iff (Import.blind_files pairFile []) hf h.parsed h.printed h.calls
    h.rendered h.files
  refine ⟨tree, tree', c, h, hiff, hiff.2 fun x hx => ?_⟩
  have hread : misreads pairFile readWell = [false, false] := by decide +kernel
  have hmem : misread x.1 ∈ misreads pairFile readWell := by
    unfold misreads
    rw [h.parsed]
    exact List.mem_map_of_mem hx
  rw [hread] at hmem
  simpa using hmem

/-- The extraction of a source whose only declaration is misread is not transparent. -/
theorem not_transparent_of_misreads {files : Files} {source : String}
    (hadmits : admits files source = true) (hm : misreads files source = [true]) :
    ∃ tree tree' c, Admitted files source tree tree' c ∧ ¬ FilesTransparent files source tree c := by
  obtain ⟨tree, tree', c, h⟩ := exists_admitted hadmits
  have hf : isName "export_var" = true := by decide +kernel
  have hmem : true ∈ misreads files source := by
    rw [hm]
    exact List.mem_singleton_self _
  unfold misreads at hmem
  rw [h.parsed] at hmem
  obtain ⟨x, hx, hxm⟩ := List.mem_map.1 hmem
  exact ⟨tree, tree', c, h, not_transparent (Import.blind_files files []) hf h.parsed h.printed
    h.calls h.rendered h.files hx hxm⟩

/-- **Misread declarations:** a comma behind a single element, and nothing but a comment. -/
theorem transparent_counterexample :
    (∃ tree tree' c, Admitted (.ofList []) "$x: one,;" tree tree' c ∧
      ¬ FilesTransparent (.ofList []) "$x: one,;" tree c) ∧
    ∃ tree tree' c, Admitted (.ofList []) "$x: /* c */;" tree tree' c ∧
      ¬ FilesTransparent (.ofList []) "$x: /* c */;" tree c := by
  constructor
  · exact not_transparent_of_misreads (by decide +kernel) (by decide +kernel)
  · exact not_transparent_of_misreads (by decide +kernel) (by decide +kernel)

end Extraction
end Stylesheet
