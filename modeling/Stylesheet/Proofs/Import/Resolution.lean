import Mathlib.Data.List.Basic
import Stylesheet.Import.Lookup
import Stylesheet.Proofs.Import.Request
import Stylesheet.Proofs.Path.Written

/-!
# Which file a request means

A request is looked up below the importing directory and, if it says nothing of where it starts,
below the load paths. Each of these roots has one, two or six forms by its last component, and the
first form of all roots that is a file is the answer.

* `lookupForms`: the forms of a root by its components.
* `candidates_eq`: what is tried, root by root.
* `resolution`: the answer, and what it depends on.
-/

namespace Stylesheet
namespace Import

open Stylesheet.Path (Component Canonical ofComponents)

/-! ### Extensions -/

variable {p : Path} {n e : List Char}

/-- The extension of a file is what stands behind the last point of its name. -/
theorem extension?_eq_some_iff (hp : p.fileName? = some (String.ofList n)) (he : '.' ∉ e) :
    p.extension? = some (String.ofList e) ↔ ∃ stem, stem ≠ [] ∧ n = stem ++ '.' :: e := by
  unfold Path.extension?
  rw [hp]
  dsimp only [bind, Option.bind]
  rw [String.toList_ofList]
  constructor
  · intro h
    have hcut := List.takeWhile_append_dropWhile (p := (· ≠ '.')) (l := n.reverse)
    have hpoint := List.head?_dropWhile_not (· ≠ '.') n.reverse
    split at h
    · cases h
    · cases h
    · next d hnil hone =>
      obtain ⟨x, ds, hd⟩ : ∃ x ds, n.reverse.dropWhile (· ≠ '.') = x :: ds :=
        List.exists_cons_of_ne_nil hnil
      rw [hd] at hcut hpoint hone
      have hx : x = '.' := by simpa using hpoint
      have hte : (n.reverse.takeWhile (· ≠ '.')).reverse = e :=
        String.ofList_injective (Option.some.inj h)
      refine ⟨ds.reverse, fun hds => ?_, ?_⟩
      · rw [List.reverse_eq_nil_iff] at hds
        exact hone x (by rw [hds])
      · rw [← List.reverse_reverse n, ← hcut, ← hte, hx]
        simp
  · rintro ⟨stem, hstem, rfl⟩
    have hno : ∀ c ∈ e.reverse, decide (c ≠ '.') = true := by
      intro c hc
      rw [decide_eq_true_eq]
      rintro rfl
      exact he (List.mem_reverse.1 hc)
    obtain ⟨c, cs, hcs⟩ := List.exists_cons_of_ne_nil (mt List.reverse_eq_nil_iff.1 hstem)
    have hrev : (stem ++ '.' :: e).reverse = e.reverse ++ '.' :: c :: cs := by
      rw [List.reverse_append, List.reverse_cons, hcs, List.append_assoc]
      rfl
    rw [hrev, List.dropWhile_append_of_pos hno, List.takeWhile_append_of_pos hno]
    simp

/-- Whether a name ends with an extension of stylesheets behind something else. -/
def hasExtension (name : List Char) : Bool :=
  ["scss", "css", "sass"].any fun e =>
    ('.' :: e.toList).isSuffixOf name && decide (e.toList.length + 1 < name.length)

theorem isSuffixOf_point_iff :
    (('.' :: e).isSuffixOf n && decide (e.length + 1 < n.length)) = true ↔
      ∃ stem, stem ≠ [] ∧ n = stem ++ '.' :: e := by
  rw [Bool.and_eq_true, List.isSuffixOf_iff_suffix, decide_eq_true_eq]
  constructor
  · rintro ⟨⟨stem, rfl⟩, hlength⟩
    refine ⟨stem, ?_, rfl⟩
    rintro rfl
    exact absurd hlength (Nat.lt_irrefl _)
  · rintro ⟨stem, hstem, rfl⟩
    refine ⟨⟨stem, rfl⟩, ?_⟩
    rw [List.length_append, List.length_cons]
    exact Nat.lt_add_of_pos_left (List.length_pos_of_ne_nil hstem)

theorem any_extension? (hp : p.fileName? = some (String.ofList n)) :
    p.extension?.any (fun e => extensions.contains e || e == "sass") = hasExtension n := by
  have hknown : ∀ e : String, (extensions.contains e || e == "sass") = true ↔
      e ∈ ["scss", "css", "sass"] := by
    intro e
    simp [extensions, or_assoc]
  have hpoint : ∀ e ∈ ["scss", "css", "sass"], '.' ∉ e.toList := by decide
  rw [Bool.eq_iff_iff, Option.any_eq_true, hasExtension, List.any_eq_true]
  simp only [isSuffixOf_point_iff, hknown]
  constructor
  · rintro ⟨e, hext, he⟩
    rw [← String.ofList_toList (s := e)] at hext
    exact ⟨e, he, (extension?_eq_some_iff hp (hpoint e he)).1 hext⟩
  · rintro ⟨e, he, hstem⟩
    refine ⟨e, ?_, he⟩
    rw [← String.ofList_toList (s := e)]
    exact (extension?_eq_some_iff hp (hpoint e he)).2 hstem

/-! ### Forms -/

/-- **The forms of a path** by its components: itself if it ends with no name; the partial and the
plain file if the name has an extension; else the partial and the plain file for every extension,
and the index files of the directory. -/
def lookupForms (cs : List Component) : List (List Component) :=
  match cs.getLast? with
  | some (.name n) =>
      let name := String.ofList n
      let beside (file : String) := cs.dropLast ++ [Component.name file.toList]
      let below (file : String) := cs ++ [Component.name file.toList]
      if hasExtension n then [beside ("_" ++ name), cs]
      else
        [beside ("_" ++ name ++ ".scss"), beside (name ++ ".scss"), beside ("_" ++ name ++ ".css"),
          beside (name ++ ".css"), below "_index.scss", below "index.scss"]
  | _ => [cs]

variable {cs : List Component}

theorem steady_of_mem {c : Char} (hslash : '/' ∉ n) (hc : c ∈ n) (hdot : c ≠ '.') :
    (Component.name n).Steady := by
  refine ⟨List.ne_nil_of_mem hc, ?_, ?_, hslash⟩
  all_goals
    rintro rfl
    simp [hdot] at hc

/-- A partial file beside another. -/
theorem steady_partial (hn : '/' ∉ n) (extension : String) (he : '/' ∉ extension.toList) :
    (Component.name ("_" ++ String.ofList n ++ extension).toList).Steady := by
  refine steady_of_mem (c := '_') ?_ ?_ (by decide)
  · simp [String.toList_append, hn, he]
  · simp [String.toList_append]

/-- A file with an extension of stylesheets beside another. -/
theorem steady_plain (hn : '/' ∉ n) (extension : String) (he : '/' ∉ extension.toList)
    (hs : 's' ∈ extension.toList) :
    (Component.name (String.ofList n ++ extension).toList).Steady := by
  refine steady_of_mem (c := 's') ?_ ?_ (by decide)
  · simp [String.toList_append, hn, he]
  · simp [String.toList_append, hs]

/-- The names of the index files of a directory. -/
theorem steady_index : (Component.name "_index.scss".toList).Steady ∧
    (Component.name "index.scss".toList).Steady := by decide

section Named

variable {ds : List Component} {file : String} (h : Canonical (ds ++ [.name n]))
  (hfile : (Component.name file.toList).Steady)
include h hfile

theorem withFileName_name :
    (ofComponents (ds ++ [.name n])).withFileName file =
      ofComponents (ds ++ [.name file.toList]) := by
  rw [← Path.withFileName_ofComponents h hfile, String.ofList_toList]

theorem join_name :
    (ofComponents (ds ++ [.name n])).join file =
      ofComponents (ds ++ [.name n] ++ [.name file.toList]) := by
  rw [← Path.join_ofComponents h hfile, Component.text, String.ofList_toList]

end Named

/-- **The forms of a path that ends with a name.** -/
theorem forms_name {ds : List Component} (h : Canonical (ds ++ [.name n])) :
    forms (ofComponents (ds ++ [.name n])) =
      (lookupForms (ds ++ [.name n])).map ofComponents := by
  have hn : '/' ∉ n := h.of_name.2.2.2.2
  have hname := Path.fileName?_ofComponents h
  have hpoint (file e : String) : file ++ "." ++ e = file ++ ("." ++ e) := String.append_assoc ..
  have hends : "." ++ "scss" = ".scss" ∧ "." ++ "css" = ".css" := by decide
  unfold forms lookupForms
  rw [hname, List.getLast?_concat]
  dsimp only
  rw [any_extension? hname, List.dropLast_concat]
  split
  · have hpartial := withFileName_name h (steady_partial hn "" (by decide))
    rw [String.append_empty] at hpartial
    rw [hpartial]
    rfl
  · have hscss := withFileName_name h (steady_partial hn ".scss" (by decide))
    have hcss := withFileName_name h (steady_partial hn ".css" (by decide))
    have hplainScss := withFileName_name h (steady_plain hn ".scss" (by decide) (by decide))
    have hplainCss := withFileName_name h (steady_plain hn ".css" (by decide) (by decide))
    have hindex := join_name h steady_index.1
    have hplainIndex := join_name h steady_index.2
    simp only [extensions, List.flatMap_cons, List.flatMap_nil, hpoint, hends.1, hends.2, hscss,
      hcss, hplainScss, hplainCss, hindex, hplainIndex]
    rfl

theorem forms_ofComponents (h : Canonical cs) :
    forms (ofComponents cs) = (lookupForms cs).map ofComponents := by
  have hno (hlast : ∀ n, cs.getLast? ≠ some (.name n)) :
      forms (ofComponents cs) = (lookupForms cs).map ofComponents := by
    have hname : (ofComponents cs).fileName? = none := by
      unfold Path.fileName?
      rw [Path.components_ofComponents h]
      split
      · next n heq => exact absurd heq (hlast n)
      · rfl
    have hforms : lookupForms cs = [cs] := by
      unfold lookupForms
      split
      · next n heq => exact absurd heq (hlast n)
      · rfl
    rw [forms, hname, hforms]
    rfl
  rcases List.eq_nil_or_concat cs with rfl | ⟨ds, d, rfl⟩
  · exact hno fun n heq => by cases heq
  · rw [List.concat_eq_append] at h hno ⊢
    cases d with
    | name n => exact forms_name h
    | root | here | up => exact hno fun n heq => by simp at heq

theorem canonical_of_mem_lookupForms (h : Canonical cs) {ds : List Component}
    (hds : ds ∈ lookupForms cs) : Canonical ds := by
  unfold lookupForms at hds
  split at hds
  · next n hlast =>
    obtain ⟨front, rfl⟩ := List.getLast?_eq_some_iff.1 hlast
    have hn : '/' ∉ n := h.of_name.2.2.2.2
    have hbeside {file : String} (hfile : (Component.name file.toList).Steady) :
        Canonical ((front ++ [Component.name n]).dropLast ++ [Component.name file.toList]) := by
      rw [List.dropLast_concat]
      exact h.of_name.1.concat hfile
    dsimp only at hds
    split at hds
    · simp only [List.mem_cons, List.not_mem_nil, or_false] at hds
      rcases hds with rfl | rfl
      · have hpartial := steady_partial hn "" (by decide)
        rw [String.append_empty] at hpartial
        exact hbeside hpartial
      · exact h
    · simp only [List.mem_cons, List.not_mem_nil, or_false] at hds
      rcases hds with rfl | rfl | rfl | rfl | rfl | rfl
      · exact hbeside (steady_partial hn ".scss" (by decide))
      · exact hbeside (steady_plain hn ".scss" (by decide) (by decide))
      · exact hbeside (steady_partial hn ".css" (by decide))
      · exact hbeside (steady_plain hn ".css" (by decide) (by decide))
      · exact h.concat steady_index.1
      · exact h.concat steady_index.2
  · rwa [List.mem_singleton.1 hds]

/-! ### Candidates -/

/-- The directories below which a request is looked up. -/
def places (loadPaths : List Path) (dir : Path) (request : String) : List Path :=
  dir :: if isRelative request || (Path.mk request).isAbsolute then [] else loadPaths

/-- **The components of a request below a directory:** what stands in front of the directory, what
its segments say, and what those of the request say; blank segments and single dots say nothing.
An absolute request stands by itself, and so does one below no directory. -/
def rootComponents (request : String) (dir : Path) : List Component :=
  if (Path.mk request).isAbsolute = true ∨ dir.text = "" then
    Path.front request.toList ++ Path.steps request.toList
  else
    Path.front dir.text.toList ++ Path.steps dir.text.toList ++ Path.steps request.toList

theorem components_join_request (request : String) (dir : Path) :
    (dir.join request).components = rootComponents request dir := by
  rw [Path.components_join, Path.components_eq ⟨request⟩, Path.components_eq dir]
  unfold rootComponents
  split
  · rfl
  · next hno =>
    have hrelative := Bool.eq_false_iff.2 (not_or.1 hno).1
    rw [← Path.components_eq ⟨request⟩, Path.filter_components hrelative]

/-- **What is tried for a request,** root by root. -/
theorem candidates_eq (loadPaths : List Path) (dir : Path) (request : String) :
    candidates loadPaths dir request =
      ((places loadPaths dir request).flatMap fun root =>
        lookupForms (rootComponents request root)).map ofComponents := by
  have hroots : roots loadPaths dir request =
      (places loadPaths dir request).map (·.join request) := by
    unfold roots places
    split <;> rfl
  unfold candidates
  rw [hroots, List.flatMap_map, List.map_flatMap]
  refine List.flatMap_congr fun root _ => ?_
  rw [Path.normalized_eq, forms_ofComponents (Path.components_canonical _),
    components_join_request]

example : (candidates [⟨"lib"⟩] ⟨"a/./b"⟩ "c/../x.scss").map (·.text) =
    ["a/b/c/../_x.scss", "a/b/c/../x.scss", "lib/c/../_x.scss", "lib/c/../x.scss"] := by
  decide +kernel

theorem canonical_of_mem_candidates {loadPaths : List Path} {dir : Path} {request : String}
    (hp : p ∈ candidates loadPaths dir request) : ∃ cs, Canonical cs ∧ p = ofComponents cs := by
  rw [candidates_eq] at hp
  obtain ⟨ds, hds, rfl⟩ := List.mem_map.1 hp
  obtain ⟨root, -, hroot⟩ := List.mem_flatMap.1 hds
  rw [← components_join_request] at hroot
  exact ⟨ds, canonical_of_mem_lookupForms (Path.components_canonical _) hroot, rfl⟩

/-- More load paths are tried after the others. -/
theorem candidates_append (loadPaths more : List Path) (dir : Path) (request : String) :
    candidates loadPaths dir request <+: candidates (loadPaths ++ more) dir request := by
  obtain ⟨others, hplaces⟩ :
      places loadPaths dir request <+: places (loadPaths ++ more) dir request := by
    unfold places
    rw [List.cons_prefix_cons]
    refine ⟨rfl, ?_⟩
    split
    · exact List.prefix_rfl
    · exact List.prefix_append _ _
  rw [candidates_eq, candidates_eq, ← hplaces, List.flatMap_append, List.map_append]
  exact List.prefix_append _ _

/-- A request that says where it starts is looked up at one place. -/
theorem candidates_anchored {request : String}
    (h : isRelative request = true ∨ (Path.mk request).isAbsolute = true)
    (loadPaths more : List Path) (dir : Path) :
    candidates loadPaths dir request = candidates more dir request := by
  have hplaces (paths : List Path) : places paths dir request = [dir] := by
    unfold places
    rw [if_pos (by simpa using h)]
  rw [candidates_eq, candidates_eq, hplaces, hplaces]

/-- An absolute request is looked up by itself. -/
theorem candidates_absolute {request : String} (h : (Path.mk request).isAbsolute = true)
    (loadPaths : List Path) (dir dir' : Path) :
    candidates loadPaths dir request = candidates loadPaths dir' request := by
  have hplaces (dir : Path) : places loadPaths dir request = [dir] := by
    unfold places
    rw [if_pos (by rw [h, Bool.or_true])]
  have hroot (dir : Path) : rootComponents request dir =
      Path.front request.toList ++ Path.steps request.toList := if_pos (.inl h)
  rw [candidates_eq, candidates_eq, hplaces, hplaces, List.flatMap_singleton,
    List.flatMap_singleton, hroot, hroot]

/-! ### Resolution -/

variable {σ : Type} [Log.Sink σ] {isFile : Path → Bool}

theorem firstFile_eq (paths : List Path) (s : σ) :
    (firstFile isFile paths s).1 = paths.find? isFile := by
  induction paths generalizing s with
  | nil => rfl
  | cons p paths ih =>
    unfold firstFile
    cases hp : isFile p with
    | true =>
      rw [List.find?_cons_of_pos hp]
      simp only [if_true]
      rfl
    | false =>
      rw [List.find?_cons_of_neg (by rw [hp]; exact Bool.false_ne_true)]
      simp only [Bool.false_eq_true, if_false]
      exact ih _

theorem isRelative_iff {request : String} : isRelative request = true ↔ Relative request := by
  rw [isRelative, Bool.or_eq_true, List.isPrefixOf_iff_prefix, List.isPrefixOf_iff_prefix]
  constructor
  · rintro (⟨rest, h⟩ | ⟨rest, h⟩)
    · rw [eq_append_of_toList "./" h]
      exact .here _
    · rw [eq_append_of_toList "../" h]
      exact .up _
  · rintro (⟨rest⟩ | ⟨rest⟩)
    all_goals rw [String.toList_append]
    · exact .inl ⟨_, rfl⟩
    · exact .inr ⟨_, rfl⟩

/-- **A request is answered** with the first candidate that is a file. -/
theorem resolveWhere_eq (loadPaths : List Path) (dir : Path) (request : String) (s : σ) :
    (resolveWhere isFile loadPaths dir request s).1 =
      match (candidates loadPaths dir request).find? isFile with
      | some p => .ok p
      | none => .error (notFound dir request (candidates loadPaths dir request).length) := by
  rw [← firstFile_eq _ s]
  unfold resolveWhere
  dsimp only [bind, StateT.bind]
  rcases firstFile isFile (candidates loadPaths dir request) s with ⟨found, t⟩
  cases found <;> rfl

section Resolved

variable {loadPaths more : List Path} {dir dir' : Path} {request : String} {s : σ}

/-- The answer is the first candidate that is a file. -/
theorem resolveWhere_ok_iff :
    (resolveWhere isFile loadPaths dir request s).1 = .ok p ↔
      (candidates loadPaths dir request).find? isFile = some p := by
  rw [resolveWhere_eq]
  cases (candidates loadPaths dir request).find? isFile <;> simp

/-- There is no answer if no candidate is a file. -/
theorem resolveWhere_error_iff {reason : String} :
    (resolveWhere isFile loadPaths dir request s).1 = .error reason ↔
      (∀ p ∈ candidates loadPaths dir request, isFile p = false) ∧
        reason = notFound dir request (candidates loadPaths dir request).length := by
  rw [resolveWhere_eq]
  cases hfind : (candidates loadPaths dir request).find? isFile with
  | some p =>
    have hfile := List.find?_some hfind
    refine ⟨nofun, fun ⟨hnone, _⟩ => ?_⟩
    rw [hnone p (List.mem_of_find?_eq_some hfind)] at hfile
    cases hfile
  | none =>
    have hnone : ∀ p ∈ candidates loadPaths dir request, isFile p = false := by
      simpa using hfind
    constructor
    · intro h
      cases h
      exact ⟨hnone, rfl⟩
    · rintro ⟨-, rfl⟩
      rfl

/-- More load paths keep every answer. -/
theorem resolveWhere_append (h : (resolveWhere isFile loadPaths dir request s).1 = .ok p) :
    (resolveWhere isFile (loadPaths ++ more) dir request s).1 = .ok p := by
  rw [resolveWhere_ok_iff] at h ⊢
  exact (candidates_append loadPaths more dir request).find?_eq_some h

/-- Load paths do not matter to a request that says where it starts. -/
theorem resolveWhere_anchored (h : Relative request ∨ (Path.mk request).isAbsolute = true) :
    resolveWhere isFile loadPaths dir request s = resolveWhere isFile more dir request s := by
  have hcandidates := candidates_anchored (h.imp_left isRelative_iff.2) loadPaths more dir
  unfold resolveWhere
  rw [hcandidates]

/-- The directory does not matter to an absolute request; it is only named if there is no answer. -/
theorem resolveWhere_absolute (h : (Path.mk request).isAbsolute = true) :
    (resolveWhere isFile loadPaths dir request s).1.toOption =
      (resolveWhere isFile loadPaths dir' request s).1.toOption := by
  rw [resolveWhere_eq, resolveWhere_eq, candidates_absolute h loadPaths dir dir']
  cases (candidates loadPaths dir' request).find? isFile <;> rfl

end Resolved

/-- **Resolution of requests,** whatever tells which paths are files. The answer is the first
candidate that is a file, and there is none exactly if no candidate is one. The candidates are the
forms of the request below the importing directory and then below each load path, with no single
dot behind the first segment. More load paths only add candidates at the end, so they keep every
answer. They do not matter to a relative or an absolute request, nor does the directory to an
absolute one: it is only named where there is no answer. -/
theorem resolution (isFile : Path → Bool) (loadPaths more : List Path) (dir : Path)
    (request : String) (s : σ) :
    (∀ p, (resolveWhere isFile loadPaths dir request s).1 = .ok p ↔
        (candidates loadPaths dir request).find? isFile = some p) ∧
      (∀ reason, (resolveWhere isFile loadPaths dir request s).1 = .error reason ↔
        (∀ p ∈ candidates loadPaths dir request, isFile p = false) ∧
          reason = notFound dir request (candidates loadPaths dir request).length) ∧
      candidates loadPaths dir request =
        ((places loadPaths dir request).flatMap fun root =>
          lookupForms (rootComponents request root)).map ofComponents ∧
      (∀ p ∈ candidates loadPaths dir request, ['.'] ∉ (Path.segments p.text.toList).tail) ∧
      candidates loadPaths dir request <+: candidates (loadPaths ++ more) dir request ∧
      (∀ p, (resolveWhere isFile loadPaths dir request s).1 = .ok p →
        (resolveWhere isFile (loadPaths ++ more) dir request s).1 = .ok p) ∧
      (Relative request ∨ (Path.mk request).isAbsolute = true →
        resolveWhere isFile loadPaths dir request s = resolveWhere isFile more dir request s) ∧
      ((Path.mk request).isAbsolute = true → ∀ dir',
        candidates loadPaths dir request = candidates loadPaths dir' request ∧
          (resolveWhere isFile loadPaths dir request s).1.toOption =
            (resolveWhere isFile loadPaths dir' request s).1.toOption) := by
  have hdots : ∀ p ∈ candidates loadPaths dir request,
      ['.'] ∉ (Path.segments p.text.toList).tail := by
    intro p hp
    obtain ⟨cs, hcs, rfl⟩ := canonical_of_mem_candidates hp
    exact Path.dot_not_mem_tail hcs
  refine ⟨fun p => resolveWhere_ok_iff, fun reason => resolveWhere_error_iff,
    candidates_eq loadPaths dir request, hdots, candidates_append loadPaths more dir request,
    fun p => resolveWhere_append, resolveWhere_anchored, ?_⟩
  exact fun h dir' => ⟨candidates_absolute h loadPaths dir dir', resolveWhere_absolute h⟩

/-- Keeps no record. -/
instance : Log.Sink Unit := ⟨fun _ s => s⟩

/-- A single stylesheet, wherever the directories are. -/
def isMainSheet (p : Path) : Bool := p.text == "/kit/../main.css"

theorem resolution_absolute :
    (Path.mk "/kit/.././main").isAbsolute = true ∧
      (⟨"/kit/../main.css"⟩ : Path) ∈ candidates [⟨"lib"⟩] ⟨"a"⟩ "/kit/.././main" ∧
      ['.'] ∉ (Path.segments "/kit/../main.css".toList).tail ∧
      (resolveWhere isMainSheet [⟨"lib"⟩] ⟨"a"⟩ "/kit/.././main" ()).1 =
        .ok ⟨"/kit/../main.css"⟩ ∧
      (resolveWhere isMainSheet ([⟨"lib"⟩] ++ [⟨"more"⟩]) ⟨"a"⟩ "/kit/.././main" ()).1 =
        .ok ⟨"/kit/../main.css"⟩ ∧
      resolveWhere isMainSheet [⟨"lib"⟩] ⟨"a"⟩ "/kit/.././main" () =
        resolveWhere isMainSheet [⟨"more"⟩] ⟨"a"⟩ "/kit/.././main" () ∧
      (resolveWhere isMainSheet [⟨"lib"⟩] ⟨"a"⟩ "/kit/.././main" ()).1.toOption =
        (resolveWhere isMainSheet [⟨"lib"⟩] ⟨"b"⟩ "/kit/.././main" ()).1.toOption := by
  have habsolute : (Path.mk "/kit/.././main").isAbsolute = true := by decide
  have hfind : (candidates [⟨"lib"⟩] ⟨"a"⟩ "/kit/.././main").find? isMainSheet =
      some ⟨"/kit/../main.css"⟩ := by rfl
  obtain ⟨hok, -, -, hdots, -, hmore, hpaths, hdir⟩ := resolution isMainSheet [⟨"lib"⟩] [⟨"more"⟩]
    ⟨"a"⟩ "/kit/.././main" ()
  have hmem := List.mem_of_find?_eq_some hfind
  have hfound := (hok _).2 hfind
  exact ⟨habsolute, hmem, hdots _ hmem, hfound, hmore _ hfound, hpaths (.inr habsolute),
    (hdir habsolute ⟨"b"⟩).2⟩

end Import
end Stylesheet
