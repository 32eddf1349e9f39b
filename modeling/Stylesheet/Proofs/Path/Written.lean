import Stylesheet.Path

/-!
# Paths written from their components

Components that a path may have can be written, and the path that is written has them. So what is
done to a path that is written in this way, giving it another name or going below it, is done to
the components.

* `Path.Canonical`: the lists of components of paths.
* `Path.ofComponents`, `Path.components_ofComponents`: the path with some components.
* `Path.components_join`: the components of a path below another.
* `Path.join_ofComponents`, `Path.withFileName_ofComponents`: names below and beside a path.
-/

namespace Stylesheet
namespace Path

/-! ### Segments -/

section Segments

variable {s cs ds : List Char} {ss : List (List Char)}

theorem segments_ne_nil (cs : List Char) : segments cs ≠ [] := by
  cases cs with
  | nil => exact nofun
  | cons c cs =>
    unfold segments
    split
    · exact nofun
    · split <;> exact nofun

theorem segments_slash : segments ('/' :: cs) = [] :: segments cs := by
  obtain ⟨s, ss, h⟩ := List.exists_cons_of_ne_nil (segments_ne_nil cs)
  rw [segments, h]
  rfl

theorem segments_cons {c : Char} (hc : c ≠ '/') (h : segments cs = s :: ss) :
    segments (c :: cs) = (c :: s) :: ss := by
  rw [segments, h]
  exact if_neg hc

theorem segments_append : segments (cs ++ '/' :: ds) = segments cs ++ segments ds := by
  induction cs with
  | nil => exact segments_slash
  | cons c cs ih =>
    obtain ⟨s, ss, h⟩ := List.exists_cons_of_ne_nil (segments_ne_nil cs)
    rw [h, List.cons_append] at ih
    by_cases hc : c = '/'
    · rw [hc, List.cons_append, segments_slash, segments_slash, h, ih]
      rfl
    · rw [List.cons_append, segments_cons hc ih, segments_cons hc h]
      rfl

theorem segments_of_not_mem (h : '/' ∉ s) : segments s = [s] := by
  induction s with
  | nil => rfl
  | cons c s ih =>
    rw [List.mem_cons, not_or] at h
    exact segments_cons (Ne.symm h.1) (ih h.2)

theorem not_mem_of_mem_segments (h : s ∈ segments cs) : '/' ∉ s := by
  induction cs generalizing s with
  | nil =>
    rw [segments, List.mem_singleton] at h
    rw [h]
    exact List.not_mem_nil
  | cons c cs ih =>
    obtain ⟨t, ts, ht⟩ := List.exists_cons_of_ne_nil (segments_ne_nil cs)
    by_cases hc : c = '/'
    · rw [hc, segments_slash] at h
      rcases List.mem_cons.1 h with rfl | h
      · exact List.not_mem_nil
      · exact ih h
    · rw [segments_cons hc ht] at h
      rw [ht] at ih
      rcases List.mem_cons.1 h with rfl | h
      · rw [List.mem_cons, not_or]
        exact ⟨Ne.symm hc, ih List.mem_cons_self⟩
      · exact ih (List.mem_cons_of_mem _ h)

theorem unsegments_cons (h : ss ≠ []) : unsegments (s :: ss) = s ++ '/' :: unsegments ss := by
  cases ss with
  | nil => exact absurd rfl h
  | cons t ts => rfl

theorem unsegments_concat (h : ss ≠ []) : unsegments (ss ++ [s]) = unsegments ss ++ '/' :: s := by
  induction ss with
  | nil => exact absurd rfl h
  | cons t ts ih =>
    cases ts with
    | nil => rfl
    | cons u us =>
      rw [List.cons_append, unsegments_cons (by simp), ih (List.cons_ne_nil _ _),
        unsegments_cons (List.cons_ne_nil _ _), List.append_assoc]
      rfl

/-- **Segments without slashes** are read as they are written. -/
theorem segments_unsegments (hne : ss ≠ []) (h : ∀ s ∈ ss, '/' ∉ s) :
    segments (unsegments ss) = ss := by
  induction ss with
  | nil => exact absurd rfl hne
  | cons s ss ih =>
    rw [List.forall_mem_cons] at h
    cases ss with
    | nil => exact segments_of_not_mem h.1
    | cons t ts =>
      have hrest := List.cons_ne_nil t ts
      rw [unsegments_cons hrest, segments_append, segments_of_not_mem h.1, ih hrest h.2]
      rfl

end Segments

/-! ### Components -/

namespace Component

/-- **A component says the same wherever it stands:** it leads up, or is a name that a segment can
have. -/
def Steady : Component → Prop
  | up => True
  | name s => s ≠ [] ∧ s ≠ ['.'] ∧ s ≠ ['.', '.'] ∧ '/' ∉ s
  | root | here => False

instance : DecidablePred Steady
  | up => .isTrue trivial
  | name _ => inferInstanceAs (Decidable (_ ∧ _))
  | root | here => .isFalse id

variable {c : Component}

theorem Steady.component? (h : c.Steady) (first : Bool) :
    Path.component? first c.text = some c := by
  cases c with
  | up => rfl
  | name s =>
    obtain ⟨hne, hdot, hdots, -⟩ := h
    rw [Path.component?, Component.text, if_neg hne, if_neg hdot, if_neg hdots]
  | root | here => exact h.elim

theorem Steady.text_ne_nil (h : c.Steady) : c.text ≠ [] := by
  cases c with
  | up => exact nofun
  | name s => exact h.1
  | root | here => exact h.elim

theorem Steady.text_ne_dot (h : c.Steady) : c.text ≠ ['.'] := by
  cases c with
  | up => decide
  | name s => exact h.2.1
  | root | here => exact h.elim

theorem Steady.slash_not_mem (h : c.Steady) : '/' ∉ c.text := by
  cases c with
  | up => decide
  | name s => exact h.2.2.2
  | root | here => exact h.elim

end Component

theorem steady_of_component? {s : List Char} {c : Component} (hs : '/' ∉ s)
    (h : component? false s = some c) : c.Steady := by
  unfold component? at h
  split at h
  · cases h
  · next hne =>
    split at h
    · cases h
    · next hdot =>
      split at h
      · cases h
        trivial
      · next hdots =>
        cases h
        exact ⟨hne, hdot, hdots, hs⟩

/-- What stands in front of a path: a slash, a single dot, or nothing special. -/
def front (cs : List Char) : List Component :=
  if cs.head? = some '/' then [.root]
  else if (segments cs).head? = some ['.'] then [.here]
  else []

/-- What the segments of a path say wherever they stand: blank ones and single dots nothing. -/
def steps (cs : List Char) : List Component := (segments cs).filterMap (component? false)

theorem component?_true (s : List Char) :
    (component? true s).toList = (if s = ['.'] then [.here] else []) ++
      (component? false s).toList := by
  unfold component?
  by_cases hs : s = ['.']
  · rw [hs]
    rfl
  · simp only [hs, if_false]
    rfl

/-- **The components of a path** are what stands in front and what its segments say. -/
theorem components_eq (p : Path) : p.components = front p.text.toList ++ steps p.text.toList := by
  have hne := segments_ne_nil p.text.toList
  unfold components body front steps
  cases ha : p.isAbsolute with
  | true =>
    have hhead : p.text.toList.head? = some '/' := eq_of_beq ha
    rw [if_pos hhead, if_pos rfl]
    cases hcs : p.text.toList with
    | nil =>
      rw [hcs] at hhead
      cases hhead
    | cons c cs =>
      rw [hcs] at hhead
      cases hhead
      rw [segments_slash]
      rfl
  | false =>
    have hhead : p.text.toList.head? ≠ some '/' := by
      intro h
      rw [isAbsolute, h] at ha
      cases ha
    rw [if_neg hhead, if_neg Bool.false_ne_true]
    obtain ⟨s, ss, hss⟩ := List.exists_cons_of_ne_nil hne
    rw [hss]
    dsimp only
    rw [component?_true, List.head?_cons, List.filterMap_cons]
    by_cases hs : s = ['.']
    · subst hs
      rfl
    · rw [if_neg hs, if_neg (by simpa using hs)]
      cases component? false s <;> rfl

/-! ### Components that a path may have -/

/-- **Components that a path may have:** the slash or the dot in front, if there is one, and
components that say the same wherever they stand. -/
inductive Canonical : List Component → Prop
  | absolute {cs : List Component} : (∀ c ∈ cs, c.Steady) → Canonical (.root :: cs)
  | here {cs : List Component} : (∀ c ∈ cs, c.Steady) → Canonical (.here :: cs)
  | relative {cs : List Component} : (∀ c ∈ cs, c.Steady) → Canonical cs

theorem steady_steps (cs : List Char) : ∀ c ∈ steps cs, c.Steady := by
  intro c hc
  obtain ⟨s, hs, hsc⟩ := List.mem_filterMap.1 hc
  exact steady_of_component? (not_mem_of_mem_segments hs) hsc

theorem components_canonical (p : Path) : Canonical p.components := by
  have hsteady := steady_steps p.text.toList
  rw [components_eq]
  unfold front
  split
  · exact .absolute hsteady
  · split
    · exact .here hsteady
    · exact .relative hsteady

/-- The path that is written from components. -/
def ofComponents (cs : List Component) : Path :=
  match cs with
  | [.root] => ⟨"/"⟩
  | cs => ⟨String.ofList (unsegments (cs.map Component.text))⟩

theorem normalized_eq (p : Path) : p.normalized = ofComponents p.components := rfl

variable {cs : List Component} {c : Component}

theorem toList_ofComponents (h : cs ≠ [.root]) :
    (ofComponents cs).text.toList = unsegments (cs.map Component.text) := by
  unfold ofComponents
  split
  · exact absurd rfl h
  · exact String.toList_ofList

theorem toList_ofComponents_root :
    (ofComponents (.root :: cs)).text.toList = '/' :: unsegments (cs.map Component.text) := by
  cases cs with
  | nil => rfl
  | cons c cs =>
    rw [toList_ofComponents (by simp), List.map_cons, unsegments_cons (by simp)]
    rfl

theorem ne_root_of_steady (h : ∀ c ∈ cs, c.Steady) : cs ≠ [.root] := by
  rintro rfl
  exact h _ List.mem_cons_self

theorem filterMap_texts (h : ∀ c ∈ cs, c.Steady) :
    (cs.map Component.text).filterMap (component? false) = cs := by
  induction cs with
  | nil => rfl
  | cons c cs ih =>
    rw [List.forall_mem_cons] at h
    rw [List.map_cons, List.filterMap_cons_some (h.1.component? false), ih h.2]

theorem slash_not_mem_texts (h : ∀ c ∈ cs, c.Steady) : ∀ s ∈ cs.map Component.text, '/' ∉ s :=
  List.forall_mem_map.2 fun c hc => (h c hc).slash_not_mem

theorem steps_texts (h : ∀ c ∈ cs, c.Steady) : steps (unsegments (cs.map Component.text)) = cs := by
  by_cases hcs : cs = []
  · rw [hcs]
    rfl
  · rw [steps, segments_unsegments (by simpa using hcs) (slash_not_mem_texts h), filterMap_texts h]

theorem dot_not_mem_texts (h : ∀ c ∈ cs, c.Steady) : ['.'] ∉ cs.map Component.text := by
  intro hdot
  obtain ⟨c, hc, hcdot⟩ := List.mem_map.1 hdot
  exact (h c hc).text_ne_dot hcdot

theorem head?_unsegments {s : List Char} {ss : List (List Char)} (hs : s ≠ []) :
    (unsegments (s :: ss)).head? = s.head? := by
  cases ss with
  | nil => rfl
  | cons t ts =>
    obtain ⟨c, cs, rfl⟩ := List.exists_cons_of_ne_nil hs
    rw [unsegments_cons (List.cons_ne_nil t ts)]
    rfl

theorem slash_not_mem_here (h : ∀ c ∈ cs, c.Steady) :
    ∀ s ∈ ['.'] :: cs.map Component.text, '/' ∉ s :=
  List.forall_mem_cons.2 ⟨by decide, slash_not_mem_texts h⟩

/-- What is written from segments has a slash in front in no case, and a dot if the first is one. -/
theorem front_unsegments {s : List Char} {ss : List (List Char)} (hs : s ≠ [])
    (h : ∀ t ∈ s :: ss, '/' ∉ t) :
    front (unsegments (s :: ss)) = if s = ['.'] then [.here] else [] := by
  unfold front
  rw [head?_unsegments hs, segments_unsegments (List.cons_ne_nil s ss) h, List.head?_cons]
  have hslash : s.head? ≠ some '/' := by
    intro hhead
    exact h s List.mem_cons_self (List.mem_of_mem_head? hhead)
  rw [if_neg hslash]
  simp only [Option.some.injEq]

/-- **What is written has the components** it is written from. -/
theorem components_ofComponents (h : Canonical cs) : (ofComponents cs).components = cs := by
  rw [components_eq]
  cases h with
  | @absolute cs hs =>
    rw [toList_ofComponents_root, steps, segments_slash, List.filterMap_cons_none rfl]
    change _ :: steps _ = _
    rw [steps_texts hs]
  | @here cs hs =>
    have hall := slash_not_mem_here hs
    have hdot : ['.'] ≠ [] := List.cons_ne_nil _ _
    rw [toList_ofComponents (by simp), List.map_cons, Component.text, front_unsegments hdot hall,
      steps, segments_unsegments (List.cons_ne_nil _ _) hall, List.filterMap_cons_none rfl,
      filterMap_texts hs]
    rfl
  | relative hs =>
    cases cs with
    | nil => rfl
    | cons c cs =>
      have hc := hs c List.mem_cons_self
      rw [toList_ofComponents (ne_root_of_steady hs), steps_texts hs, List.map_cons,
        front_unsegments hc.text_ne_nil (slash_not_mem_texts hs), if_neg hc.text_ne_dot,
        List.nil_append]

/-- **In what is written** no single dot stands behind the first segment. -/
theorem dot_not_mem_tail (h : Canonical cs) :
    ['.'] ∉ (segments (ofComponents cs).text.toList).tail := by
  have hsegments {ds : List Component} (hds : ∀ c ∈ ds, c.Steady) :
      ['.'] ∉ segments (unsegments (ds.map Component.text)) := by
    by_cases hempty : ds = []
    · rw [hempty]
      decide
    · rw [segments_unsegments (by simpa using hempty) (slash_not_mem_texts hds)]
      exact dot_not_mem_texts hds
  cases h with
  | absolute hs =>
    rw [toList_ofComponents_root, segments_slash]
    exact hsegments hs
  | @here cs hs =>
    have hall := slash_not_mem_here hs
    rw [toList_ofComponents (by simp), List.map_cons, Component.text,
      segments_unsegments (List.cons_ne_nil _ _) hall]
    exact dot_not_mem_texts hs
  | relative hs =>
    rw [toList_ofComponents (ne_root_of_steady hs)]
    exact mt List.mem_of_mem_tail (hsegments hs)

/-! ### Going below a path -/

theorem steps_append {cs ds : List Char} : steps (cs ++ '/' :: ds) = steps cs ++ steps ds := by
  rw [steps, segments_append, List.filterMap_append]
  rfl

theorem front_append {cs ds : List Char} (h : cs ≠ []) : front (cs ++ '/' :: ds) = front cs := by
  obtain ⟨s, ss, hss⟩ := List.exists_cons_of_ne_nil (segments_ne_nil cs)
  obtain ⟨c, cs, rfl⟩ := List.exists_cons_of_ne_nil h
  unfold front
  rw [segments_append, hss]
  rfl

/-- In front of a path that ends with a slash stands the same whatever follows. -/
theorem front_slash {cs ds : List Char} : front (cs ++ '/' :: ds) = front (cs ++ ['/']) := by
  by_cases h : cs = []
  · rw [h]
    rfl
  · rw [front_append h, front_append h]

/-- The components of a relative path without the dot in front. -/
theorem filter_components {p : Path} (h : p.isAbsolute = false) :
    p.components.filter (· ≠ .here) = steps p.text.toList := by
  have hhead : p.text.toList.head? ≠ some '/' := by
    intro hhead
    rw [isAbsolute, hhead] at h
    cases h
  have hsteps : (steps p.text.toList).filter (· ≠ .here) = steps p.text.toList := by
    rw [List.filter_eq_self]
    rintro c hc
    have := steady_steps _ c hc
    cases c <;> first | rfl | exact this.elim
  rw [components_eq, List.filter_append, hsteps, front, if_neg hhead]
  split <;> rfl

theorem join_absolute (p : Path) {text : String} (h : (Path.mk text).isAbsolute = true) :
    p.join text = ⟨text⟩ := if_pos h

theorem join_relative (p : Path) {text : String} (h : ¬ (Path.mk text).isAbsolute = true) :
    p.join text = match p.text.toList.getLast? with
      | none => ⟨text⟩
      | some '/' => ⟨p.text ++ text⟩
      | some _ => ⟨p.text ++ "/" ++ text⟩ := if_neg h

/-- **The components of a path below another.** An absolute path stands by itself, and so does one
below the empty path. -/
theorem components_join (p : Path) (text : String) :
    (p.join text).components =
      if (Path.mk text).isAbsolute = true ∨ p.text = "" then (Path.mk text).components
      else p.components ++ (Path.mk text).components.filter (· ≠ .here) := by
  by_cases ha : (Path.mk text).isAbsolute = true
  · rw [if_pos (.inl ha), join_absolute p ha]
  · by_cases hp : p.text = ""
    · rw [if_pos (.inr hp), join_relative p ha, hp]
      rfl
    · have hne : p.text.toList ≠ [] := mt String.toList_eq_nil_iff.1 hp
      rw [if_neg (not_or.2 ⟨ha, hp⟩), filter_components (Bool.eq_false_iff.2 ha), components_eq p,
        join_relative p ha]
      split
      · next hlast => exact absurd (List.getLast?_eq_none_iff.1 hlast) hne
      · -- the slash at the end of the first path is the one between the two
        next hlast =>
        obtain ⟨init, hinit⟩ := List.getLast?_eq_some_iff.1 hlast
        rw [components_eq, String.toList_append, hinit, List.append_assoc, List.singleton_append,
          front_slash, steps_append, steps_append, List.append_assoc, List.append_assoc]
        rfl
      · rw [components_eq, String.toList_append, String.toList_append, List.append_assoc]
        change front (_ ++ '/' :: _) ++ steps (_ ++ '/' :: _) = _
        rw [front_append hne, steps_append, List.append_assoc]
        rfl

/-! ### Names below and beside a path -/

section Names

variable {s : List Char} {ss : List (List Char)}

theorem getLast?_unsegments (hs : s ≠ []) : (unsegments (ss ++ [s])).getLast? = s.getLast? := by
  by_cases hss : ss = []
  · rw [hss]
    rfl
  · obtain ⟨c, cs, rfl⟩ := List.exists_cons_of_ne_nil hs
    rw [unsegments_concat hss, List.getLast?_append, List.getLast?_cons_cons,
      List.getLast?_cons, Option.some_or]

end Names

/-- The last component has a text without slashes, unless it is the root. -/
theorem Canonical.last (h : Canonical (cs ++ [c])) (hroot : c ≠ .root) :
    c.text ≠ [] ∧ '/' ∉ c.text := by
  have hlast : c ∈ cs ++ [c] := List.mem_append_right _ List.mem_cons_self
  have hsteady (hc : c.Steady) : c.text ≠ [] ∧ '/' ∉ c.text :=
    ⟨hc.text_ne_nil, hc.slash_not_mem⟩
  generalize cs ++ [c] = ds at h hlast
  cases h with
  | absolute hs => exact hsteady (hs c ((List.mem_cons.1 hlast).resolve_left hroot))
  | here hs =>
    rcases List.mem_cons.1 hlast with rfl | hmem
    · decide
    · exact hsteady (hs c hmem)
  | relative hs => exact hsteady (hs c hlast)

/-- The root stands in front of everything. -/
theorem Canonical.eq_root (h : Canonical (cs ++ [.root])) : cs = [] := by
  cases cs with
  | nil => rfl
  | cons c cs =>
    have hmem : Component.root ∈ cs ++ [.root] := List.mem_append_right _ List.mem_cons_self
    cases h with
    | absolute hs | here hs => exact (hs _ hmem).elim
    | relative hs => exact (hs _ (List.mem_cons_of_mem _ hmem)).elim

/-- A name at the end is one that a segment can have, behind components that a path may have. -/
theorem Canonical.of_name {n : List Char} (h : Canonical (cs ++ [.name n])) :
    Canonical cs ∧ (Component.name n).Steady := by
  have hmem {ds : List Component} : Component.name n ∈ ds ++ [.name n] :=
    List.mem_append_right _ List.mem_cons_self
  have hfront {ds : List Component} (hs : ∀ c ∈ ds ++ [.name n], c.Steady) : ∀ c ∈ ds, c.Steady :=
    fun c hc => hs c (List.mem_append_left _ hc)
  generalize hds : cs ++ [.name n] = ds at h
  cases h with
  | absolute hs =>
    cases cs with
    | nil => cases hds
    | cons c cs =>
      cases hds
      exact ⟨.absolute (hfront hs), hs _ hmem⟩
  | here hs =>
    cases cs with
    | nil => cases hds
    | cons c cs =>
      cases hds
      exact ⟨.here (hfront hs), hs _ hmem⟩
  | relative hs =>
    cases hds
    exact ⟨.relative (hfront hs), hs _ hmem⟩

/-- Another component may stand at the end if it says the same wherever it stands. -/
theorem Canonical.concat (h : Canonical cs) (hc : c.Steady) : Canonical (cs ++ [c]) := by
  have hsteady {ds : List Component} (hs : ∀ d ∈ ds, d.Steady) : ∀ d ∈ ds ++ [c], d.Steady := by
    rintro d hd
    rcases List.mem_append.1 hd with hd | hd
    · exact hs d hd
    · rwa [List.mem_singleton.1 hd]
  cases h with
  | absolute hs => exact .absolute (hsteady hs)
  | here hs => exact .here (hsteady hs)
  | relative hs => exact .relative (hsteady hs)

theorem ext_toList {p q : Path} (h : p.text.toList = q.text.toList) : p = q :=
  congrArg Path.mk (String.toList_inj.1 h)

theorem concat_ne_root (hc : c ≠ .root) : cs ++ [c] ≠ [.root] := by
  intro hcs
  have hlast := congrArg List.getLast? hcs
  rw [List.getLast?_concat] at hlast
  cases hlast
  exact hc rfl

/-- What is written from components ends with no slash, unless it is the root. -/
theorem getLast?_ofComponents (h : Canonical (cs ++ [c])) (hc : c ≠ .root) :
    ∃ x, x ≠ '/' ∧ (ofComponents (cs ++ [c])).text.toList.getLast? = some x := by
  obtain ⟨hne, hslash⟩ := h.last hc
  refine ⟨c.text.getLast hne, fun hx => hslash (hx ▸ List.getLast_mem hne), ?_⟩
  rw [toList_ofComponents (concat_ne_root hc), List.map_append]
  exact (getLast?_unsegments hne).trans (List.getLast?_eq_some_getLast hne)

/-- **Going below a path** by a component. -/
theorem join_ofComponents (h : Canonical cs) (hc : c.Steady) :
    (ofComponents cs).join (String.ofList c.text) = ofComponents (cs ++ [c]) := by
  have hrelative : ¬ (Path.mk (String.ofList c.text)).isAbsolute = true := by
    intro habs
    have hhead : (String.ofList c.text).toList.head? = some '/' := eq_of_beq habs
    rw [String.toList_ofList] at hhead
    exact hc.slash_not_mem (List.mem_of_mem_head? hhead)
  have hroot : c ≠ .root := by
    rintro rfl
    exact hc
  refine ext_toList ?_
  rw [join_relative _ hrelative, toList_ofComponents (concat_ne_root hroot), List.map_append]
  rcases List.eq_nil_or_concat cs with rfl | ⟨ds, d, rfl⟩
  · exact String.toList_ofList
  · rw [List.concat_eq_append] at h ⊢
    by_cases hd : d = .root
    · subst hd
      rw [h.eq_root]
      change ("/" ++ String.ofList c.text).toList = _
      simp only [String.toList_append, String.toList_ofList]
      rfl
    · obtain ⟨x, hx, hlast⟩ := getLast?_ofComponents h hd
      rw [hlast]
      split
      · next heq => cases heq
      · next heq =>
        cases heq
        exact absurd rfl hx
      · have hne : (ds ++ [d]).map Component.text ≠ [] := by simp
        simp only [String.toList_append, String.toList_ofList]
        rw [toList_ofComponents (concat_ne_root hd), List.append_assoc]
        exact (unsegments_concat hne).symm

/-! ### The directory of a path -/

theorem keep_eq {ss : List (List Char)} (h : ∀ s ∈ ss, component? false s ≠ none) :
    trimEnd.keep ss = ss := by
  unfold trimEnd.keep
  rcases List.eq_nil_or_concat ss with rfl | ⟨ts, t, rfl⟩
  · rfl
  · have ht := h t (by simp)
    rw [List.concat_eq_append, List.reverse_append, List.reverse_singleton, List.singleton_append,
      List.dropWhile_cons_of_neg (by simpa using ht), List.reverse_cons, List.reverse_reverse]

theorem keep_texts (h : ∀ c ∈ cs, c.Steady) :
    trimEnd.keep (cs.map Component.text) = cs.map Component.text := by
  refine keep_eq (List.forall_mem_map.2 fun c hc => ?_)
  rw [(h c hc).component? false]
  exact nofun

/-- Whether the slash stands in front of components. -/
def rooted : List Component → Bool
  | .root :: _ => true
  | _ => false

/-- Components without the slash in front. -/
def unrooted : List Component → List Component
  | .root :: cs => cs
  | cs => cs

theorem rooted_of_steady (h : ∀ c ∈ cs, c.Steady) : rooted cs = false ∧ unrooted cs = cs := by
  unfold rooted unrooted
  split
  · exact (h _ List.mem_cons_self).elim
  · exact ⟨rfl, rfl⟩

theorem isAbsolute_eq (p : Path) : p.isAbsolute = rooted p.components := by
  rw [components_eq]
  unfold isAbsolute front
  by_cases hhead : p.text.toList.head? = some '/'
  · rw [hhead, if_pos rfl]
    rfl
  · rw [if_neg hhead, beq_eq_false_iff_ne.2 hhead]
    split
    · rfl
    · exact (rooted_of_steady (steady_steps _)).1.symm

/-- The segments of a path that is written from components. -/
theorem body_ofComponents (h : Canonical cs) :
    (ofComponents cs).body = segments (unsegments ((unrooted cs).map Component.text)) := by
  unfold body
  rw [isAbsolute_eq, components_ofComponents h]
  cases h with
  | absolute _ =>
    rw [toList_ofComponents_root, segments_slash]
    rfl
  | here _ =>
    rw [toList_ofComponents (by simp)]
    rfl
  | relative hs =>
    obtain ⟨hrooted, hunrooted⟩ := rooted_of_steady hs
    rw [hrooted, hunrooted, if_neg Bool.false_ne_true, toList_ofComponents (ne_root_of_steady hs)]

theorem slash_not_mem_unrooted (h : Canonical cs) :
    ∀ s ∈ (unrooted cs).map Component.text, '/' ∉ s := by
  cases h with
  | absolute hs => exact slash_not_mem_texts hs
  | here hs => exact slash_not_mem_here hs
  | relative hs =>
    rw [(rooted_of_steady hs).2]
    exact slash_not_mem_texts hs

/-- Nothing is trimmed from what is written from components. -/
theorem trimEnd_texts (h : Canonical cs) :
    trimEnd (rooted cs) ((unrooted cs).map Component.text) =
      (unrooted cs).map Component.text := by
  cases h with
  | absolute hs => exact keep_texts hs
  | @here cs hs =>
    unfold rooted unrooted
    rw [List.map_cons, trimEnd, keep_texts hs]
    cases cs <;> rfl
  | relative hs =>
    obtain ⟨hrooted, hunrooted⟩ := rooted_of_steady hs
    rw [hrooted, hunrooted]
    cases cs with
    | nil => rfl
    | cons c cs =>
      rw [List.forall_mem_cons] at hs
      rw [List.map_cons, trimEnd, keep_texts hs.2, hs.1.component? true]
      cases cs <;> rfl

theorem ofSegments_texts (h : Canonical cs) :
    ofSegments (rooted cs) ((unrooted cs).map Component.text) = ofComponents cs := by
  refine ext_toList ?_
  cases h with
  | absolute _ =>
    rw [toList_ofComponents_root]
    exact String.toList_ofList
  | here _ =>
    rw [toList_ofComponents (by simp)]
    exact String.toList_ofList
  | relative hs =>
    obtain ⟨hrooted, hunrooted⟩ := rooted_of_steady hs
    rw [hrooted, hunrooted, toList_ofComponents (ne_root_of_steady hs)]
    exact String.toList_ofList

/-- **The directory** of a path that ends with a name. -/
theorem parent?_ofComponents {n : List Char} (h : Canonical (cs ++ [.name n])) :
    (ofComponents (cs ++ [.name n])).parent? = some (ofComponents cs) := by
  have hcs := h.of_name.1
  have hrooted : rooted (cs ++ [.name n]) = rooted cs := by
    cases cs with
    | nil => rfl
    | cons c cs => cases c <;> rfl
  have hunrooted : unrooted (cs ++ [.name n]) = unrooted cs ++ [.name n] := by
    cases cs with
    | nil => rfl
    | cons c cs => cases c <;> rfl
  have hbody : (ofComponents (cs ++ [.name n])).body =
      (unrooted cs ++ [Component.name n]).map Component.text := by
    rw [body_ofComponents h, ← hunrooted]
    exact segments_unsegments (by simp [hunrooted]) (slash_not_mem_unrooted h)
  have htrim := trimEnd_texts h
  rw [hrooted, hunrooted] at htrim
  unfold parent?
  rw [isAbsolute_eq, components_ofComponents h, hrooted, hbody, htrim]
  split
  · next heq => simp at heq
  · rw [List.map_append, List.map_singleton, List.dropLast_concat, trimEnd_texts hcs,
      ofSegments_texts hcs]

theorem fileName?_ofComponents {n : List Char} (h : Canonical (cs ++ [.name n])) :
    (ofComponents (cs ++ [.name n])).fileName? = some (String.ofList n) := by
  rw [fileName?, components_ofComponents h, List.getLast?_concat]

/-- **Another name** in place of that at the end of a path. -/
theorem withFileName_ofComponents {n m : List Char} (h : Canonical (cs ++ [.name n]))
    (hm : (Component.name m).Steady) :
    (ofComponents (cs ++ [.name n])).withFileName (String.ofList m) =
      ofComponents (cs ++ [.name m]) := by
  have hjoin := join_ofComponents h.of_name.1 hm
  rw [Component.text] at hjoin
  rw [withFileName, fileName?_ofComponents h, parent?_ofComponents h]
  exact hjoin

end Path
end Stylesheet
