import Stylesheet.Proofs.Export.Reread
import Stylesheet.Proofs.Syntax.Shapes
import Stylesheet.Proofs.Syntax.Spans

/-!
# Wrapping changes values and nothing else

What the wrapping makes of a tree, read from a source or built by hand, is said here without the
steps that it takes: the first value of each declaration of a variable gives way to a call, up to
the first declaration whose variable has no name, and all else stays as it is. In the source of a
tree the calls are texts put in where the values start and end.

* `Wrapped`: what becomes of the nodes of a tree.
* `putIn`: a text with others put in at offsets.
* `wrapped_of_wrapAll`: the steps of the wrapping do this and no more.
* `printed_wrapped`: a wrapped source is the source with the calls put in.
* `wrapDeclarations_changes`: all of it, for every tree and every name of the function.
-/

namespace Stylesheet

open Node

namespace Export

/-! ### What the wrapping changes -/

/-- The text is cut into a single name. -/
def ReadsAsName (text : String) : Prop := ∃ l, tokenize text = .ok [l] ∧ l.token = .ident

/-- The node is the first of its kind among the nodes. -/
def FirstOf (k : Kind) (ns : List Node) (n : Node) : Prop :=
  ∃ before behind, ns = before ++ n :: behind ∧ n.kind = k ∧ ∀ m ∈ before, m.kind ≠ k

/-- The declaration binds the variable, the first in the first of its properties. -/
def Binds (n v : Node) : Prop :=
  n.kind = .declaration ∧
    ∃ property, FirstOf .property n.children property ∧ FirstOf .variable property.children v

/-- A declaration whose variable has no name. -/
def Nameless (n : Node) : Prop := ∃ v, Binds n v ∧ v.text? = none

/-- A declaration of the variable of a name, with a value to wrap. -/
structure Wrappable (n : Node) (name : String) : Prop where
  binds : ∃ v, Binds n v ∧ v.text? = some name
  sequence : ∃ cs span, n = .sequence .declaration cs span
  value : ∃ v, FirstOf .value n.children v

/-- **What becomes of nodes**, and how many of them are wrapped. -/
inductive Wrapped (function : String) : List Node → List Node → Nat → Prop
  | nil : Wrapped function [] [] 0
  /-- The first value of a declaration gives way to a call with its copy. -/
  | wrap {before behind ns ns' : List Node} {value : Node} {span : Option Span} {name : String}
      {count : Nat} :
      Wrappable (.sequence .declaration (before ++ value :: behind) span) name →
        value.kind = .value → (∀ m ∈ before, m.kind ≠ .value) → Wrapped function ns ns' count →
          Wrapped function (.sequence .declaration (before ++ value :: behind) span :: ns)
            (.sequence .declaration (before ++ call function name value.bare :: behind) span :: ns')
            (count + 1)
  /-- A node that has nothing to wrap stays as it is. -/
  | keep {n : Node} {ns ns' : List Node} {count : Nat} :
      (∀ name, ¬ Wrappable n name) → ¬ Nameless n → Wrapped function ns ns' count →
        Wrapped function (n :: ns) (n :: ns') count

/-- The node with other children. -/
def withChildren : Node → List Node → Node
  | .sequence k _ s, cs => .sequence k cs s
  | .single k c s, cs => .single k (cs.headD c) s
  | .leaf k t s, _ => .leaf k t s

/-! ### Texts put in -/

/-- The leading characters within so many bytes, and the others. -/
def cutBytes : Nat → List Char → List Char × List Char
  | _, [] => ([], [])
  | n, c :: cs =>
      if c.utf8Size ≤ n then
        let (before, behind) := cutBytes (n - c.utf8Size) cs
        (c :: before, behind)
      else ([], c :: cs)

/-- The characters from an offset on, with texts put in at later offsets, which ascend. -/
def putFrom : Nat → List (Nat × String) → List Char → List Char
  | _, [], cs => cs
  | a, (b, text) :: ms, cs =>
      (cutBytes (b - a) cs).1 ++ (text.toList ++ putFrom b ms (cutBytes (b - a) cs).2)

/-- A text with others put in at ascending offsets. -/
def putIn (ms : List (Nat × String)) (source : String) : String :=
  String.ofList (putFrom 0 ms source.toList)

/-- What stands before the value in a call. -/
def opener (function name : String) : String := function ++ "(\"" ++ name ++ "\","

/-- The texts that a call puts around the value of a declaration, with their offsets. -/
def marksOf (function : String) (n : Node) : List (Nat × String) :=
  match boundName? n, (n.firstChild? .value).bind Node.span with
  | some name, some s => [(s.start, opener function name), (s.stop, ")")]
  | _, _ => []

/-- The texts that the calls put around the values of some nodes. -/
def marks (function : String) (ns : List Node) : List (Nat × String) :=
  ns.flatMap (marksOf function)

/-! ### The steps of the wrapping -/

theorem isName_iff (text : String) : isName text = true ↔ ReadsAsName text := by
  unfold isName ReadsAsName
  split
  · next l hl => simp [hl]
  · next hne =>
    simp only [Bool.false_eq_true, false_iff, not_exists, not_and]
    exact fun l hl _ => hne l hl

theorem firstOf_iff {k : Kind} {ns : List Node} {n : Node} :
    FirstOf k ns n ↔ ns.find? (·.is k) = some n := by
  rw [List.find?_eq_some_iff_append]
  constructor
  · rintro ⟨before, behind, rfl, hn, hbefore⟩
    exact ⟨by simp [Node.is, hn], before, behind, rfl, fun m hm => by simp [Node.is, hbefore m hm]⟩
  · rintro ⟨hn, before, behind, rfl, hbefore⟩
    refine ⟨before, behind, rfl, by simpa [Node.is] using hn, fun m hm => ?_⟩
    simpa [Node.is] using hbefore m hm

theorem binds_iff {n v : Node} :
    Binds n v ↔ n.is .declaration = true ∧ declared? n = some v := by
  simp only [Binds, firstOf_iff, declared?, Node.firstChild?, Option.bind_eq_some_iff, Node.is,
    beq_iff_eq]

theorem nameless_iff {n : Node} :
    Nameless n ↔ n.is .declaration = true ∧ ∃ v, declared? n = some v ∧ v.text? = none := by
  simp only [Nameless, binds_iff, and_assoc, exists_and_left]

theorem boundName?_iff {n : Node} {name : String} :
    boundName? n = some name ↔ ∃ v, Binds n v ∧ v.text? = some name := by
  unfold boundName?
  split
  · next hn => simp only [binds_iff, hn, true_and, Option.bind_eq_some_iff]
  · next hn => simp [binds_iff, hn]

theorem wrappable_iff {n : Node} {name : String} :
    Wrappable n name ↔ boundName? n = some name ∧
      (∃ cs span, n = .sequence .declaration cs span) ∧ ∃ v, n.firstChild? .value = some v := by
  rw [boundName?_iff]
  constructor
  · rintro ⟨hbinds, hsequence, v, hv⟩
    exact ⟨hbinds, hsequence, v, firstOf_iff.1 hv⟩
  · rintro ⟨hbinds, hsequence, v, hv⟩
    exact ⟨hbinds, hsequence, v, firstOf_iff.2 hv⟩

/-- A declaration with a variable and a value has more than one child. -/
theorem wrappable_of_boundName {n v : Node} {name : String} (hname : boundName? n = some name)
    (hv : n.firstChild? .value = some v) : Wrappable n name := by
  refine wrappable_iff.2 ⟨hname, ?_, v, hv⟩
  obtain ⟨w, ⟨hkind, p, hp, -⟩, -⟩ := boundName?_iff.1 hname
  have hp := firstOf_iff.1 hp
  cases n with
  | leaf k t s => cases hp
  | sequence k cs s => exact ⟨cs, s, by rw [show k = .declaration from hkind]⟩
  | single k c s =>
    -- the only child would be a property and a value
    have honly {k : Kind} {m : Node} (hm : [c].find? (·.is k) = some m) : c.kind = k := by
      rw [List.find?_singleton] at hm
      split at hm
      · next hc => simpa [Node.is] using hc
      · cases hm
    have hkinds : Kind.property = .value := (honly hp).symm.trans (honly hv)
    cases hkinds

/-- The first value of some nodes, with what becomes of them if it gives way. -/
theorem modify_firstOf {cs : List Node} {value : Node} (hv : cs.find? (·.is .value) = some value)
    (f : Node → Node) : ∃ before behind i, cs = before ++ value :: behind ∧ value.kind = .value ∧
      (∀ m ∈ before, m.kind ≠ .value) ∧ cs.findIdx? (·.is .value) = some i ∧
      cs.modify i f = before ++ f value :: behind := by
  obtain ⟨before, behind, rfl, hkind, hbefore⟩ := firstOf_iff.2 hv
  refine ⟨before, behind, before.length, rfl, hkind, hbefore, ?_, ?_⟩
  · have hnone : before.findIdx? (·.is .value) = none :=
      List.findIdx?_eq_none_iff.2 fun m hm => by simp [Node.is, hbefore m hm]
    rw [List.findIdx?_append, hnone]
    simp [List.findIdx?_cons, Node.is, hkind]
  · clear hv hbefore
    induction before with
    | nil => rfl
    | cons m before ih => simp [ih]

/-- **One step of the wrapping**: a node without a name stops it, and any other is wrapped or
stays as it is. -/
theorem wrapNode_cases (function : String) (n : Node) :
    (Nameless n ∧ wrapNode function n = .error .unnamedVariable) ∨
      (¬ Nameless n ∧ (∀ name, ¬ Wrappable n name) ∧ wrapNode function n = .ok none) ∨
      ∃ before behind value span name,
        n = .sequence .declaration (before ++ value :: behind) span ∧ Wrappable n name ∧
          value.kind = .value ∧ (∀ m ∈ before, m.kind ≠ .value) ∧
          wrapNode function n = .ok (some
            (.sequence .declaration (before ++ call function name value.bare :: behind) span)) := by
  simp only [nameless_iff, wrappable_iff, boundName?, wrapNode, wrapDeclaration]
  cases hn : n.is .declaration with
  | false => simp
  | true =>
    cases hv : declared? n with
    | none => simp
    | some v =>
      cases hname : v.text? with
      | none => simp [hname]
      | some name =>
        have hkind : n.kind = .declaration := by simpa [Node.is] using hn
        cases n with
        | leaf k t s => simp [hname]
        | single k c s => simp [hname]
        | sequence k cs s =>
          obtain rfl : k = .declaration := hkind
          cases hvalue : cs.find? (·.is .value) with
          | none =>
            have hidx : cs.findIdx? (·.is .value) = none := by
              rw [List.findIdx?_eq_none_iff]
              simpa using hvalue
            simp [hname, hidx, Node.firstChild?, Node.children, hvalue]
          | some value =>
            obtain ⟨before, behind, i, hcs, hkind, hbefore, hidx, hmodify⟩ :=
              modify_firstOf hvalue fun value => call function name value.bare
            refine .inr (.inr ⟨before, behind, value, s, name, by rw [hcs], ?_, hkind, hbefore, ?_⟩)
            · simp [hname, Node.firstChild?, Node.children, hvalue]
            · simp only [if_true, hname, hidx, hmodify]

/-- **All steps of the wrapping** change what comes before the first declaration without a name,
and leave the rest as it is. -/
theorem wrapped_of_wrapAll (function : String) (ns : List Node) :
    ∃ done left done' count, ns = done ++ left ∧ Wrapped function done done' count ∧
      (wrapAll function ns).1 = done' ++ left ∧
      ((left = [] ∧ (wrapAll function ns).2 = .ok count) ∨
        ∃ n rest, left = n :: rest ∧ Nameless n ∧
          (wrapAll function ns).2 = .error .unnamedVariable) := by
  induction ns with
  | nil => exact ⟨[], [], [], 0, rfl, .nil, rfl, .inl ⟨rfl, rfl⟩⟩
  | cons n ns ih =>
    obtain ⟨done, left, done', count, hns, hdone, htree, hresult⟩ := ih
    rcases wrapNode_cases function n with
      ⟨hnameless, hwrap⟩ | ⟨hnamed, hkept, hwrap⟩ |
      ⟨before, behind, value, span, name, rfl, hwrappable, hkind, hbefore, hwrap⟩
    · refine ⟨[], n :: ns, [], 0, rfl, .nil, ?_, .inr ⟨n, ns, rfl, hnameless, ?_⟩⟩ <;>
        simp [wrapAll, hwrap]
    · refine ⟨n :: done, left, n :: done', count, by rw [hns]; rfl, .keep hkept hnamed hdone,
        ?_, ?_⟩
      · simp [wrapAll, hwrap, htree]
      · rcases hresult with ⟨hleft, h⟩ | ⟨m, rest, hleft, hm, h⟩
        · exact .inl ⟨hleft, by simp only [wrapAll, hwrap, h]; rfl⟩
        · exact .inr ⟨m, rest, hleft, hm, by simp only [wrapAll, hwrap, h]; rfl⟩
    · refine ⟨_ :: done, left, _ :: done', count + 1, by rw [hns]; rfl,
        .wrap hwrappable hkind hbefore hdone, ?_, ?_⟩
      · simp [wrapAll, hwrap, htree]
      · rcases hresult with ⟨hleft, h⟩ | ⟨m, rest, hleft, hm, h⟩
        · exact .inl ⟨hleft, by simp only [wrapAll, hwrap, h]; rfl⟩
        · exact .inr ⟨m, rest, hleft, hm, by simp only [wrapAll, hwrap, h]; rfl⟩

/-! ### The source of a wrapped tree -/

theorem cutBytes_zero (cs : List Char) : cutBytes 0 cs = ([], cs) := by
  cases cs with
  | nil => rfl
  | cons c cs =>
    have := c.utf8Size_pos
    rw [cutBytes, if_neg (by omega)]

/-- Characters within the bytes come in front. -/
theorem cutBytes_append (s t : List Char) {n : Nat} (h : width s ≤ n) :
    cutBytes n (s ++ t) = (s ++ (cutBytes (n - width s) t).1, (cutBytes (n - width s) t).2) := by
  induction s generalizing n with
  | nil => simp
  | cons c s ih =>
    simp only [width] at h ⊢
    rw [List.cons_append, cutBytes, if_pos (by omega), ih (by omega), Nat.sub_sub, List.cons_append]

/-- Characters before the first offset stay in front. -/
theorem putFrom_append {a : Nat} {s : List Char} {ms : List (Nat × String)}
    (h : ∀ m ∈ ms.head?, a + width s ≤ m.1) (t : List Char) :
    putFrom a ms (s ++ t) = s ++ putFrom (a + width s) ms t := by
  cases ms with
  | nil => rfl
  | cons m ms =>
    have hm : a + width s ≤ m.1 := h m rfl
    simp only [putFrom]
    rw [cutBytes_append s t (by omega), Nat.sub_sub, List.append_assoc]

/-- A text that is put in where others end comes behind them. -/
theorem putFrom_behind (a : Nat) (s : List Char) (text : String) (ms : List (Nat × String))
    (t : List Char) : putFrom a ((a + width s, text) :: ms) (s ++ t) =
      s ++ (text.toList ++ putFrom (a + width s) ms t) := by
  have hnext : ∀ m ∈ ((a + width s, text) :: ms).head?, a + width s ≤ m.1 := by
    rintro m ⟨⟩
    exact Nat.le_refl _
  rw [putFrom_append hnext, putFrom, Nat.sub_self, cutBytes_zero, List.nil_append]

theorem print_call (function name : String) (value : Node) :
    (call function name value.bare).print.toList =
      (opener function name).toList ++ (value.print.toList ++ [')']) := by
  simp [call, Node.print, Node.printAll, Kind.wrap, Kind.marks, opener, print_bare]

/-- The value of a declaration that stands at an offset stands behind what is before it. -/
theorem value_span {a : Nat} {before behind : List Node} {value : Node} {span : Option Span}
    (h : (Node.sequence .declaration (before ++ value :: behind) span).Stands a)
    (hkind : value.kind = .value) :
    value.span = some ⟨a + width (printed before),
      a + width (printed before) + byteLength value.print⟩ := by
  have hchildren : StandAll a (before ++ value :: behind) := by
    have hmarks : byteLength Kind.declaration.marks.1 = 0 := rfl
    simpa [hmarks] using h.2
  clear h
  induction before generalizing a with
  | nil =>
    have hplace : value.placeAt a = some ⟨a, a + byteLength value.print⟩ := by
      simp [placeAt, unheaded, isLeaf, Node.is, hkind]
    rw [hchildren.1.span_eq, hplace]
    rfl
  | cons n before ih =>
    rw [add_printed_cons]
    exact ih hchildren.2

/-- **A declaration** is wrapped where its value stands. -/
theorem marksOf_wrapped (function : String) {a : Nat} {before behind : List Node} {value : Node}
    {span : Option Span} {name : String}
    (h : (Node.sequence .declaration (before ++ value :: behind) span).Stands a)
    (hwrappable : Wrappable (.sequence .declaration (before ++ value :: behind) span) name)
    (hkind : value.kind = .value) (hbefore : ∀ m ∈ before, m.kind ≠ .value) :
    marksOf function (.sequence .declaration (before ++ value :: behind) span) =
      [(a + width (printed before), opener function name),
        (a + width (printed before) + byteLength value.print, ")")] := by
  have hname := (wrappable_iff.1 hwrappable).1
  have hfirst : (Node.sequence .declaration (before ++ value :: behind) span).firstChild? .value =
      some value := firstOf_iff.1 ⟨before, behind, rfl, hkind, hbefore⟩
  simp only [marksOf, hname, hfirst, Option.bind_some, value_span h hkind]

theorem marks_cons (function : String) (n : Node) (ns : List Node) :
    marks function (n :: ns) = marksOf function n ++ marks function ns := rfl

theorem marksOf_kept (function : String) {n : Node} (h : ∀ name, ¬ Wrappable n name) :
    marksOf function n = [] := by
  unfold marksOf
  split
  · next name s hname hspan =>
    obtain ⟨v, hv, -⟩ := Option.bind_eq_some_iff.1 hspan
    exact absurd (wrappable_of_boundName hname hv) (h name)
  · rfl

/-- No text is put in before the nodes. -/
theorem marks_behind (function : String) {a : Nat} {ns ns' : List Node} {count : Nat}
    (h : Wrapped function ns ns' count) (hns : StandAll a ns) :
    ∀ m ∈ (marks function ns).head?, a ≤ m.1 := by
  induction h generalizing a with
  | nil => nofun
  | wrap hwrappable hkind hbefore _ _ =>
    intro m hm
    rw [marks_cons, marksOf_wrapped function hns.1 hwrappable hkind hbefore] at hm
    obtain rfl := Option.some.inj hm
    exact Nat.le_add_right _ _
  | keep hkept _ _ ih =>
    intro m hm
    rw [marks_cons, marksOf_kept function hkept] at hm
    exact Nat.le_trans (Nat.le_add_right _ _) (ih hns.2 m hm)

/-- **Nodes in their places** print, once they are wrapped, what they printed with the calls put
in. -/
theorem printed_wrapped {function : String} {a : Nat} {ns ns' : List Node} {count : Nat}
    (h : Wrapped function ns ns' count) (hns : StandAll a ns) :
    printed ns' = putFrom a (marks function ns) (printed ns) := by
  induction h generalizing a with
  | nil => rfl
  | @wrap before behind ns ns' value span name count hwrappable hkind hbefore hrest ih =>
    have hbehind := marks_behind function hrest hns.2
    have hmarks := marksOf_wrapped function hns.1 hwrappable hkind hbefore
    -- the declaration is what is before its value, the value, and what is behind it
    have hprint (v : Node) :
        (Node.sequence .declaration (before ++ v :: behind) span).print.toList =
          printed before ++ (v.print.toList ++ printed behind) := by
      rw [print_sequence]
      simp [Kind.marks]
    have hend : a + width (printed before) + byteLength value.print + width (printed behind) =
        a + byteLength (Node.sequence .declaration (before ++ value :: behind) span).print := by
      rw [byteLength, byteLength, hprint, width_append, width_append]
      omega
    rw [← hend] at hbehind
    rw [printed_cons, printed_cons, hprint, hprint, marks_cons, hmarks, print_call,
      ih hns.2, ← hend]
    simp only [List.append_assoc, List.cons_append, List.nil_append]
    have hwidth : byteLength value.print = width value.print.toList := rfl
    rw [hwidth] at hbehind ⊢
    rw [putFrom_behind, putFrom_behind, putFrom_append hbehind]
    rfl
  | @keep n ns ns' count hkept _ hrest ih =>
    rw [printed_cons, printed_cons, marks_cons, marksOf_kept function hkept,
      List.nil_append, putFrom_append (marks_behind function hrest hns.2), ih hns.2]
    rfl

/-! ### The whole tree -/

theorem wrapDeclarations_of_misnamed {function : String} (h : ¬ ReadsAsName function)
    (tree : Node) :
    wrapDeclarations function tree = ⟨tree, .error (.invalidFunctionName function)⟩ := by
  have hf : ¬ isName function = true := mt (isName_iff function).1 h
  simp only [wrapDeclarations, hf, if_false, Bool.false_eq_true]

/-- The children of a tree are wrapped, and the tree stays around them. -/
theorem wrapDeclarations_eq {function : String} (h : ReadsAsName function) (tree : Node) :
    wrapDeclarations function tree =
      ⟨withChildren tree (wrapAll function tree.children).1,
        (wrapAll function tree.children).2⟩ := by
  have hf : isName function = true := (isName_iff function).2 h
  simp only [wrapDeclarations, hf, if_true]
  cases tree with
  | leaf k t s => rfl
  | sequence k cs s => rfl
  | single k c s =>
    cases hc : wrapNode function c with
    | error e => simp [Node.children, wrapAll, hc, withChildren]
    | ok o => cases o <;> simp [Node.children, wrapAll, hc, withChildren, Except.map]

/-- The value of a declaration of a source stands at its span. -/
theorem exists_value {source : String} {tree : Node} (ht : parse source = .ok tree) {n : Node}
    (hn : n ∈ tree.children) {name : String} (hname : boundName? n = some name) :
    ∃ v s, n.firstChild? .value = some v ∧ v.span = some s ∧ s.Reads source v.print := by
  have hdeclaration : n.is .declaration = true := by
    obtain ⟨v, hbinds, -⟩ := boundName?_iff.1 hname
    exact (binds_iff.1 hbinds).1
  obtain ⟨v, hv⟩ := ((sound_of_parse ht).child hn).complete.value hdeclaration
  obtain ⟨hmem, hkind⟩ := of_firstChild? hv
  have hbelow : v ∈ tree.nodes := by
    have hnodes : n ∈ tree.nodes := by
      rw [nodes_eq]
      exact List.mem_cons_of_mem _ (mem_nodesAll hn)
    refine nodes_subset hnodes ?_
    rw [nodes_eq]
    exact List.mem_cons_of_mem _ (mem_nodesAll hmem)
  obtain ⟨a, hstands, hholds⟩ := node_stands_of_parse ht hbelow
  have hplace : v.placeAt a = some ⟨a, a + byteLength v.print⟩ := by
    simp [placeAt, unheaded, isLeaf, Node.is, hkind]
  exact ⟨v, _, hv, hstands.span_eq.trans hplace, hholds.reads⟩

/-- **A wrapped source** is the source with the calls put in. -/
theorem print_wrapDeclarations {function source : String} {tree : Node}
    (hf : ReadsAsName function) (ht : parse source = .ok tree) :
    (∃ count, (wrapDeclarations function tree).result = .ok count) ∧
      (wrapDeclarations function tree).tree.print =
        putIn (marks function tree.children) source := by
  have hprint := toList_print_of_parse ht
  have hstands := stands_of_parse ht
  have hsound := sound_of_parse ht
  obtain ⟨ls, ns, -, -, rfl⟩ := parse_iff.1 ht
  have hmarks : byteLength Kind.stylesheet.marks.1 = 0 := rfl
  have hns : StandAll 0 ns := by simpa [hmarks] using hstands.2
  obtain ⟨count, hcount⟩ := wrapAll_ok (fun n (hn : n ∈ ns) => hsound.child hn) function
  -- no declaration of a source is without a name, so that none is left
  obtain ⟨done, left, done', k, hsplit, hdone, htree, ⟨hleft, -⟩ | ⟨n, rest, -, -, herror⟩⟩ :=
    wrapped_of_wrapAll function ns
  · rw [hleft, List.append_nil] at hsplit htree
    subst hsplit
    have hsource : source.toList = printed ns := by
      rw [← hprint, print_sequence]
      simp [Kind.marks]
    rw [wrapDeclarations_eq hf]
    refine ⟨⟨count, hcount⟩, String.toList_inj.1 ?_⟩
    rw [putIn, String.toList_ofList, hsource]
    show (Node.sequence .stylesheet (wrapAll function ns).1 _).print.toList = _
    rw [print_sequence, htree, printed_wrapped hdone hns]
    simp [Kind.marks, Node.children]
  · rw [hcount] at herror
    cases herror

/-- **Wrapping changes values and nothing else.** Without a name for the function the tree stays
as it is. With one, each declaration of a variable among its children gets a call for its first
value, up to the first declaration whose variable has no name; what is left there, and all else,
stays as it is. The tree of a source has no such declaration, and prints as the source with the
calls put in around the values of the declarations of variables. -/
theorem wrapDeclarations_changes (function : String) (tree : Node) :
    (¬ ReadsAsName function →
      wrapDeclarations function tree = ⟨tree, .error (.invalidFunctionName function)⟩) ∧
    (ReadsAsName function →
      (∃ done left done' count, tree.children = done ++ left ∧ Wrapped function done done' count ∧
        (wrapDeclarations function tree).tree = withChildren tree (done' ++ left) ∧
        ((left = [] ∧ (wrapDeclarations function tree).result = .ok count) ∨
          ∃ n rest, left = n :: rest ∧ Nameless n ∧
            (wrapDeclarations function tree).result = .error .unnamedVariable)) ∧
      ∀ source, parse source = .ok tree →
        (∃ count, (wrapDeclarations function tree).result = .ok count) ∧
        (wrapDeclarations function tree).tree.print = putIn (marks function tree.children) source ∧
        ∀ n ∈ tree.children, ∀ name, boundName? n = some name →
          ∃ v s, n.firstChild? .value = some v ∧ v.span = some s ∧ s.Reads source v.print) := by
  refine ⟨fun h => wrapDeclarations_of_misnamed h tree, fun hf => ⟨?_, fun source ht => ?_⟩⟩
  · obtain ⟨done, left, done', count, hsplit, hdone, htree, hresult⟩ :=
      wrapped_of_wrapAll function tree.children
    rw [wrapDeclarations_eq hf]
    exact ⟨done, left, done', count, hsplit, hdone, by rw [htree], hresult⟩
  · obtain ⟨hok, hprint⟩ := print_wrapDeclarations hf ht
    exact ⟨hok, hprint, fun n hn name hname => exists_value ht hn hname⟩

/-- A name of two words, and a source with characters of several bytes, a flag and a declaration in
a block. -/
theorem wrapDeclarations_changes_sample :
    wrapDeclarations "no name" (.leaf .space " " none) =
        ⟨.leaf .space " " none, .error (.invalidFunctionName "no name")⟩ ∧
      ReadsAsName "f" ∧
      ∃ tree, parse "$é: 'ü' !default; .a \x7b $b: 1 \x7d $c: 2 /* x */" = .ok tree ∧
        (wrapDeclarations "f" tree).tree.print =
          "$é: f(\"é\",'ü') !default; .a \x7b $b: 1 \x7d $c: f(\"c\",2 /* x */)" := by
  have hno : ¬ ReadsAsName "no name" := by
    rw [← isName_iff]
    decide +kernel
  have hf : ReadsAsName "f" := (isName_iff "f").1 (by decide +kernel)
  have hput : (match parse "$é: 'ü' !default; .a \x7b $b: 1 \x7d $c: 2 /* x */" with
      | .ok t =>
          putIn (marks "f" t.children) "$é: 'ü' !default; .a \x7b $b: 1 \x7d $c: 2 /* x */" ==
            "$é: f(\"é\",'ü') !default; .a \x7b $b: 1 \x7d $c: f(\"c\",2 /* x */)"
      | .error _ => false) = true := by decide +kernel
  refine ⟨(wrapDeclarations_changes "no name" _).1 hno, hf, ?_⟩
  cases ht : parse "$é: 'ü' !default; .a \x7b $b: 1 \x7d $c: 2 /* x */" with
  | error e => rw [ht] at hput; cases hput
  | ok tree =>
    rw [ht] at hput
    obtain ⟨-, hprint, -⟩ := ((wrapDeclarations_changes "f" tree).2 hf).2 _ ht
    exact ⟨tree, rfl, hprint.trans (eq_of_beq hput)⟩

end Export
end Stylesheet
