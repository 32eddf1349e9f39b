import Stylesheet.Proofs.Syntax.RoundTrip
import Stylesheet.Proofs.Syntax.Tiling

/-!
# Nodes in their places

A node stands at an offset if its span is where its text stands, counted from there, and so for
all below it. Two nodes are left without such a span: a selector without text has none, and the
span of a rule with such a selector starts at the front of the source, wherever the rule stands.

* `Node.placeAt`: the span that a node has where its text starts at an offset.
* `Node.Stands`: a node and all below it have these spans.
* `Items.neat`, `Pieces.Fits.neat`: values and declarations stand where their lexemes do.
-/

namespace Stylesheet

/-- The text stands in the source from the offset on. -/
def Holds (source : String) (a : Nat) (text : String) : Prop :=
  ∃ before behind : String, source = before ++ text ++ behind ∧ byteLength before = a

/-- The text is what stands in the source at the span. -/
def Span.Reads (source : String) (s : Span) (text : String) : Prop :=
  Holds source s.start text ∧ s.stop = s.start + byteLength text

theorem Span.Reads.bounds {source : String} {s : Span} {text : String} (h : s.Reads source text) :
    s.start ≤ s.stop ∧ s.stop ≤ byteLength source := by
  obtain ⟨⟨before, behind, rfl, hstart⟩, hstop⟩ := h
  simp only [byteLength_append]
  omega

theorem Holds.left {source : String} {a : Nat} {s t : String} (h : Holds source a (s ++ t)) :
    Holds source a s := by
  obtain ⟨before, behind, rfl, ha⟩ := h
  exact ⟨before, t ++ behind, by simp only [String.append_assoc], ha⟩

theorem Holds.right {source : String} {a : Nat} {s t : String} (h : Holds source a (s ++ t)) :
    Holds source (a + byteLength s) t := by
  obtain ⟨before, behind, rfl, rfl⟩ := h
  exact ⟨before ++ s, behind, by simp only [String.append_assoc], byteLength_append _ _⟩

theorem Holds.reads {source : String} {a : Nat} {text : String} (h : Holds source a text) :
    Span.Reads source ⟨a, a + byteLength text⟩ text := ⟨h, rfl⟩

namespace Node

/-- A selector without text, or a rule with one. -/
def unheaded (n : Node) : Bool :=
  n.isLeaf .selector "" || (n.is .rule && n.children.head?.any (·.isLeaf .selector ""))

/-- The span of a node whose text starts at the offset. -/
def placeAt (a : Nat) (n : Node) : Option Span :=
  if n.isLeaf .selector "" then none
  else if n.unheaded then some ⟨0, a + byteLength n.print⟩
  else some ⟨a, a + byteLength n.print⟩

mutual

/-- The node, whose text starts at the offset, and all below it have the spans of their places. -/
def Stands (a : Nat) : Node → Prop
  | leaf k t s => s = (leaf k t s).placeAt a
  | single k c s => s = (single k c s).placeAt a ∧ Stands (a + byteLength k.marks.1) c
  | sequence k cs s => s = (sequence k cs s).placeAt a ∧ StandAll (a + byteLength k.marks.1) cs

/-- `Stands` for nodes one after the other. -/
def StandAll (a : Nat) : List Node → Prop
  | [] => True
  | n :: ns => Stands a n ∧ StandAll (a + byteLength n.print) ns

end

@[simp] theorem isLeaf_single (k k' : Kind) (n : Node) (s : Option Span) (t : String) :
    (single k n s).isLeaf k' t = false := by
  simp [isLeaf, text?]

@[simp] theorem isLeaf_sequence (k k' : Kind) (ns : List Node) (s : Option Span) (t : String) :
    (sequence k ns s).isLeaf k' t = false := by
  simp [isLeaf, text?]

theorem Stands.span_eq {a : Nat} {n : Node} (h : n.Stands a) : n.span = n.placeAt a := by
  cases n with
  | leaf k t s => exact h
  | single k c s => exact h.1
  | sequence k cs s => exact h.1

/-- The offset behind some nodes. -/
theorem add_printed_cons (a : Nat) (n : Node) (ns : List Node) :
    a + width (printed (n :: ns)) = a + byteLength n.print + width (printed ns) := by
  simp [byteLength, Nat.add_assoc]

/-- The node stands at the offset and is neither a selector without text nor a rule with one. -/
structure Neat (a : Nat) (n : Node) : Prop where
  stands : n.Stands a
  headed : n.unheaded = false

/-- `Neat` for nodes one after the other. -/
def NeatAll (a : Nat) : List Node → Prop
  | [] => True
  | n :: ns => n.Neat a ∧ NeatAll (a + byteLength n.print) ns

theorem neatAll_cons {a : Nat} {n : Node} {ns : List Node} :
    NeatAll a (n :: ns) ↔ n.Neat a ∧ NeatAll (a + byteLength n.print) ns := Iff.rfl

theorem neatAll_singleton {a : Nat} {n : Node} : NeatAll a [n] ↔ n.Neat a :=
  ⟨fun h => h.1, fun h => ⟨h, trivial⟩⟩

theorem neatAll_append {a : Nat} {ms ns : List Node} :
    NeatAll a (ms ++ ns) ↔ NeatAll a ms ∧ NeatAll (a + width (printed ms)) ns := by
  induction ms generalizing a with
  | nil => simp [NeatAll]
  | cons m ms ih => rw [List.cons_append, NeatAll, NeatAll, ih, add_printed_cons, and_assoc]

theorem NeatAll.standAll {a : Nat} {ns : List Node} (h : NeatAll a ns) : StandAll a ns := by
  induction ns generalizing a with
  | nil => trivial
  | cons n ns ih => exact ⟨h.1.stands, ih h.2⟩

theorem Neat.span_eq {a : Nat} {n : Node} (h : n.Neat a) :
    n.span = some ⟨a, a + byteLength n.print⟩ := by
  have hsel : n.isLeaf .selector "" = false := (Bool.or_eq_false_iff.1 h.headed).1
  rw [h.stands.span_eq, placeAt, if_neg (by simp [hsel]), if_neg (by simp [h.headed])]

theorem NeatAll.start {a : Nat} {ns : List Node} (h : NeatAll a ns) (hne : ns ≠ []) :
    (ns.head?.bind Node.span).map Span.start = some a := by
  obtain ⟨n, ns, rfl⟩ := List.exists_cons_of_ne_nil hne
  simp [h.1.span_eq]

theorem NeatAll.stop {a : Nat} {ns : List Node} (h : NeatAll a ns) (hne : ns ≠ []) :
    (ns.getLast?.bind Node.span).map Span.stop = some (a + width (printed ns)) := by
  obtain ⟨ms, n, rfl⟩ : ∃ ms m, ns = ms ++ [m] := ⟨_, _, (List.dropLast_concat_getLast hne).symm⟩
  have hn := (neatAll_append.1 h).2.1.span_eq
  simp [hn, byteLength, Nat.add_assoc]

theorem width_printed_cons (n : Node) (ns : List Node) :
    width (printed (n :: ns)) = byteLength n.print + width (printed ns) := by
  simp [byteLength]

theorem byteLength_print_sequence (k : Kind) (ns : List Node) (s : Option Span) :
    byteLength (sequence k ns s).print =
      byteLength k.marks.1 + (width (printed ns) + byteLength k.marks.2) := by
  rw [byteLength, print_sequence]
  simp [byteLength]

/-- A leaf that is no selector without text stands where its span is. -/
theorem neat_leaf {k : Kind} {t : String} {s : Span} {a : Nat} (hk : k = .selector → t ≠ "")
    (hs : s = ⟨a, a + byteLength (leaf k t (some s)).print⟩) : (leaf k t (some s)).Neat a := by
  have hsel : (leaf k t (some s)).isLeaf .selector "" = false := by
    rw [Bool.eq_false_iff]
    intro h
    simp only [isLeaf, is, kind, text?, Bool.and_eq_true, beq_iff_eq, Option.some.injEq] at h
    exact hk h.1 h.2
  have hun : (leaf k t (some s)).unheaded = false := by
    simp [unheaded, hsel, children]
  refine ⟨?_, hun⟩
  rw [Stands, placeAt, if_neg (by simp [hsel]), if_neg (by simp [hun]), ← hs]

/-- A node with one child and no marks stands where the child does. -/
theorem neat_single {k : Kind} {n : Node} {s : Span} {a : Nat} (hk : k ≠ .rule)
    (hmarks : k.marks = ("", "")) (hn : n.Stands a) (hs : s = ⟨a, a + byteLength n.print⟩) :
    (single k n (some s)).Neat a := by
  have hun : (single k n (some s)).unheaded = false := by simp [unheaded, is, kind, hk]
  refine ⟨⟨?_, ?_⟩, hun⟩
  · rw [placeAt, if_neg (by simp), if_neg (by simp [hun]), hs]
    simp [print, Kind.wrap, hmarks]
  · simpa [hmarks, byteLength] using hn

/-- A node that is no rule stands where its children do. -/
theorem neat_sequence {k : Kind} {ns : List Node} {s : Span} {a : Nat} (hk : k ≠ .rule)
    (hns : StandAll (a + byteLength k.marks.1) ns)
    (hs : s = ⟨a, a + byteLength (sequence k ns (some s)).print⟩) :
    (sequence k ns (some s)).Neat a := by
  have hun : (sequence k ns (some s)).unheaded = false := by simp [unheaded, is, kind, hk]
  refine ⟨⟨?_, hns⟩, hun⟩
  rw [placeAt, if_neg (by simp), if_neg (by simp [hun]), ← hs]

/-- A node that is no rule and prints no marks reaches from the first of its children to the last. -/
theorem neat_of_children {k : Kind} {ns : List Node} {s : Span} {a : Nat} (hk : k ≠ .rule)
    (hmarks : k.marks = ("", "")) (hns : StandAll a ns) (hs : s = ⟨a, a + width (printed ns)⟩) :
    (sequence k ns (some s)).Neat a := by
  refine neat_sequence hk ?_ ?_
  · simpa [hmarks, byteLength] using hns
  · rw [byteLength_print_sequence, hmarks, hs]
    simp [byteLength]

end Node

/-! ### Lexemes in their places -/

namespace Lexeme

/-- The lexeme stands at the offset and is one of its token. -/
structure Sits (a : Nat) (l : Lexeme) : Prop where
  span : l.span = ⟨a, a + byteLength l.text⟩
  genuine : l.Genuine

/-- `Sits` for lexemes one after the other. -/
structure SitAll (a : Nat) (ls : List Lexeme) : Prop where
  placed : Placed a ls
  genuine : ∀ l ∈ ls, l.Genuine

theorem sitAll_cons {a : Nat} {l : Lexeme} {ls : List Lexeme} :
    SitAll a (l :: ls) ↔ l.Sits a ∧ SitAll (a + byteLength l.text) ls := by
  constructor
  · rintro ⟨⟨hspan, hplaced⟩, hg⟩
    exact ⟨⟨hspan, hg l List.mem_cons_self⟩, hplaced, fun m hm => hg m (List.mem_cons_of_mem _ hm)⟩
  · rintro ⟨⟨hspan, hl⟩, hplaced, hg⟩
    exact ⟨⟨hspan, hplaced⟩, List.forall_mem_cons.2 ⟨hl, hg⟩⟩

theorem sitAll_append {a : Nat} {ls ms : List Lexeme} :
    SitAll a (ls ++ ms) ↔ SitAll a ls ∧ SitAll (a + width (texts ls)) ms := by
  constructor
  · rintro ⟨hplaced, hg⟩
    obtain ⟨hls, hms⟩ := placed_append.1 hplaced
    exact ⟨⟨hls, fun l hl => hg l (List.mem_append_left _ hl)⟩, hms,
      fun l hl => hg l (List.mem_append_right _ hl)⟩
  · rintro ⟨⟨hls, hgls⟩, hms, hgms⟩
    exact ⟨placed_append.2 ⟨hls, hms⟩, fun l hl => (List.mem_append.1 hl).elim (hgls l) (hgms l)⟩

theorem SitAll.head? {a : Nat} {ls : List Lexeme} (h : SitAll a ls) :
    ∀ l ∈ ls.head?, l.span.start = a := by
  intro l hl
  obtain ⟨ms, rfl⟩ := List.head?_eq_some_iff.1 hl
  rw [(sitAll_cons.1 h).1.span]

theorem SitAll.getLast? {a : Nat} {ls : List Lexeme} (h : SitAll a ls) :
    ∀ l ∈ ls.getLast?, l.span.stop = a + width (texts ls) := by
  intro l hl
  obtain ⟨ms, rfl⟩ := List.getLast?_eq_some_iff.1 hl
  rw [(sitAll_cons.1 (sitAll_append.1 h).2).1.span]
  simp [byteLength, Nat.add_assoc]

theorem sitAll_of_tokenize {source : String} {ls : List Lexeme} (h : tokenize source = .ok ls) :
    SitAll 0 ls :=
  ⟨placed_of_cut h, (genuine_of_tokenize h).1⟩

/-- The offset behind some lexemes. -/
theorem add_texts_cons (a : Nat) (l : Lexeme) (ls : List Lexeme) :
    a + width (texts (l :: ls)) = a + byteLength l.text + width (texts ls) := by
  simp [byteLength, Nat.add_assoc]

/-- A leaf that prints its lexeme stands where the lexeme does. -/
theorem Sits.neat {a : Nat} {l : Lexeme} (h : l.Sits a) {k : Kind} {t : String} (hk : k ≠ .selector)
    (hprint : (Node.leaf k t (some l.span)).print.toList = l.text.toList) :
    (Node.leaf k t (some l.span)).Neat a := by
  refine Node.neat_leaf (fun h => absurd h hk) ?_
  rw [byteLength, hprint]
  exact h.span

/-- What is an item by itself is a leaf of the lexeme, and no selector. -/
theorem item?_leaf {l : Lexeme} {n : Node} (h : l.item? = some n) :
    ∃ k t, n = .leaf k t (some l.span) ∧ k ≠ .selector := by
  obtain ⟨t, text, span⟩ := l
  cases t <;> simp only [item?, trivia, reduceCtorEq, Option.some.injEq] at h <;> subst h <;>
    exact ⟨_, _, rfl, by decide⟩

theorem byteLength_item {l : Lexeme} (h : l.Genuine) {n : Node} (hn : l.item? = some n) :
    byteLength n.print = byteLength l.text := by
  rw [byteLength, item?_print h hn, byteLength]

theorem Sits.neat_item {a : Nat} {l : Lexeme} (h : l.Sits a) {n : Node} (hn : l.item? = some n) :
    n.Neat a := by
  have hprint := item?_print h.genuine hn
  obtain ⟨k, t, rfl, hk⟩ := item?_leaf hn
  exact h.neat hk hprint

theorem byteLength_leaf {k : Kind} (l : Lexeme) (h : k.marks = ("", "")) :
    byteLength (l.leaf k).print = byteLength l.text := by
  rw [byteLength, leaf_print l h, byteLength]

theorem Sits.neat_leaf {a : Nat} {l : Lexeme} (h : l.Sits a) {k : Kind} (hk : k ≠ .selector)
    (hmarks : k.marks = ("", "")) : (l.leaf k).Neat a :=
  h.neat hk (leaf_print l hmarks)

end Lexeme

namespace Parse

open Node Lexeme

/-- A bracket stands where its marks and its items do. -/
theorem neat_bracket {k : Kind} (hk : k ≠ .rule) {a : Nat} {m close : Lexeme} {inside : List Node}
    (hmarks : k.marks = (m.text, close.text)) (hm : m.Sits a)
    (hin : StandAll (a + byteLength m.text) inside)
    (hclose : close.Sits (a + byteLength m.text + width (printed inside))) :
    (Node.sequence k inside (some ⟨m.span.start, close.span.stop⟩)).Neat a := by
  refine neat_sequence hk (by rw [hmarks]; exact hin) ?_
  rw [hm.span, hclose.span, byteLength_print_sequence, hmarks]
  simp only [Nat.add_assoc]

theorem Opening.neat {o : Opening} (hfit : o.Fits) {inside : List Node} {close : Lexeme}
    (hclose : close.token = o.closer.1) {a : Nat} (hmarks : SitAll a o.marks)
    (hin : StandAll (a + width (texts o.marks)) inside)
    (hc : close.Sits (a + width (texts o.marks) + width (printed inside))) :
    (o.node inside close).Neat a := by
  cases o with
  | parentheses m =>
    have hm := (sitAll_cons.1 hmarks).1
    have hopen : m.text = "(" := String.toList_inj.1 (hm.genuine.fixed.1 hfit)
    have hshut : close.text = ")" := String.toList_inj.1 (hc.genuine.fixed.2.1 hclose)
    simp only [Opening.marks, texts_cons, texts_nil, List.append_nil] at hin hc
    exact neat_bracket (by decide) (by rw [hopen, hshut]; rfl) hm hin hc
  | interpolation m =>
    have hm := (sitAll_cons.1 hmarks).1
    have hopen : m.text = "#\x7b" := String.toList_inj.1 (hm.genuine.fixed.2.2.2.2 hfit)
    have hshut : close.text = "\x7d" := String.toList_inj.1 (hc.genuine.fixed.2.2.2.1 hclose)
    simp only [Opening.marks, texts_cons, texts_nil, List.append_nil] at hin hc
    exact neat_bracket (by decide) (by rw [hopen, hshut]; rfl) hm hin hc
  | call n m =>
    obtain ⟨hn, hm⟩ := sitAll_cons.1 hmarks
    replace hm := (sitAll_cons.1 hm).1
    have hopen : m.text = "(" := String.toList_inj.1 (hm.genuine.fixed.1 hfit.2)
    have hshut : close.text = ")" := String.toList_inj.1 (hc.genuine.fixed.2.1 hclose)
    simp only [Opening.marks, texts_cons, texts_nil, List.append_nil, width_append,
      ← Nat.add_assoc] at hin hc
    have hname := hn.neat_leaf (k := .identifier) (by decide) rfl
    have hargs := neat_bracket (k := .arguments) (by decide) (by rw [hopen, hshut]; rfl) hm hin hc
    have hwidth := byteLength_leaf n (k := .identifier) rfl
    refine neat_of_children (by decide) rfl ⟨hname.stands, ?_, trivial⟩ ?_
    · rw [hwidth]
      exact hargs.stands
    · have hstop := congrArg Span.stop (Option.some.inj hargs.span_eq)
      rw [Span.mk.injEq, hn.span]
      refine ⟨rfl, ?_⟩
      rw [width_printed_cons, width_printed_cons, hwidth, printed_nil, width_nil]
      simp only at hstop
      omega

theorem Opening.byteLength_node {o : Opening} (hfit : o.Fits) {inside : List Node} {close : Lexeme}
    (hclose : close.token = o.closer.1) (hmarks : ∀ l ∈ o.marks, l.Genuine) (hg : close.Genuine) :
    byteLength (o.node inside close).print =
      width (texts o.marks) + (width (printed inside) + byteLength close.text) := by
  rw [byteLength, Opening.print hfit hclose hmarks hg]
  simp [byteLength]

theorem Items.neat {stop : Stop} {ls : List Lexeme} {ns : List Node} (h : Items stop ls ns) {a : Nat}
    (hls : SitAll a ls) : NeatAll a ns := by
  induction h generalizing a with
  | nil => trivial
  | @leaf stop l n ls ns _ hn _ _ ih =>
    obtain ⟨hl, hls⟩ := sitAll_cons.1 hls
    exact ⟨hl.neat_item hn, by rw [byteLength_item hl.genuine hn]; exact ih hls⟩
  | @bracket stop o ms ls inside ns close hfit hin hclose _ ih₁ ih₂ =>
    obtain ⟨hmarks, hms⟩ := sitAll_append.1 hls
    obtain ⟨hms, hc⟩ := sitAll_append.1 hms
    obtain ⟨hc, hls⟩ := sitAll_cons.1 hc
    have hprint := hin.print hms.genuine
    refine ⟨Opening.neat hfit hclose hmarks (ih₁ hms).standAll (by rwa [hprint]), ?_⟩
    rw [Opening.byteLength_node hfit hclose hmarks.genuine hc.genuine, hprint]
    simpa [byteLength, Nat.add_assoc] using ih₂ hls

/-- The range of nodes from an offset on. -/
theorem spanOf_eq {a : Nat} {ns : List Node} (h : NeatAll a ns) (hne : ns ≠ []) :
    spanOf ns = ⟨a, a + width (printed ns)⟩ := by
  simp only [spanOf, h.start hne, h.stop hne, Option.getD_some]

/-- Nodes that print some lexemes, and nodes behind these. -/
theorem neatAll_join {a : Nat} {ls : List Lexeme} {ms ns : List Node} (hms : NeatAll a ms)
    (hprint : printed ms = texts ls) (hns : NeatAll (a + width (texts ls)) ns) :
    NeatAll a (ms ++ ns) :=
  neatAll_append.2 ⟨hms, by rwa [hprint]⟩

theorem PropertyParts.neat {ls : List Lexeme} {ns : List Node} (h : PropertyParts ls ns) {a : Nat}
    (hls : SitAll a ls) : NeatAll a ns := by
  induction h generalizing a with
  | nil => trivial
  | @word l ls ns _ _ ih =>
    obtain ⟨hl, hls⟩ := sitAll_cons.1 hls
    exact ⟨hl.neat_leaf (by decide) rfl, by rw [byteLength_leaf l rfl]; exact ih hls⟩
  | @interpolation mark close ms ls inside ns hmark hin hclose _ ih =>
    obtain ⟨hm, hms⟩ := sitAll_cons.1 hls
    obtain ⟨hms, hc⟩ := sitAll_append.1 hms
    obtain ⟨hc, hls⟩ := sitAll_cons.1 hc
    have hmarks : SitAll a (Opening.interpolation mark).marks := sitAll_cons.2 ⟨hm, trivial, nofun⟩
    have hprint := hin.print hms.genuine
    have hwidth : a + width (texts (Opening.interpolation mark).marks) = a + byteLength mark.text := by
      simp [Opening.marks, byteLength]
    refine ⟨Opening.neat (o := .interpolation mark) hmark hclose hmarks ?_ ?_, ?_⟩
    · rw [hwidth]
      exact (hin.neat hms).standAll
    · rwa [hwidth, hprint]
    · rw [Opening.byteLength_node (o := .interpolation mark) hmark hclose hmarks.genuine hc.genuine,
        hprint]
      simpa [Opening.marks, byteLength, Nat.add_assoc] using ih hls

theorem Property.neat {ls : List Lexeme} {n : Node} (h : Property ls n) {a : Nat}
    (hls : SitAll a ls) : n.Neat a := by
  cases h with
  | @ofVariable l ht =>
    have hl := (sitAll_cons.1 hls).1
    have hi : l.item? = some (l.inner .variable 1 0) := by simp only [item?, ht]
    refine neat_single (by decide) rfl (hl.neat_item hi).stands ?_
    rw [byteLength_item hl.genuine hi]
    exact hl.span
  | ofParts hp hne =>
    exact neat_of_children (by decide) rfl (hp.neat hls).standAll (spanOf_eq (hp.neat hls) hne)

/-- Lexemes that become leaves one by one. -/
theorem neatAll_map {f : Lexeme → Node} {a : Nat} {ls : List Lexeme} (hls : SitAll a ls)
    (hf : ∀ l ∈ ls, l.item? = some (f l)) : NeatAll a (ls.map f) := by
  induction ls generalizing a with
  | nil => trivial
  | cons l ls ih =>
    obtain ⟨hl, hls⟩ := sitAll_cons.1 hls
    have hi := hf l List.mem_cons_self
    refine ⟨hl.neat_item hi, ?_⟩
    rw [byteLength_item hl.genuine hi]
    exact ih hls fun m hm => hf m (List.mem_cons_of_mem _ hm)

theorem item?_space {l : Lexeme} (h : l.token = .space) : l.item? = some l.trivia := by
  simp only [item?, h]

theorem item?_flagOrBlank {l : Lexeme} (h : l.token = .flag ∨ l.token = .space) :
    l.item? = some (flagOrBlank l) := by
  rcases h with h | h <;> simp [flagOrBlank, item?, h]

theorem Pieces.Fits.before_neat {p : Pieces} {name items : List Lexeme} (h : p.Fits name items)
    {a : Nat} (hls : SitAll a (p.toFront.lexemes name)) : NeatAll a p.before := by
  obtain ⟨hname, hls⟩ := sitAll_append.1 hls
  obtain ⟨hblanks, hls⟩ := sitAll_append.1 hls
  obtain ⟨hcolon, hblank⟩ := sitAll_cons.1 hls
  have hproperty : printed [p.property] = texts name := by simp [h.property.print hname.genuine]
  have hspaces : printed (p.blanks.map Lexeme.trivia) = texts p.blanks :=
    printed_map fun l hl => space_print (h.blanks l hl)
  have hmark : printed [p.colon.leaf .punctuation] = texts [p.colon] := by
    simp [leaf_print p.colon (k := .punctuation) rfl]
  have hblank' : ∀ l ∈ p.blank, l.token = .space := by
    rcases h.blank with ⟨hb, -⟩ | ⟨m, hb, hm⟩ <;> simp_all
  rw [Pieces.before, List.append_assoc, List.cons_append, ← List.singleton_append]
  refine neatAll_join ⟨h.property.neat hname, trivial⟩ hproperty ?_
  refine neatAll_join (neatAll_map hblanks fun l hl => item?_space (h.blanks l hl)) hspaces ?_
  refine neatAll_join ⟨hcolon.neat_leaf (by decide) rfl, trivial⟩ hmark ?_
  simpa [byteLength] using neatAll_map hblank fun l hl => item?_space (hblank' l hl)

/-- The children of a declaration. -/
def Pieces.children (p : Pieces) : List Node :=
  p.before ++ .sequence .value p.value (some (spanOf p.value)) :: p.behind

theorem Pieces.children_eq (p : Pieces) :
    p.children = p.parts ++ (p.semicolon.map fun l => l.leaf .punctuation).toList := by
  simp [Pieces.children, Pieces.before, Pieces.behind, Pieces.parts]

/-- A declaration reaches from its start to its last child. -/
theorem Pieces.node_eq_children (p : Pieces) : p.node = .sequence .declaration p.children
    (some ⟨p.start, ((p.children.getLast?.bind Node.span).map Span.stop).getD p.start⟩) := by
  rw [Pieces.children_eq]
  unfold Pieces.node
  cases hs : p.semicolon with
  | none => simp
  | some l => simp [Node.span, Lexeme.leaf]

theorem Pieces.Fits.behind_neat {p : Pieces} {name items ts : List Lexeme} (h : p.Fits name items)
    (hts : Items .declaration ts p.trailing) {a : Nat}
    (hls : SitAll a (ts ++ (p.flags ++ p.semicolon.toList))) : NeatAll a p.behind := by
  obtain ⟨htrailing, hls⟩ := sitAll_append.1 hls
  obtain ⟨hflags, hsemi⟩ := sitAll_append.1 hls
  have hflag : ∀ l ∈ p.flags, l.item? = some (flagOrBlank l) := fun l hl =>
    item?_flagOrBlank (h.flags l hl)
  have hprint : printed (p.flags.map flagOrBlank) = texts p.flags :=
    printed_map fun l hl => item?_print (hflags.genuine l hl) (hflag l hl)
  rw [Pieces.behind, List.append_assoc]
  refine neatAll_join (hts.neat htrailing) (hts.print htrailing.genuine) ?_
  refine neatAll_join (neatAll_map hflags hflag) hprint ?_
  cases hs : p.semicolon with
  | none => trivial
  | some l =>
    rw [hs] at hsemi
    exact ⟨(sitAll_cons.1 hsemi).1.neat_leaf (by decide) rfl, trivial⟩

/-- **A declaration** stands where its lexemes do. -/
theorem Pieces.Fits.neat {p : Pieces} {name items : List Lexeme} (h : p.Fits name items) {a : Nat}
    (hls : SitAll a (p.lexemes name items)) : p.node.Neat a := by
  obtain ⟨vs, ts, rfl, hvs, hts⟩ := h.split
  have hstart : p.start = a := by
    obtain ⟨l, ls, rfl⟩ := List.exists_cons_of_ne_nil h.property.ne_nil
    rw [h.start l rfl, (sitAll_cons.1 hls).1.span]
  obtain ⟨hbefore, hls⟩ := sitAll_append.1 hls
  rw [List.append_assoc] at hls
  obtain ⟨hvalue, hbehind⟩ := sitAll_append.1 hls
  have hv : (Node.sequence .value p.value (some (spanOf p.value))).Neat
      (a + width (texts (p.toFront.lexemes name))) :=
    neat_of_children (by decide) rfl (hvs.neat hvalue).standAll
      (spanOf_eq (hvs.neat hvalue) h.value)
  have hprint : byteLength (Node.sequence .value p.value (some (spanOf p.value))).print =
      width (texts vs) := by
    rw [byteLength_print_sequence, hvs.print hvalue.genuine]
    simp [Kind.marks, byteLength]
  have hchildren : NeatAll a p.children := by
    refine neatAll_join (h.before_neat hbefore) (h.before_print fun l hl => ?_) ⟨hv, ?_⟩
    · exact hbefore.genuine l (List.mem_append_left _ hl)
    · rw [hprint]
      exact h.behind_neat hts hbehind
  have hne : p.children ≠ [] := by simp [Pieces.children]
  rw [p.node_eq_children, hchildren.stop hne, hstart]
  exact neat_of_children (by decide) rfl hchildren.standAll rfl

end Parse
end Stylesheet
