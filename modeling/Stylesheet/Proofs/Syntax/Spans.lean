import Stylesheet.Proofs.Syntax.Standing

/-!
# Spans of nodes

Statements stand where their lexemes do, and with them every node of the tree of a source: the
span of a node is where its text stands in the source, empty selectors left aside.

* `Statements.stand`: the statements of a source stand in it.
* `Node.Abut`: spans one right after the other.
* `spans_of_parse`: the spans of all nodes of a tree.
-/

namespace Stylesheet
namespace Parse

open Node Lexeme

/-! ### Statements -/

/-- An at-rule without a block stands where its keyword and its parts do. -/
theorem neat_blockless {keyword : Lexeme} (ht : keyword.token = .atKeyword) {a : Nat}
    (hk : keyword.Sits a) {parts : List Node} (hparts : NeatAll (a + byteLength keyword.text) parts)
    {stop : Nat} (hstop : stop = a + byteLength keyword.text + width (printed parts)) :
    (blockless keyword parts stop).Neat a := by
  have hi : keyword.item? = some (keyword.inner .atKeyword 1 0) := by simp only [item?, ht]
  have hwidth := byteLength_item hk.genuine hi
  refine neat_of_children (by decide) rfl ⟨(hk.neat_item hi).stands, ?_⟩ ?_
  · rw [hwidth]
    exact hparts.standAll
  · rw [hk.span, hstop, width_printed_cons, hwidth, Nat.add_assoc]

/-- The offset at which an open at-rule ends. -/
theorem openStop_eq {keyword : Lexeme} (ht : keyword.token = .atKeyword) {a : Nat}
    (hk : keyword.Sits a) {params : List Node}
    (hparams : NeatAll (a + byteLength keyword.text) params) {next : Option Lexeme}
    (hnext : ∀ l ∈ next, l.span.start = a + byteLength keyword.text + width (printed params)) :
    openStop keyword params next = a + byteLength keyword.text + width (printed params) := by
  cases next with
  | some l => exact hnext l rfl
  | none =>
    have hi : keyword.item? = some (keyword.inner .atKeyword 1 0) := by simp only [item?, ht]
    have hwidth := byteLength_item hk.genuine hi
    have hall : NeatAll a (keyword.inner .atKeyword 1 0 :: params) :=
      ⟨hk.neat_item hi, by rwa [hwidth]⟩
    rw [openStop, hall.stop (List.cons_ne_nil _ _), Option.getD_some, add_printed_cons, hwidth]

theorem Whole.neat {next : Option Lexeme} {read : List Lexeme} {n : Node} (h : Whole next read n)
    {a : Nat} (hls : SitAll a read) (hnext : ∀ l ∈ next, l.span.start = a + width (texts read)) :
    n.Neat a := by
  cases h with
  | @trivia l ht =>
    refine (sitAll_cons.1 hls).1.neat_item ?_
    obtain ⟨t, text, span⟩ := l
    cases t <;> simp_all [Token.isTrivia, item?]
  | @semicolon l ht => exact (sitAll_cons.1 hls).1.neat_leaf (by decide) rfl
  | declaration hfit _ => exact hfit.neat hls
  | @atRule keyword semi ps params ht hps hsemi =>
    obtain ⟨hk, hls⟩ := sitAll_cons.1 hls
    obtain ⟨hparams, hs⟩ := sitAll_append.1 hls
    have hs := (sitAll_cons.1 hs).1
    have hprint := hps.print hparams.genuine
    have hwidth := byteLength_leaf semi (k := .punctuation) rfl
    have hmark := neatAll_singleton.2 (hs.neat_leaf (k := .punctuation) (by decide) rfl)
    refine neat_blockless ht hk (neatAll_join (hps.neat hparams) hprint hmark) ?_
    rw [hs.span, printed_append, width_append, hprint, width_printed_cons, hwidth, printed_nil,
      width_nil]
    simp only
    omega
  | @openAtRule keyword ps params ht hps _ =>
    obtain ⟨hk, hparams⟩ := sitAll_cons.1 hls
    have hprint := hps.print hparams.genuine
    refine neat_blockless ht hk (hps.neat hparams) (openStop_eq ht hk (hps.neat hparams) ?_)
    rw [hprint]
    intro l hl
    rw [hnext l hl, add_texts_cons]

theorem neat_block {brace close : Lexeme} (hopen : brace.token = .openBrace)
    (hshut : close.token = .closeBrace) {a : Nat} {inside : List Node} (hb : brace.Sits a)
    (hin : StandAll (a + byteLength brace.text) inside)
    (hc : close.Sits (a + byteLength brace.text + width (printed inside))) :
    (Node.sequence .block inside (some ⟨brace.span.start, close.span.stop⟩)).Neat a := by
  have hbrace : brace.text = "\x7b" := String.toList_inj.1 (hb.genuine.fixed.2.2.1 hopen)
  have hclose : close.text = "\x7d" := String.toList_inj.1 (hc.genuine.fixed.2.2.2.1 hshut)
  exact neat_bracket (by decide) (by rw [hbrace, hclose]; rfl) hb hin hc

/-- A selector is one text from its first lexeme to its last. -/
theorem selectorNode_neat {ls : List Lexeme} (hne : ls ≠ []) {a : Nat} (hls : SitAll a ls) :
    (Head.selectorNode ls).Neat a := by
  have hprint := selectorNode_print ls
  have hstart : ∀ l ∈ ls.head?, l.span.start = a := hls.head?
  have hstop : ∀ l ∈ ls.getLast?, l.span.stop = a + width (texts ls) := hls.getLast?
  have hl := List.head?_eq_some_head hne
  have hm := List.getLast?_eq_some_getLast hne
  have hnode : Head.selectorNode ls =
      .leaf .selector (String.join (ls.map Lexeme.text))
        (some ⟨(ls.head hne).span.start, (ls.getLast hne).span.stop⟩) := by
    simp only [Head.selectorNode, hl, hm]
  rw [hnode] at hprint ⊢
  refine Node.neat_leaf (fun _ htext => ?_) ?_
  · have htexts : texts ls = [] := by
      rw [← hprint, htext]
      rfl
    obtain ⟨l, ls, rfl⟩ := List.exists_cons_of_ne_nil hne
    have hg := (sitAll_cons.1 hls).1.genuine
    rw [texts_cons, List.append_eq_nil_iff] at htexts
    rw [Genuine, htexts.1] at hg
    exact Token.not_matches_nil _ hg
  · rw [byteLength, hprint, hstart _ hl, hstop _ hm]

/-- A rule stands where its selector and its block do; without a selector its span starts at the
front of the source. -/
theorem stands_rule {ls : List Lexeme} {a : Nat} (hls : SitAll a ls) {block : Node}
    (hblock : block.Neat (a + width (texts ls))) {stop : Nat}
    (hstop : some stop = block.span.map Span.stop) :
    (Node.sequence .rule [Head.selectorNode ls, block]
      (some ⟨((Head.selectorNode ls).span.map Span.start).getD 0, stop⟩)).Stands a := by
  have hwidth : byteLength (Head.selectorNode ls).print = width (texts ls) := by
    rw [byteLength, selectorNode_print]
  have hprint (s : Option Span) :
      stop = a + byteLength (Node.sequence .rule [Head.selectorNode ls, block] s).print := by
    rw [hblock.span_eq] at hstop
    rw [Option.some.inj hstop, byteLength_print_sequence, width_printed_cons, width_printed_cons,
      hwidth]
    simp [Kind.marks, byteLength, Nat.add_assoc]
  have hinside : (Head.selectorNode ls).Stands a →
      StandAll (a + byteLength Kind.rule.marks.1) [Head.selectorNode ls, block] := by
    intro hsel
    refine ⟨hsel, ?_, trivial⟩
    rw [hwidth]
    exact hblock.stands
  by_cases hne : ls = []
  · subst hne
    have hun (s : Option Span) :
        (Node.sequence .rule [Head.selectorNode [], block] s).unheaded = true := by
      simp [unheaded, is, kind, children, Head.selectorNode, isLeaf, text?]
    refine ⟨?_, hinside rfl⟩
    rw [placeAt, if_neg (by simp), if_pos (hun _), ← hprint]
    rfl
  · have hsel := selectorNode_neat hne hls
    have hun (s : Option Span) :
        (Node.sequence .rule [Head.selectorNode ls, block] s).unheaded = false := by
      simp [unheaded, children, (Bool.or_eq_false_iff.1 hsel.headed).1]
    refine ⟨?_, hinside hsel.stands⟩
    rw [placeAt, if_neg (by simp), if_neg (by simp [hun]), ← hprint, hsel.span_eq]
    rfl

theorem Headed.stand {read : List Lexeme} {head : Head} (h : Headed read head) {a : Nat}
    {inside : List Node} {close : Lexeme} (hclose : close.token = .closeBrace)
    (hread : SitAll a read) (hin : StandAll (a + width (texts read)) inside)
    (hc : close.Sits (a + width (texts read) + width (printed inside))) :
    (head.withBlock inside close).Stands a := by
  cases h with
  | @rule before brace _ hbrace _ =>
    obtain ⟨hbefore, hb⟩ := sitAll_append.1 hread
    have hb := (sitAll_cons.1 hb).1
    simp only [texts_append, texts_cons, texts_nil, List.append_nil, width_append,
      ← Nat.add_assoc] at hin hc
    have hblock := neat_block hbrace hclose hb hin hc
    exact stands_rule hbefore hblock rfl
  | @atRule keyword brace ps params ht hps hbrace =>
    obtain ⟨hk, hls⟩ := sitAll_cons.1 hread
    obtain ⟨hparams, hb⟩ := sitAll_append.1 hls
    have hb := (sitAll_cons.1 hb).1
    simp only [texts_append, texts_cons, texts_nil, List.append_nil, width_append,
      ← Nat.add_assoc] at hin hc
    have hblock := neat_block hbrace hclose hb hin hc
    have hprint := hps.print hparams.genuine
    have hi : keyword.item? = some (keyword.inner .atKeyword 1 0) := by simp only [item?, ht]
    have hwidth := byteLength_item hk.genuine hi
    have hparts := neatAll_join (hps.neat hparams) hprint (neatAll_singleton.2 hblock)
    rw [← hwidth] at hparts
    have hchildren := neatAll_cons.2 ⟨hk.neat_item hi, hparts⟩
    have hstop := hchildren.stop (by simp)
    simp only [← List.cons_append, List.getLast?_concat, Option.bind_some, Node.span,
      Option.map_some, Option.some.injEq] at hstop hchildren
    exact (neat_of_children (by decide) rfl hchildren.standAll (by rw [hk.span, ← hstop])).stands

theorem Statements.stand {next : Option Lexeme} {ls : List Lexeme} {ns : List Node}
    (h : Statements next ls ns) {a : Nat} (hls : SitAll a ls)
    (hnext : ∀ l ∈ next, l.span.start = a + width (texts ls)) : StandAll a ns := by
  induction h generalizing a with
  | nil => trivial
  | @whole next read ls n ns hw _ ih =>
    obtain ⟨hread, hls⟩ := sitAll_append.1 hls
    rw [texts_append, width_append, ← Nat.add_assoc] at hnext
    refine ⟨(hw.neat hread ?_).stands, ?_⟩
    · intro l hl
      cases ls with
      | nil => exact hnext l hl
      | cons m ls =>
        obtain rfl := Option.some.inj hl
        rw [(sitAll_cons.1 hls).1.span]
    · rw [byteLength, hw.print hread.genuine]
      exact ih hls hnext
  | @block next read ms ls head inside ns close hh hin hclose _ ih₁ ih₂ =>
    obtain ⟨hread, hms⟩ := sitAll_append.1 hls
    obtain ⟨hms, hc⟩ := sitAll_append.1 hms
    obtain ⟨hc, hls⟩ := sitAll_cons.1 hc
    have hprint := hin.print hms.genuine
    refine ⟨hh.stand hclose hread (ih₁ hms ?_) (by rwa [hprint]), ?_⟩
    · intro l hl
      obtain rfl := Option.some.inj hl
      rw [hc.span]
    · rw [byteLength, hh.print hread.genuine hc.genuine hclose, hprint]
      simp only [width_append, ← Nat.add_assoc]
      refine ih₂ hls ?_
      simpa [byteLength, Nat.add_assoc] using hnext

end Parse

/-! ### All nodes -/

namespace Node

mutual

/-- A node that stands in a source does so with all below it. -/
theorem Stands.nodes {source : String} : {a : Nat} → (n : Node) → n.Stands a →
    Holds source a n.print → ∀ m ∈ n.nodes, ∃ b, m.Stands b ∧ Holds source b m.print
  | a, leaf k t s, h, hh => by
    intro m hm
    obtain rfl := List.mem_singleton.1 hm
    exact ⟨a, h, hh⟩
  | a, single k c s, h, hh => by
    intro m hm
    rcases List.mem_cons.1 hm with rfl | hm
    · exact ⟨a, h, hh⟩
    · exact h.2.nodes c (Holds.right (Holds.left hh)) m hm
  | a, sequence k cs s, h, hh => by
    intro m hm
    rcases List.mem_cons.1 hm with rfl | hm
    · exact ⟨a, h, hh⟩
    · exact StandAll.nodes cs h.2 (Holds.right (Holds.left hh)) m hm

theorem StandAll.nodes {source : String} : {a : Nat} → (ns : List Node) → StandAll a ns →
    Holds source a (printAll ns) → ∀ m ∈ nodesAll ns, ∃ b, m.Stands b ∧ Holds source b m.print
  | _, [], _, _ => nofun
  | a, n :: ns, h, hh => by
    intro m hm
    rcases List.mem_append.1 hm with hm | hm
    · exact Stands.nodes n h.1 (Holds.left hh) m hm
    · exact StandAll.nodes ns h.2 (Holds.right hh) m hm

end

/-- The spans of the nodes, one right after the other, reach from the first offset to the second. -/
def Abut : Nat → List Node → Nat → Prop
  | start, [], stop => start = stop
  | start, n :: ns, stop =>
      ∃ next, n.span = some ⟨start, next⟩ ∧ start ≤ next ∧ Abut next ns stop

theorem StandAll.abut {a : Nat} {ns : List Node} (h : StandAll a ns)
    (hns : ∀ n ∈ ns, n.unheaded = false) : Abut a ns (a + width (printed ns)) := by
  induction ns generalizing a with
  | nil => exact (Nat.add_zero a).symm
  | cons n ns ih =>
    have hn : n.Neat a := ⟨h.1, hns n List.mem_cons_self⟩
    rw [add_printed_cons]
    exact ⟨_, hn.span_eq, Nat.le_add_right _ _, ih h.2 fun m hm => hns m (List.mem_cons_of_mem _ hm)⟩

/-- The children of a node stand inside it. -/
theorem Stands.children_abut {a : Nat} {n : Node} (h : n.Stands a)
    (hc : ∀ c ∈ n.children, c.unheaded = false) :
    ∃ start stop, a ≤ start ∧ Abut start n.children stop ∧ stop ≤ a + byteLength n.print := by
  cases n with
  | leaf k t s => exact ⟨a, a, Nat.le_refl _, rfl, Nat.le_add_right _ _⟩
  | single k c s =>
    have hchild : StandAll (a + byteLength k.marks.1) [c] := ⟨h.2, trivial⟩
    refine ⟨_, _, Nat.le_add_right a (byteLength k.marks.1), hchild.abut hc, ?_⟩
    rw [width_printed_cons, printed_nil, width_nil, print, Kind.wrap, byteLength_append,
      byteLength_append]
    omega
  | sequence k cs s =>
    refine ⟨_, _, Nat.le_add_right a (byteLength k.marks.1), h.2.abut hc, ?_⟩
    rw [byteLength_print_sequence]
    omega

end Node

theorem stands_of_parse {source : String} {t : Node} (h : parse source = .ok t) : t.Stands 0 := by
  obtain ⟨ls, ns, hls, hstm, rfl⟩ := parse_iff.1 h
  have hsit := Lexeme.sitAll_of_tokenize hls
  have hns : Node.StandAll 0 ns := hstm.stand hsit nofun
  refine (Node.neat_of_children (by decide) rfl hns ?_).stands
  rw [Span.mk.injEq, Nat.zero_add, hstm.print hsit.genuine, (Lexeme.genuine_of_tokenize hls).2]
  exact ⟨rfl, rfl⟩

/-- Every node of the tree of a source stands somewhere in it. -/
theorem node_stands_of_parse {source : String} {t n : Node} (h : parse source = .ok t)
    (hn : n ∈ t.nodes) : ∃ a, n.Stands a ∧ Holds source a n.print := by
  have hsource : t.print = source := String.toList_inj.1 (toList_print_of_parse h)
  exact (stands_of_parse h).nodes t ⟨"", "", by simp [hsource], rfl⟩ n hn

/-- **Spans are exact**, but for empty selectors. Each node of the tree of a source prints what
stands at some place of the source, and this place is its span. Only a selector without text has
no span, and the span of a rule with such a selector starts at the front of the source. Children
with exact spans stand one right after the other inside their parent. -/
theorem spans_of_parse {source : String} {t : Node} (h : parse source = .ok t) :
    ∀ n ∈ t.nodes, ∃ s : Span, s.start ≤ s.stop ∧ s.stop ≤ byteLength source ∧
      s.Reads source n.print ∧
      n.span = (if n.isLeaf .selector "" then none
        else if n.unheaded then some ⟨0, s.stop⟩ else some s) ∧
      ((∀ c ∈ n.children, c.unheaded = false) →
        ∃ start stop, s.start ≤ start ∧ Node.Abut start n.children stop ∧ stop ≤ s.stop) := by
  intro n hn
  obtain ⟨a, hstands, hholds⟩ := node_stands_of_parse h hn
  have hreads := hholds.reads
  exact ⟨_, hreads.bounds.1, hreads.bounds.2, hreads, hstands.span_eq, hstands.children_abut⟩

/-- A rule, a function, an interpolation, a flag and a comment, all with exact spans. -/
theorem spans_of_parse_sample : ∃ t,
    parse ".a > é \x7b b: f(1, #\x7b$c\x7d) !d \x7d // e" = .ok t ∧
      ∀ n ∈ t.nodes, ∃ s, n.span = some s ∧
        s.Reads ".a > é \x7b b: f(1, #\x7b$c\x7d) !d \x7d // e" n.print := by
  have hheaded : (match parse ".a > é \x7b b: f(1, #\x7b$c\x7d) !d \x7d // e" with
      | .ok t => t.nodes.all fun n => !n.isLeaf .selector "" && !n.unheaded
      | .error _ => false) = true := by decide +kernel
  cases hp : parse ".a > é \x7b b: f(1, #\x7b$c\x7d) !d \x7d // e" with
  | error e => rw [hp] at hheaded; cases hheaded
  | ok t =>
    refine ⟨t, rfl, fun n hn => ?_⟩
    rw [hp] at hheaded
    have hn' := List.all_eq_true.1 hheaded n hn
    simp only [Bool.and_eq_true, Bool.not_eq_true'] at hn'
    obtain ⟨s, -, -, hreads, hspan, -⟩ := spans_of_parse hp n hn
    rw [hn'.1, hn'.2] at hspan
    exact ⟨s, hspan, hreads⟩

/-- The second rule has no selector, and its span starts before the first. -/
theorem spans_counterexample : ∃ t n, parse "a\x7b\x7d\x7b\x7d" = .ok t ∧ n ∈ t.nodes ∧
    ¬ ∃ s, n.span = some s ∧ s.Reads "a\x7b\x7d\x7b\x7d" n.print := by
  have hrule : (match parse "a\x7b\x7d\x7b\x7d" with
      | .ok t => t.nodes.any fun n => n.span == some ⟨0, 5⟩ && n.print == "\x7b\x7d"
      | .error _ => false) = true := by decide +kernel
  cases hp : parse "a\x7b\x7d\x7b\x7d" with
  | error e => rw [hp] at hrule; cases hrule
  | ok t =>
    rw [hp] at hrule
    obtain ⟨n, hn, hspan⟩ := List.any_eq_true.1 hrule
    simp only [Bool.and_eq_true, beq_iff_eq] at hspan
    refine ⟨t, n, rfl, hn, ?_⟩
    rintro ⟨s, hs, -, hstop⟩
    obtain rfl := Option.some.inj (hspan.1.symm.trans hs)
    rw [hspan.2] at hstop
    exact absurd hstop (by decide)

end Stylesheet
