import Stylesheet.Proofs.Number.Groups

/-!
# The numbers of a tree

Every number of a syntax tree is the text of a number among the lexemes of its source, so the
evaluation can read it.

* `Node.Drawn`: the numbers of nodes are numbers among some lexemes.
* `Statements.drawn`: the numbers of statements are drawn from their lexemes.
* `Node.Legible`, `legible_of_parse`: all numbers of the tree of a source can be read.
-/

namespace Stylesheet

open Lexeme Node

namespace Node

/-! ### Numbers from lexemes -/

/-- The numbers among some nodes and below them are numbers among some lexemes. -/
def Drawn (ls : List Lexeme) (ns : List Node) : Prop :=
  ∀ text span, leaf .number text span ∈ nodesAll ns → ∃ l ∈ ls, l.token = .number ∧ l.text = text

variable {ls ms : List Lexeme} {ns : List Node}

theorem Drawn.mono (h : Drawn ls ns) (hsub : ls ⊆ ms) : Drawn ms ns := by
  intro text span hmem
  obtain ⟨l, hl, htext⟩ := h text span hmem
  exact ⟨l, hsub hl, htext⟩

@[simp] theorem drawn_nil : Drawn ls [] := nofun

theorem drawn_cons {n : Node} : Drawn ls (n :: ns) ↔ Drawn ls [n] ∧ Drawn ls ns := by
  have hone : nodesAll [n] = n.nodes := List.append_nil _
  unfold Drawn
  rw [nodesAll, hone]
  simp only [List.mem_append, or_imp, forall_and]

theorem drawn_append {ns' : List Node} : Drawn ls (ns ++ ns') ↔ Drawn ls ns ∧ Drawn ls ns' := by
  induction ns with
  | nil => simp
  | cons n ns ih =>
    have hcons : Drawn ls (n :: ns) ↔ Drawn ls [n] ∧ Drawn ls ns := drawn_cons
    rw [List.cons_append, drawn_cons, ih, hcons, and_assoc]

/-- A leaf of another kind is no number. -/
theorem drawn_leaf {k : Kind} (hk : k ≠ .number) (text : String) (span : Option Span) :
    Drawn ls [leaf k text span] := by
  intro text' span' hmem
  obtain heq := List.mem_singleton.1 hmem
  cases heq
  exact absurd rfl hk

/-- The numbers of a node with children are those of its children. -/
theorem drawn_sequence {k : Kind} {span : Option Span} (h : Drawn ls ns) :
    Drawn ls [sequence k ns span] := by
  intro text span' hmem
  rw [nodesAll, nodes, nodesAll, List.append_nil, List.mem_cons] at hmem
  rcases hmem with heq | hmem
  · cases heq
  · exact h text span' hmem

theorem drawn_single {k : Kind} {n : Node} {span : Option Span} (h : Drawn ls [n]) :
    Drawn ls [single k n span] := by
  intro text span' hmem
  rw [nodesAll, nodes, nodesAll, List.append_nil, List.mem_cons] at hmem
  rcases hmem with heq | hmem
  · cases heq
  · exact h text span' (by rwa [nodesAll, nodesAll, List.append_nil])

theorem drawn_map {f : Lexeme → Node} (hf : ∀ l, Drawn ls [f l]) (ms : List Lexeme) :
    Drawn ls (ms.map f) := by
  induction ms with
  | nil => exact drawn_nil
  | cons m ms ih => exact drawn_cons.2 ⟨hf m, ih⟩

end Node

namespace Lexeme

theorem drawn_trivia {ls : List Lexeme} (l : Lexeme) : Drawn ls [l.trivia] := by
  unfold trivia
  split <;> exact drawn_leaf (by decide) _ _

/-- A lexeme that is an item by itself is a number only if its token is one. -/
theorem drawn_item {l : Lexeme} {n : Node} (hn : l.item? = some n) : Drawn [l] [n] := by
  obtain ⟨t, text, span⟩ := l
  cases t <;> simp only [item?, reduceCtorEq, Option.some.injEq] at hn <;> subst hn
  case space | lineComment | blockComment => exact drawn_trivia _
  case number =>
    intro text' span' hmem
    obtain heq := List.mem_singleton.1 hmem
    cases heq
    exact ⟨_, List.mem_singleton_self _, rfl, rfl⟩
  all_goals exact drawn_leaf (by decide) _ _

end Lexeme

namespace Parse

/-! ### Numbers of statements -/

theorem Opening.drawn {o : Opening} {ls : List Lexeme} {inside : List Node} (close : Lexeme)
    (h : Drawn ls inside) : Drawn ls [o.node inside close] := by
  cases o with
  | parentheses m | interpolation m => exact drawn_sequence h
  | call n m =>
    exact drawn_sequence (drawn_cons.2 ⟨drawn_leaf (by decide) _ _, drawn_sequence h⟩)

theorem Items.drawn {stop : Stop} {ls : List Lexeme} {ns : List Node} (h : Items stop ls ns) :
    Drawn ls ns := by
  induction h with
  | nil => exact drawn_nil
  | @leaf stop l n ls ns _ hn _ _ ih =>
    have hone : Drawn (l :: ls) [n] := (drawn_item hn).mono (by simp)
    exact drawn_cons.2 ⟨hone, ih.mono (by simp)⟩
  | @bracket stop o ms ls inside ns close _ _ _ _ ih₁ ih₂ =>
    refine drawn_cons.2 ⟨Opening.drawn close (ih₁.mono fun l hl => ?_), ih₂.mono fun l hl => ?_⟩
    · simp [hl]
    · simp [hl]

theorem PropertyParts.drawn {ls : List Lexeme} {ns : List Node} (h : PropertyParts ls ns) :
    Drawn ls ns := by
  induction h with
  | nil => exact drawn_nil
  | word _ _ ih => exact drawn_cons.2 ⟨drawn_leaf (by decide) _ _, ih.mono (by simp)⟩
  | interpolation _ hi _ _ ih =>
    refine drawn_cons.2 ⟨Opening.drawn _ (hi.drawn.mono fun l hl => ?_), ih.mono fun l hl => ?_⟩
    · simp [hl]
    · simp [hl]

theorem Property.drawn {ls : List Lexeme} {n : Node} (h : Property ls n) : Drawn ls [n] := by
  cases h with
  | ofVariable _ => exact drawn_single (drawn_leaf (by decide) _ _)
  | ofParts hp _ => exact drawn_sequence hp.drawn

/-- **A declaration** has the numbers of its left side and of its items. -/
theorem Pieces.Fits.drawn {p : Pieces} {name its : List Lexeme} (h : p.Fits name its) :
    Drawn (p.lexemes name its) [p.node] := by
  have hname : name ⊆ p.lexemes name its := fun l hl => by simp [Pieces.lexemes, Front.lexemes, hl]
  have hits : its ⊆ p.lexemes name its := fun l hl => by simp [Pieces.lexemes, hl]
  have hproperty := h.property.drawn.mono hname
  have hfound : Drawn (p.lexemes name its) (p.value ++ p.trailing) := by
    rw [p.value_append]
    exact h.items.drawn.mono hits
  obtain ⟨hvalue, htrailing⟩ := drawn_append.1 hfound
  have hflag (l : Lexeme) : Drawn (p.lexemes name its) [flagOrBlank l] := by
    unfold flagOrBlank
    split
    · exact drawn_leaf (by decide) _ _
    · exact drawn_trivia l
  have hsemicolon : Drawn (p.lexemes name its)
      (p.semicolon.map fun l => l.leaf .punctuation).toList := by
    cases p.semicolon with
    | none => exact drawn_nil
    | some l => exact drawn_leaf (by decide) _ _
  obtain ⟨span, hnode⟩ := p.node_eq
  rw [hnode]
  refine drawn_sequence (drawn_append.2 ⟨?_, drawn_cons.2 ⟨drawn_sequence hvalue, ?_⟩⟩)
  · -- the name, blanks, the colon and the blank behind it
    have hblanks (bs : List Lexeme) : Drawn (p.lexemes name its) (bs.map trivia) :=
      drawn_map drawn_trivia bs
    have hcolon : Drawn (p.lexemes name its) [p.colon.leaf .punctuation] :=
      drawn_leaf (by decide) _ _
    have hfront := drawn_append.2 ⟨drawn_cons.2 ⟨hproperty, hblanks p.blanks⟩, hcolon⟩
    exact drawn_append.2 ⟨hfront, hblanks p.blank⟩
  · exact drawn_append.2 ⟨drawn_append.2 ⟨htrailing, drawn_map hflag _⟩, hsemicolon⟩

theorem Whole.drawn {next : Option Lexeme} {read : List Lexeme} {n : Node} (h : Whole next read n) :
    Drawn read [n] := by
  cases h with
  | trivia _ => exact drawn_trivia _
  | semicolon _ => exact drawn_leaf (by decide) _ _
  | declaration hfit _ => exact hfit.drawn
  | atRule _ hps _ =>
    refine drawn_sequence (drawn_cons.2 ⟨drawn_leaf (by decide) _ _, drawn_append.2 ⟨?_, ?_⟩⟩)
    · exact hps.drawn.mono fun l hl => by simp [hl]
    · exact drawn_leaf (by decide) _ _
  | openAtRule _ hps _ =>
    refine drawn_sequence (drawn_cons.2 ⟨drawn_leaf (by decide) _ _, ?_⟩)
    exact hps.drawn.mono fun l hl => by simp [hl]

/-- A statement with its block has the numbers of what stands before the block, and those inside. -/
theorem Headed.drawn {read ms : List Lexeme} {head : Head} (h : Headed read head)
    {inside : List Node} (hin : Drawn ms inside) (close : Lexeme) :
    Drawn (read ++ ms) [head.withBlock inside close] := by
  have hblock : Drawn (read ++ ms) inside := hin.mono (List.subset_append_right _ _)
  cases h with
  | @rule before brace _ _ _ =>
    have hselector : Drawn (before ++ [brace] ++ ms) [Head.selectorNode before] := by
      unfold Head.selectorNode
      split <;> exact drawn_leaf (by decide) _ _
    exact drawn_sequence (drawn_cons.2 ⟨hselector, drawn_sequence hblock⟩)
  | atRule _ hps _ =>
    refine drawn_sequence (drawn_cons.2 ⟨drawn_leaf (by decide) _ _, drawn_append.2 ⟨?_, ?_⟩⟩)
    · exact hps.drawn.mono fun l hl => by simp [hl]
    · exact drawn_sequence hblock

/-- **The numbers of statements** are drawn from their lexemes. -/
theorem Statements.drawn {next : Option Lexeme} {ls : List Lexeme} {ns : List Node}
    (h : Statements next ls ns) : Drawn ls ns := by
  induction h with
  | nil => exact drawn_nil
  | whole hw _ ih =>
    refine drawn_cons.2 ⟨hw.drawn.mono fun l hl => ?_, ih.mono fun l hl => ?_⟩
    · simp [hl]
    · simp [hl]
  | block hh _ _ _ ih₁ ih₂ =>
    refine drawn_cons.2 ⟨(hh.drawn ih₁ _).mono fun l hl => ?_, ih₂.mono fun l hl => ?_⟩
    · rcases List.mem_append.1 hl with hl | hl <;> simp [hl]
    · simp [hl]

end Parse

/-! ### Numbers of sources -/

/-- **The numbers of a tree** are numbers among the lexemes of its source. -/
theorem drawn_of_parse {source : String} {tree : Node} (h : parse source = .ok tree) :
    ∃ ls, tokenize source = .ok ls ∧ Drawn ls [tree] := by
  obtain ⟨ls, ns, hls, hstm, rfl⟩ := parse_iff.1 h
  exact ⟨ls, hls, drawn_sequence hstm.drawn⟩

/-- All numbers of a tree can be read. -/
def Node.Legible (n : Node) : Prop :=
  ∀ text span, leaf .number text span ∈ n.nodes → (Number.literal? text).isSome = true

theorem Node.Legible.child {n m : Node} (h : n.Legible) (hm : m ∈ n.children) : m.Legible := by
  intro text span hmem
  refine h text span ?_
  rw [nodes_eq]
  exact List.mem_cons_of_mem _ (nodesAll_subset (mem_nodesAll hm) hmem)

/-- **All numbers of the tree of a source** can be read. -/
theorem legible_of_parse {source : String} {tree : Node} (h : parse source = .ok tree) :
    tree.Legible := by
  obtain ⟨ls, hls, hdrawn⟩ := drawn_of_parse h
  intro text span hmem
  have hmem' : leaf .number text span ∈ nodesAll [tree] := by rwa [nodesAll, nodesAll, List.append_nil]
  obtain ⟨l, hl, ht, rfl⟩ := hdrawn text span hmem'
  have hgenuine : l.token.pattern.Matches l.text.toList := (genuine_of_tokenize hls).1 l hl
  rw [ht] at hgenuine
  obtain ⟨g, hreads⟩ := Number.reads_of_matches hgenuine
  obtain ⟨x, -, hliteral⟩ := hreads.literal
  rw [hliteral]
  rfl

end Stylesheet
