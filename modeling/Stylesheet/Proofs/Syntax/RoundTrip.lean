import Stylesheet.Proofs.Syntax.Lexing
import Stylesheet.Proofs.Syntax.Statements
import Stylesheet.Syntax.Print

/-!
# Print after parse

A tree that was read prints the source it was read from. Each lexeme goes into one node, which
prints the marks that the node leaves out; the nodes of a list print the lexemes of the list.

* `item?_print`: an item prints its lexeme.
* `Items.print`, `Pieces.Fits.print`, `Statements.print`: so do values, declarations and
  statements.
* `print_of_parse`: so does a source.
-/

namespace Stylesheet

open Pattern

/-! ### Texts of tokens -/

namespace Pattern

theorem matches_char_iff {c : Char} {s : List Char} : Matches (char c) s ↔ s = [c] := by
  rw [char, matches_one_iff]
  constructor
  · rintro ⟨d, rfl, hd⟩
    rw [beq_iff_eq.1 hd]
  · rintro rfl
    exact ⟨c, rfl, beq_self_eq_true c⟩

theorem matches_inOrder_cons {p : Pattern} {ps : List Pattern} {s : List Char} :
    Matches (inOrder (p :: ps)) s ↔ ∃ a b, s = a ++ b ∧ Matches p a ∧ Matches (inOrder ps) b := by
  cases ps with
  | nil =>
    constructor
    · exact fun h => ⟨s, [], (List.append_nil s).symm, h, .blank⟩
    · rintro ⟨a, b, rfl, ha, hb⟩
      rw [matches_blank_iff.1 hb, List.append_nil]
      exact ha
  | cons q qs => exact matches_seq_iff

theorem matches_literal_iff {t : String} {s : List Char} :
    Matches (literal t) s ↔ s = t.toList := by
  rw [literal]
  induction t.toList generalizing s with
  | nil => exact matches_blank_iff
  | cons c cs ih =>
    rw [List.map_cons, matches_inOrder_cons]
    constructor
    · rintro ⟨a, b, rfl, ha, hb⟩
      rw [matches_char_iff.1 ha, ih.1 hb]; rfl
    · rintro rfl
      exact ⟨[c], cs, rfl, matches_char_iff.2 rfl, ih.2 rfl⟩

/-- A repetition of a character ends with that character. -/
theorem matches_oneOrMore_char {c : Char} {s : List Char} (h : Matches (oneOrMore (char c)) s) :
    ∃ a, s = a ++ [c] := by
  obtain ⟨a, b, rfl, ha, hb⟩ := matches_seq_iff.1 h
  obtain rfl := matches_char_iff.1 ha
  clear h
  generalize hp : many (char c) = p at hb
  have hall : ∀ d ∈ b, d = c := by
    induction hb with
    | done => simp
    | @more q s t hs _ _ ih =>
      obtain rfl : char c = q := by simpa using hp
      obtain rfl := matches_char_iff.1 hs
      simpa using ih hp
    | _ => cases hp
  rcases List.eq_nil_or_concat b with rfl | ⟨b, d, rfl⟩
  · exact ⟨[], rfl⟩
  · obtain rfl := hall d (by simp)
    exact ⟨d :: b, by simp⟩

end Pattern

namespace Lexeme

/-- The text of a lexeme is one of its token. -/
def Genuine (l : Lexeme) : Prop := l.token.pattern.Matches l.text.toList

/-- The text of lexemes one after the other. -/
def texts (ls : List Lexeme) : List Char := spell (ls.map word)

@[simp] theorem texts_nil : texts [] = [] := rfl

@[simp] theorem texts_cons (l : Lexeme) (ls : List Lexeme) :
    texts (l :: ls) = l.text.toList ++ texts ls := rfl

@[simp] theorem texts_append (ls ms : List Lexeme) : texts (ls ++ ms) = texts ls ++ texts ms := by
  simp [texts, spell_append]

/-- **The lexemes of a source** are genuine, and their texts are the source. -/
theorem genuine_of_tokenize {source : String} {ls : List Lexeme} (h : tokenize source = .ok ls) :
    (∀ l ∈ ls, Genuine l) ∧ texts ls = source.toList := by
  obtain ⟨hc, hs⟩ := tokenize_iff.1 ⟨ls, h, rfl⟩
  exact ⟨fun l hl => hc.matches (word l) (List.mem_map_of_mem hl), hs⟩

/-- A leaf that leaves out the marks of its kind prints them. -/
theorem inner_print {k : Kind} {front back : Nat} {l : Lexeme} {mid : List Char}
    (h : l.text.toList = k.marks.1.toList ++ (mid ++ k.marks.2.toList))
    (hf : k.marks.1.toList.length = front) (hb : k.marks.2.toList.length = back) :
    (l.inner k front back).print.toList = l.text.toList := by
  have hmid : (l.text.toList.drop front).take (l.text.toList.length - front - back) = mid := by
    rw [h, ← hf, List.drop_left]
    simp only [List.length_append, hf, hb]
    rw [show front + (mid.length + back) - front - back = mid.length by omega, List.take_left]
  simp only [inner, Node.print, Kind.wrap, String.toList_append, String.toList_ofList, hmid]
  rw [h, List.append_assoc]

theorem leaf_print {k : Kind} (l : Lexeme) (h : k.marks = ("", "")) :
    (l.leaf k).print.toList = l.text.toList := by
  simp [leaf, Node.print, Kind.wrap, h]

/-- The kind of the leaf of a token that leaves marks of the text out. -/
def marked : Token → Option Kind
  | .variable => some .variable
  | .atKeyword => some .atKeyword
  | .hash => some .colorHex
  | .flag => some .flag
  | .stringDouble => some .stringDouble
  | .stringSingle => some .stringSingle
  | .lineComment => some .lineComment
  | .blockComment => some .blockComment
  | _ => none

theorem matches_lineComment {s : List Char} (h : Token.lineComment.pattern.Matches s) :
    ∃ mid, s = '/' :: '/' :: mid := by
  obtain ⟨a, b, rfl, ha, -⟩ := matches_seq_iff.1 h
  exact ⟨b, by rw [matches_literal_iff.1 ha]; simp⟩

theorem matches_blockComment {s : List Char} (h : Token.blockComment.pattern.Matches s) :
    ∃ mid, s = '/' :: '*' :: (mid ++ ['*', '/']) := by
  obtain ⟨a, b, rfl, ha, hb⟩ := matches_inOrder_cons.1 h
  obtain ⟨mid, c, rfl, -, hc⟩ := matches_inOrder_cons.1 hb
  obtain ⟨stars, d, rfl, hstars, hd⟩ := matches_inOrder_cons.1 hc
  obtain ⟨e, rfl⟩ := matches_oneOrMore_char hstars
  refine ⟨mid ++ e, ?_⟩
  rw [matches_literal_iff.1 ha, matches_char_iff.1 hd]
  simp

/-- **The marks that a leaf leaves out** stand in the text. -/
theorem Genuine.marks {l : Lexeme} (h : l.Genuine) {k : Kind} (hk : marked l.token = some k) :
    ∃ mid, l.text.toList = k.marks.1.toList ++ (mid ++ k.marks.2.toList) := by
  obtain ⟨t, text, span⟩ := l
  have hmark {c : Char} {ps : List Pattern} {cs : List Char}
      (h : (inOrder (char c :: ps)).Matches cs) : ∃ mid, cs = [c] ++ (mid ++ []) := by
    obtain ⟨a, b, rfl, ha, -⟩ := matches_inOrder_cons.1 h
    exact ⟨b, by rw [matches_char_iff.1 ha, List.append_nil]⟩
  have hquoted {c : Char} {cs : List Char} (h : (Token.quoted c).Matches cs) :
      ∃ mid, cs = [c] ++ (mid ++ [c]) := by
    obtain ⟨a, b, rfl, ha, hb⟩ := matches_inOrder_cons.1 h
    obtain ⟨mid, d, rfl, -, hd⟩ := matches_inOrder_cons.1 hb
    exact ⟨mid, by rw [matches_char_iff.1 ha, matches_char_iff.1 hd]⟩
  cases t <;> simp only [marked, reduceCtorEq, Option.some.injEq] at hk <;> subst hk
  case «variable» => exact hmark h
  case atKeyword => exact hmark h
  case hash => exact hmark (show (inOrder [char '#', _]).Matches _ from h)
  case flag => exact hmark (show (inOrder [char '!', _]).Matches _ from h)
  case stringDouble => exact hquoted h
  case stringSingle => exact hquoted h
  case lineComment =>
    obtain ⟨mid, hcs⟩ := matches_lineComment h
    exact ⟨mid, by rw [hcs]; simp [Kind.marks]⟩
  case blockComment =>
    obtain ⟨mid, hcs⟩ := matches_blockComment h
    exact ⟨mid, by rw [hcs]; simp [Kind.marks]⟩

/-- **An item prints its lexeme.** -/
theorem item?_print {l : Lexeme} {n : Node} (h : l.Genuine) (hn : l.item? = some n) :
    n.print.toList = l.text.toList := by
  have hinner {k : Kind} (hk : marked l.token = some k) :
      (l.inner k k.marks.1.toList.length k.marks.2.toList.length).print.toList = l.text.toList := by
    obtain ⟨mid, hmid⟩ := h.marks hk
    exact inner_print hmid rfl rfl
  obtain ⟨t, text, span⟩ := l
  cases t <;> simp only [item?, trivia, reduceCtorEq, Option.some.injEq] at hn <;> subst hn
  case space | number | operator | colon | comma | delimiter | ident => exact leaf_print _ rfl
  case «variable» => exact hinner (k := .variable) rfl
  case atKeyword => exact hinner (k := .atKeyword) rfl
  case hash => exact hinner (k := .colorHex) rfl
  case flag => exact hinner (k := .flag) rfl
  case stringDouble => exact hinner (k := .stringDouble) rfl
  case stringSingle => exact hinner (k := .stringSingle) rfl
  case lineComment => exact hinner (k := .lineComment) rfl
  case blockComment => exact hinner (k := .blockComment) rfl

/-- The tokens with one text only. -/
theorem Genuine.fixed {l : Lexeme} (h : l.Genuine) :
    (l.token = .openParen → l.text.toList = ['(']) ∧
    (l.token = .closeParen → l.text.toList = [')']) ∧
    (l.token = .openBrace → l.text.toList = ['\x7b']) ∧
    (l.token = .closeBrace → l.text.toList = ['\x7d']) ∧
    (l.token = .interpolationStart → l.text.toList = ['#', '\x7b']) := by
  refine ⟨?_, ?_, ?_, ?_, ?_⟩ <;> intro ht <;> rw [Genuine, ht] at h
  · exact matches_char_iff.1 h
  · exact matches_char_iff.1 h
  · exact matches_char_iff.1 h
  · exact matches_char_iff.1 h
  · exact matches_literal_iff.1 h

theorem trivia_print {l : Lexeme} (h : l.Genuine) (ht : l.token.isTrivia = true) :
    l.trivia.print.toList = l.text.toList := by
  refine item?_print h ?_
  obtain ⟨t, text, span⟩ := l
  cases t <;> simp_all [Token.isTrivia, item?]

theorem space_print {l : Lexeme} (h : l.token = .space) : l.trivia.print.toList = l.text.toList := by
  simp only [trivia, h]
  exact leaf_print l rfl

end Lexeme

/-! ### Print after parse -/

namespace Node

/-- The characters of trees one after the other. -/
def printed (ns : List Node) : List Char := (printAll ns).toList

@[simp] theorem printed_nil : printed [] = [] := rfl

@[simp] theorem printed_cons (n : Node) (ns : List Node) :
    printed (n :: ns) = n.print.toList ++ printed ns := by
  simp [printed, printAll]

@[simp] theorem printed_append (ms ns : List Node) : printed (ms ++ ns) = printed ms ++ printed ns := by
  simp [printed, printAll_append]

theorem print_sequence (k : Kind) (ns : List Node) (s : Option Span) :
    (Node.sequence k ns s).print.toList = k.marks.1.toList ++ (printed ns ++ k.marks.2.toList) := by
  simp [print, printed, Kind.wrap]

end Node

namespace Parse

open Node Lexeme

/-- Nodes that print their lexemes one by one. -/
theorem printed_map {f : Lexeme → Node} {ls : List Lexeme}
    (h : ∀ l ∈ ls, (f l).print.toList = l.text.toList) : printed (ls.map f) = texts ls := by
  induction ls with
  | nil => rfl
  | cons l ls ih =>
    rw [List.map_cons, printed_cons, texts_cons, h l List.mem_cons_self,
      ih fun m hm => h m (List.mem_cons_of_mem _ hm)]

/-- A bracket prints what opens it, its items and what closes it. -/
theorem Opening.print {o : Opening} (hfit : o.Fits) {inside : List Node} {close : Lexeme}
    (hclose : close.token = o.closer.1) (hmarks : ∀ l ∈ o.marks, l.Genuine) (hg : close.Genuine) :
    (o.node inside close).print.toList = texts o.marks ++ (printed inside ++ close.text.toList) := by
  cases o with
  | parentheses m =>
    rw [Opening.node, print_sequence, hg.fixed.2.1 hclose]
    simp [Opening.marks, (hmarks m (by simp [Opening.marks])).fixed.1 hfit, Kind.marks]
  | interpolation m =>
    rw [Opening.node, print_sequence, hg.fixed.2.2.2.1 hclose]
    simp [Opening.marks, (hmarks m (by simp [Opening.marks])).fixed.2.2.2.2 hfit, Kind.marks]
  | call n m =>
    rw [Opening.node, print_sequence, printed_cons, printed_cons, print_sequence,
      hg.fixed.2.1 hclose, leaf_print n rfl]
    simp [Opening.marks, (hmarks m (by simp [Opening.marks])).fixed.1 hfit.2, Kind.marks]

theorem Items.print {stop : Stop} {ls : List Lexeme} {ns : List Node} (h : Items stop ls ns)
    (hg : ∀ l ∈ ls, l.Genuine) : printed ns = texts ls := by
  induction h with
  | nil => rfl
  | @leaf stop l n ls ns _ hn _ _ ih =>
    rw [printed_cons, texts_cons, item?_print (hg l List.mem_cons_self) hn,
      ih fun m hm => hg m (List.mem_cons_of_mem _ hm)]
  | @bracket stop o ms ls inside ns close hfit _ hclose _ ih₁ ih₂ =>
    rw [printed_cons, texts_append, texts_append, texts_cons,
      Opening.print hfit hclose (fun l hl => hg l (by simp [hl])) (hg close (by simp)),
      ih₁ fun l hl => hg l (by simp [hl]), ih₂ fun l hl => hg l (by simp [hl])]
    simp only [List.append_assoc]

theorem PropertyParts.print {ls : List Lexeme} {ns : List Node} (h : PropertyParts ls ns)
    (hg : ∀ l ∈ ls, l.Genuine) : printed ns = texts ls := by
  induction h with
  | nil => rfl
  | @word l ls ns ht _ ih =>
    rw [printed_cons, texts_cons, leaf_print l rfl, ih fun m hm => hg m (List.mem_cons_of_mem _ hm)]
  | @interpolation mark close ms ls inside ns hmark hi hclose _ ih =>
    rw [printed_cons, texts_cons, texts_append, texts_cons,
      Opening.print (o := .interpolation mark) hmark hclose
        (fun l hl => hg l (by simp_all [Opening.marks])) (hg close (by simp)),
      hi.print fun l hl => hg l (by simp [hl]), ih fun l hl => hg l (by simp [hl])]
    simp [Opening.marks]

theorem Property.print {ls : List Lexeme} {n : Node} (h : Property ls n)
    (hg : ∀ l ∈ ls, l.Genuine) : n.print.toList = texts ls := by
  cases h with
  | @ofVariable l ht =>
    have hi : l.item? = some (l.inner .variable 1 0) := by simp only [item?, ht]
    have hl := item?_print (hg l (by simp)) hi
    simp [Node.print, Kind.wrap, Kind.marks] at hl ⊢
    exact hl
  | ofParts hp _ =>
    rw [print_sequence, hp.print hg]
    simp [Kind.marks]

theorem Pieces.Fits.before_print {p : Pieces} {name items : List Lexeme} (h : p.Fits name items)
    (hg : ∀ l ∈ name, l.Genuine) : printed p.before = texts (p.toFront.lexemes name) := by
  have hblanks : printed (p.blanks.map Lexeme.trivia) = texts p.blanks :=
    printed_map fun l hl => space_print (h.blanks l hl)
  have hblank : printed (p.blank.map Lexeme.trivia) = texts p.blank := by
    refine printed_map fun l hl => space_print ?_
    rcases h.blank with ⟨hb, -⟩ | ⟨m, hb, hm⟩
    · simp [hb] at hl
    · obtain rfl : l = m := by simpa [hb] using hl
      exact hm
  simp only [Pieces.before, Front.lexemes, printed_append, printed_cons, texts_append,
    texts_cons, List.cons_append, h.property.print hg, hblanks, hblank,
    leaf_print p.colon (k := .punctuation) rfl, List.nil_append, List.append_assoc]

theorem Pieces.Fits.behind_print {p : Pieces} {name items ts : List Lexeme} (h : p.Fits name items)
    (hts : Items .declaration ts p.trailing) (hg : ∀ l ∈ ts ++ p.flags, l.Genuine) :
    printed p.behind = texts (ts ++ (p.flags ++ p.semicolon.toList)) := by
  have hflags : printed (p.flags.map flagOrBlank) = texts p.flags := by
    refine printed_map fun l hl => ?_
    rcases h.flags l hl with ht | ht
    · rw [flagOrBlank, if_pos ht]
      exact item?_print (hg l (by simp [hl])) (by simp only [item?, ht])
    · rw [flagOrBlank, if_neg (by simp [ht])]
      exact space_print ht
  have hsemi : printed (p.semicolon.map fun l => l.leaf .punctuation).toList =
      texts p.semicolon.toList := by
    cases p.semicolon with
    | none => rfl
    | some l => simp [leaf_print l (k := .punctuation) rfl]
  simp only [Pieces.behind, printed_append, texts_append, hflags, hsemi,
    hts.print fun l hl => hg l (by simp [hl]), List.append_assoc]

theorem Pieces.Fits.print {p : Pieces} {name items : List Lexeme} (h : p.Fits name items)
    (hg : ∀ l ∈ p.lexemes name items, l.Genuine) :
    p.node.print.toList = texts (p.lexemes name items) := by
  obtain ⟨span, hnode⟩ := p.node_eq
  obtain ⟨vs, ts, rfl, hvs, hts⟩ := h.split
  have hbefore := h.before_print fun l hl => hg l (by simp [Pieces.lexemes, Front.lexemes, hl])
  have hbehind := h.behind_print hts fun l hl => hg l (by
    rcases List.mem_append.1 hl with hl | hl <;> simp [Pieces.lexemes, hl])
  have hvalue := hvs.print fun l hl => hg l (by simp [Pieces.lexemes, hl])
  rw [hnode, print_sequence, printed_append, printed_cons, print_sequence, hbefore, hvalue, hbehind]
  simp [Pieces.lexemes, Kind.marks]

theorem blockless_print {keyword : Lexeme} (hk : keyword.Genuine) (ht : keyword.token = .atKeyword)
    (parts : List Node) (stop : Nat) :
    (blockless keyword parts stop).print.toList = keyword.text.toList ++ printed parts := by
  have hi : keyword.item? = some (keyword.inner .atKeyword 1 0) := by simp only [item?, ht]
  rw [blockless, print_sequence, printed_cons, item?_print hk hi]
  simp [Kind.marks]

theorem Whole.print {next : Option Lexeme} {read : List Lexeme} {n : Node} (h : Whole next read n)
    (hg : ∀ l ∈ read, l.Genuine) : n.print.toList = texts read := by
  cases h with
  | @trivia l ht => simpa using trivia_print (hg l (by simp)) ht
  | @semicolon l ht => simpa using leaf_print l (k := .punctuation) rfl
  | declaration hfit _ => exact hfit.print hg
  | @atRule keyword semi ps params ht hps hsemi =>
    rw [blockless_print (hg keyword (by simp)) ht, printed_append, hps.print fun l hl => hg l (by simp [hl])]
    simp [leaf_print semi (k := .punctuation) rfl]
  | @openAtRule keyword ps params ht hps _ =>
    rw [blockless_print (hg keyword (by simp)) ht, hps.print fun l hl => hg l (by simp [hl])]
    simp

/-- A selector prints its lexemes as one text. -/
theorem selectorNode_print (ls : List Lexeme) : (Head.selectorNode ls).print.toList = texts ls := by
  have hjoin : (String.join (ls.map Lexeme.text)).toList = texts ls := by
    induction ls with
    | nil => rfl
    | cons l ls ih => simp [ih]
  unfold Head.selectorNode
  split <;> simp [Node.print, Kind.wrap, Kind.marks, hjoin]

theorem Headed.print {read : List Lexeme} {head : Head} (h : Headed read head)
    (hg : ∀ l ∈ read, l.Genuine) {inside : List Node} {close : Lexeme} (hc : close.Genuine)
    (hclose : close.token = .closeBrace) :
    (head.withBlock inside close).print.toList =
      texts read ++ (printed inside ++ close.text.toList) := by
  cases h with
  | @rule before brace _ hbrace _ =>
    rw [Head.withBlock, print_sequence, printed_cons, printed_cons, print_sequence,
      selectorNode_print, hc.fixed.2.2.2.1 hclose]
    simp [Kind.marks, (hg brace (by simp)).fixed.2.2.1 hbrace]
  | @atRule keyword brace ps params ht hps hbrace =>
    have hi : keyword.item? = some (keyword.inner .atKeyword 1 0) := by simp only [item?, ht]
    rw [Head.withBlock, print_sequence, List.cons_append, printed_cons, printed_append,
      printed_cons, print_sequence, item?_print (hg keyword (by simp)) hi,
      hps.print fun l hl => hg l (by simp [hl]), hc.fixed.2.2.2.1 hclose]
    simp [Kind.marks, (hg brace (by simp)).fixed.2.2.1 hbrace]

theorem Statements.print {next : Option Lexeme} {ls : List Lexeme} {ns : List Node}
    (h : Statements next ls ns) (hg : ∀ l ∈ ls, l.Genuine) : printed ns = texts ls := by
  induction h with
  | nil => rfl
  | whole hw _ ih =>
    rw [printed_cons, texts_append, hw.print fun l hl => hg l (by simp [hl]),
      ih fun l hl => hg l (by simp [hl])]
  | @block next read ms ls head inside ns close hh _ hclose _ ih₁ ih₂ =>
    rw [printed_cons, hh.print (fun l hl => hg l (by simp [hl])) (hg close (by simp)) hclose,
      ih₁ fun l hl => hg l (by simp [hl]), ih₂ fun l hl => hg l (by simp [hl])]
    simp only [texts_append, texts_cons, List.append_assoc]

end Parse

/-- The characters of the tree of a source are those of the source. -/
theorem toList_print_of_parse {source : String} {t : Node} (h : parse source = .ok t) :
    t.print.toList = source.toList := by
  obtain ⟨ls, ns, hls, hstm, rfl⟩ := parse_iff.1 h
  obtain ⟨hg, htexts⟩ := Lexeme.genuine_of_tokenize hls
  rw [Node.print_sequence, hstm.print hg, htexts]
  simp [Kind.marks]

/-- **Print after parse**: the tree of a source prints the source. -/
theorem print_of_parse {source : String} {t : Node} (h : parse source = .ok t) :
    t.print = source := String.toList_inj.1 (toList_print_of_parse h)

/-- A source with a comment, a map, an interpolation, a flag and a block. -/
theorem print_of_parse_sample : ∃ t,
    parse "$x: (a: 1, b: #\x7b$y\x7d) /* c */ !default;\n.a > .b \x7b color: red \x7d // end" = .ok t ∧
      t.print = "$x: (a: 1, b: #\x7b$y\x7d) /* c */ !default;\n.a > .b \x7b color: red \x7d // end" := by
  have h : (parse "$x: (a: 1, b: #\x7b$y\x7d) /* c */ !default;\n.a > .b \x7b color: red \x7d // end").isOk =
      true := by decide +kernel
  cases hp : parse "$x: (a: 1, b: #\x7b$y\x7d) /* c */ !default;\n.a > .b \x7b color: red \x7d // end" with
  | error e => rw [hp] at h; cases h
  | ok t => exact ⟨t, rfl, print_of_parse hp⟩

end Stylesheet
