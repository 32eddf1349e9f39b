import Stylesheet.Proofs.Export.Reread

/-!
# Reading a wrapped source again

The statements of a source one by one: each prints lexemes that are a rewriting of its own, and
reads as it should unless its parenthesis is lost.

* `Whole.wrapped`, `Statements.wrapped`: one statement, and all of them.
* `reread_iff`: a wrapped source reads as the tree with the calls unless a value ends in a line
  comment, and else not at all.
-/

namespace Stylesheet

open Lexeme Node Parse Export

namespace Parse

variable (function : String)

/-- A node that binds no variable stays as it is. -/
theorem wrapNode_of_unbound {n : Node} (h : n.is .declaration = true → declared? n = none) :
    wrapNode function n = .ok none ∧ swallows n = false ∧ readNode function n = n := by
  have hbound : boundName? n = none := by
    unfold boundName?
    split
    · rename_i hd
      rw [h hd]
      rfl
    · rfl
  refine ⟨?_, by simp [swallows, hbound], by simp [readNode, hbound]⟩
  unfold wrapNode
  split
  · rename_i hd
    rw [wrapDeclaration, h hd]
  · rfl

/-- What becomes of a statement: it is wrapped and prints a rewriting of its lexemes, which reads
as it should or, if the parenthesis is lost, not at all. -/
structure Wraps (function : String) (next : Option Lexeme) (read read' : List Lexeme) (n : Node) :
    Prop where
  result : ∃ o, wrapNode function n = .ok o ∧ (o.getD n).print.toList = texts read'
  rewritten : ∀ ls ls', Rewritten function.toList ls ls' →
    Rewritten function.toList (read ++ ls) (read' ++ ls')
  reads : swallows n = false → ∀ next', SameToken next next' →
    ∃ n', Whole next' read' n' ∧ n'.bare = (readNode function n).bare
  fails : swallows n = true → ∀ rest : List Lexeme, SameToken next rest.head? →
    (statements false (read' ++ rest)).isOk = false

theorem Whole.unbound {next : Option Lexeme} {read : List Lexeme} {n : Node}
    (h : Whole next read n) (hg : ∀ l ∈ read, l.Genuine)
    (hn : n.is .declaration = true → declared? n = none) : Wraps function next read read n := by
  obtain ⟨hwrap, hswallows, hread⟩ := wrapNode_of_unbound function hn
  refine ⟨⟨none, hwrap, h.print hg⟩, fun ls ls' hrest => hrest.keep_all read, fun _ next' hnext => ?_,
    fun hs => ?_⟩
  · rw [hread]
    exact h.move hnext rfl
  · rw [hswallows] at hs
    cases hs

section

variable {p : Pieces} {name vs ts init : List Lexeme} {v comment : Lexeme} {next : Option Lexeme}
  {ns : List Node} {n : Node}

/-- A declaration whose value ends with no line comment reads with the call for its value. -/
theorem Pieces.Fits.wraps (h : p.Fits name (vs ++ ts))
    (hg : ∀ l ∈ p.lexemes name (vs ++ ts), l.Genuine) (hname : name = [v])
    (ht : v.token = .variable) (hv : declared? p.node = some (v.inner .variable 1 0))
    (hcl : p.semicolon = none → Closes (next.map Lexeme.token))
    (hvs : Items .declaration vs p.value) (hts : Items .declaration ts p.trailing)
    (hlast : ∀ n ∈ p.value.getLast?, n.is .lineComment = false)
    (hline : ∀ l ∈ vs.getLast?, l.token ≠ .lineComment) :
    Wraps function next (p.lexemes name (vs ++ ts))
      (wrappedLexemes p name (openMarks function (v.inner .variable 1 0).text) (vs ++ [closeMark]) ts)
      p.node := by
  have hopens := opens_openMarks function (variable_name (hg v (by
    simp [Pieces.lexemes, Front.lexemes, hname])) ht)
  have hclosed : Closed vs (vs ++ [closeMark]) := .paren hline (by simp [closeMark, word])
  obtain ⟨span, hwrap⟩ := wrapNode_of_variable function h hv
  refine ⟨⟨_, hwrap, wrapped_print function h hg rfl hvs hts hclosed _ span⟩,
    fun ls ls' hrest => rewritten_declaration h rfl hclosed hopens hrest,
    fun _ next' hnext => ?_, fun hs => ?_⟩
  · obtain ⟨hfit, hlexemes⟩ := wrappedPieces_fits function h (v.inner .variable 1 0).text hvs hts
    refine ⟨_, ?_, wrappedPieces_bare h hv⟩
    rw [← hlexemes]
    refine .declaration hfit ?_
    rw [← hnext]
    exact hcl
  · rw [swallows_of_variable h hv] at hs
    obtain ⟨n, hn, hcomment⟩ := Option.any_eq_true _ _ |>.1 hs
    rw [hlast n hn] at hcomment
    cases hcomment

/-- A line comment at the end of a value takes the parenthesis in, so that the call stays open. -/
theorem Pieces.Fits.wraps_swallowed (h : p.Fits name (init ++ [comment] ++ ts))
    (hg : ∀ l ∈ p.lexemes name (init ++ [comment] ++ ts), l.Genuine) (hname : name = [v])
    (ht : v.token = .variable) (hv : declared? p.node = some (v.inner .variable 1 0))
    (hcl : p.semicolon = none → Closes (next.map Lexeme.token))
    (hvs : Items .declaration (init ++ [comment]) p.value) (hts : Items .declaration ts p.trailing)
    (hvalue : p.value = ns ++ [n]) (hinit : Items .declaration init ns)
    (hc : comment.token = .lineComment) (hn : n.is .lineComment = true) :
    Wraps function next (p.lexemes name (init ++ [comment] ++ ts))
      (wrappedLexemes p name (openMarks function (v.inner .variable 1 0).text)
        (init ++ [⟨.lineComment, comment.text ++ ")", ⟨0, 0⟩⟩]) ts)
      p.node := by
  have hopens := opens_openMarks function (variable_name (hg v (by
    simp [Pieces.lexemes, Front.lexemes, hname])) ht)
  have hclosed : Closed (init ++ [comment])
      (init ++ [⟨.lineComment, comment.text ++ ")", ⟨0, 0⟩⟩]) := .swallowed hc (by simp [word])
  obtain ⟨span, hwrap⟩ := wrapNode_of_variable function h hv
  refine ⟨⟨_, hwrap, wrapped_print function h hg rfl hvs hts hclosed _ span⟩,
    fun ls ls' hrest => rewritten_declaration h rfl hclosed hopens hrest,
    fun hs => ?_, fun _ rest hnext => ?_⟩
  · rw [swallows_of_variable h hv, hvalue, List.getLast?_concat] at hs
    simp [hn] at hs
  · refine wrapped_fails h hname ht hinit rfl hts _ (fun hs => ?_) false
    have hcloses := hcl hs
    rw [hnext] at hcloses
    exact hcloses

end

/-- **One statement.** -/
theorem Whole.wrapped {next : Option Lexeme} {read : List Lexeme} {n : Node}
    (h : Whole next read n) (hg : ∀ l ∈ read, l.Genuine) :
    ∃ read', Wraps function next read read' n := by
  have hsame := h
  cases h with
  | @trivia l ht =>
    refine ⟨_, hsame.unbound function hg fun hd => ?_⟩
    rcases trivia_kind l with hk | hk | hk <;> simp [Node.is, hk] at hd
  | semicolon _ =>
    refine ⟨_, hsame.unbound function hg fun hd => ?_⟩
    cases hd
  | atRule _ _ _ =>
    refine ⟨_, hsame.unbound function hg fun hd => ?_⟩
    cases hd
  | openAtRule _ _ _ =>
    refine ⟨_, hsame.unbound function hg fun hd => ?_⟩
    cases hd
  | @declaration p name its hfit hcl =>
    rcases hfit.declared with ⟨v, hname, ht, hv⟩ | hnone
    · obtain ⟨vs, ts, rfl, hvs, hts⟩ := hfit.split
      rcases hvs.last_comment with ⟨hlast, hline⟩ | ⟨init, comment, ns, n, rfl, hvalue, hinit, hc, hn⟩
      · exact ⟨_, hfit.wraps function hg hname ht hv hcl hvs hts hlast hline⟩
      · exact ⟨_, hfit.wraps_swallowed function hg hname ht hv hcl hvs hts hvalue hinit hc hn⟩
    · exact ⟨_, hsame.unbound function hg fun _ => hnone⟩

/-- A failure behind a statement is a failure of all. -/
theorem statements_fail {read rest : List Lexeme} {b : Bool} {n : Node}
    (h : Whole rest.head? read n) (hrest : (statements b rest).isOk = false) :
    (statements b (read ++ rest)).isOk = false := by
  obtain ⟨l, ms, hread, ht⟩ := Statement.first_ne (show Statement _ _ (.whole n) from h)
  obtain ⟨hlt, hs⟩ := statement_complete (show Statement _ _ (.whole n) from h)
    (show l :: (ms ++ rest) = read ++ rest by rw [hread]; rfl)
  rw [hread, List.cons_append, statements, if_neg ht]
  simp only [hs]
  split
  · rfl
  · rename_i hr
    rw [hr] at hrest
    cases hrest

theorem statements_fail_block {read ms rest : List Lexeme} {b : Bool} {head : Head}
    {inside : List Node} {close : Lexeme} (h : Headed read head)
    (hin : Statements (some close) ms inside) (hclose : close.token = .closeBrace)
    (hrest : (statements b rest).isOk = false) :
    (statements b (read ++ (ms ++ close :: rest))).isOk = false := by
  have hstm : Statement (ms ++ close :: rest).head? read head := h.statement
  obtain ⟨l, tail, rfl, ht⟩ := hstm.first_ne
  obtain ⟨hlt, hs⟩ := statement_complete hstm
    (show l :: (tail ++ (ms ++ close :: rest)) = l :: tail ++ (ms ++ close :: rest) from rfl)
  obtain ⟨_, hi⟩ := statements_complete hin (rfl : ms ++ close :: rest = _) rfl
    (show EndsBlock true _ by simp [EndsBlock, hclose])
  have hc := expect_ok (t := (.closeBrace, .closeBrace)) hclose rest
  rw [List.cons_append, statements, if_neg ht]
  cases head with
  | whole n => exact absurd rfl (h.ne_whole n)
  | rule _ _ | atRule _ _ _ =>
    simp only [hs, hi, hc]
    split
    · rfl
    · rename_i hr
      rw [hr] at hrest
      cases hrest

theorem Headed.not_declaration {read : List Lexeme} {head : Head} (h : Headed read head)
    (inside : List Node) (close : Lexeme) :
    (head.withBlock inside close).is .declaration = false := by
  cases h <;> rfl

/-- **All statements.** -/
theorem Statements.wrapped {ls : List Lexeme} {ns : List Node} (h : Statements none ls ns)
    (hg : ∀ l ∈ ls, l.Genuine) :
    ∃ ls', Rewritten function.toList ls ls' ∧ (∃ k, (wrapAll function ns).2 = .ok k) ∧
      printed (wrapAll function ns).1 = texts ls' ∧
      ((∀ n ∈ ns, swallows n = false) →
        ∃ ns', Statements none ls' ns' ∧ bareAll ns' = bareAll (ns.map (readNode function))) ∧
      ((∃ n ∈ ns, swallows n = true) → (statements false ls').isOk = false) := by
  generalize hnext : none = next at h
  induction h with
  | nil => exact ⟨[], .nil, ⟨0, rfl⟩, rfl, fun _ => ⟨[], .nil, rfl⟩, nofun⟩
  | @whole next read ls n ns hn h ih =>
    subst hnext
    obtain ⟨ls', hrest, ⟨k, hk⟩, hprint, hreads, hfails⟩ :=
      ih (fun l hl => hg l (List.mem_append_right _ hl)) rfl
    obtain ⟨read', ⟨o, ho, hoprint⟩, hrewritten, hread, hfail⟩ :=
      hn.wrapped function fun l hl => hg l (List.mem_append_left _ hl)
    have hsame : SameToken (ls.head? <|> none) (ls'.head? <|> none) := by
      rw [hrest.head?]
      rfl
    have hsame' : SameToken (ls.head? <|> none) ls'.head? := by
      simpa using hsame
    refine ⟨read' ++ ls', hrewritten _ _ hrest, ?_, ?_, ?_, ?_⟩
    · simp only [wrapAll, ho, hk]
      exact ⟨_, rfl⟩
    · simp only [wrapAll, ho, printed_cons, hoprint, hprint, texts_append]
    · intro hclean
      obtain ⟨hclean, hcleans⟩ := List.forall_mem_cons.1 hclean
      obtain ⟨n', hn', hbare⟩ := hread hclean _ hsame
      obtain ⟨ns', hns', hbares⟩ := hreads hcleans
      exact ⟨n' :: ns', .whole hn' hns', by simp [bareAll, hbare, hbares]⟩
    · rintro ⟨m, hm, hs⟩
      -- it fails at this statement, or reads it and fails behind it
      cases hsw : swallows n with
      | true => exact hfail hsw _ hsame'
      | false =>
        obtain ⟨n', hn', -⟩ := hread hsw _ hsame'
        rcases List.mem_cons.1 hm with rfl | hm
        · rw [hsw] at hs
          cases hs
        · exact statements_fail hn' (hfails ⟨m, hm, hs⟩)
  | @block next read ms ls head inside ns close hh hin hclose h _ ih =>
    subst hnext
    obtain ⟨ls', hrest, ⟨k, hk⟩, hprint, hreads, hfails⟩ := ih (fun l hl => hg l (by simp [hl])) rfl
    obtain ⟨hwrap, hswallows, hread⟩ := wrapNode_of_unbound function
      (n := head.withBlock inside close) fun hd => by simp [hh.not_declaration] at hd
    refine ⟨read ++ (ms ++ close :: ls'), ((hrest.keep close).keep_all ms).keep_all read, ?_, ?_, ?_, ?_⟩
    · simp only [wrapAll, hwrap, hk]
      exact ⟨_, rfl⟩
    · simp only [wrapAll, hwrap, Option.getD_none, printed_cons, hprint,
        hh.print (fun l hl => hg l (by simp [hl])) (hg close (by simp)) hclose,
        hin.print fun l hl => hg l (by simp [hl]), texts_append, texts_cons, List.append_assoc]
    · intro hclean
      obtain ⟨ns', hns', hbares⟩ := hreads (List.forall_mem_cons.1 hclean).2
      exact ⟨_, .block hh hin hclose hns', by simp [bareAll, hread, hbares]⟩
    · rintro ⟨m, hm, hs⟩
      rcases List.mem_cons.1 hm with rfl | hm
      · rw [hswallows] at hs
        cases hs
      · exact statements_fail_block hh hin hclose (hfails ⟨m, hm, hs⟩)

end Parse

namespace Export

/-- A text that reads as one name is a name. -/
theorem tokenOf_of_isName {function : String} (h : isName function = true) :
    tokenOf function.toList = some .ident := by
  unfold isName at h
  split at h
  · rename_i l hl
    obtain ⟨hcuts, hspell⟩ := cuts_of_cut hl
    have htext : l.text.toList = function.toList := by simpa [spell, word] using hspell
    have htoken := (munch_eq_some_iff.1 hcuts.1).2.2.1
    have ht : l.token = .ident := by simpa using h
    rw [← htext, ← ht]
    exact htoken
  · cases h

/-- **A wrapped source:** every declaration is wrapped, and the printed text reads again with the
calls for values unless a parenthesis is lost, and else not at all. -/
theorem wrapped_source {function source : String} {tree : Node} (hf : isName function = true)
    (ht : parse source = .ok tree) :
    (∃ k, (wrapDeclarations function tree).result = .ok k) ∧
      ((∀ n ∈ tree.children, swallows n = false) →
        ∃ t, parse (wrapDeclarations function tree).tree.print = .ok t ∧
          t.bare = (reread function tree).bare) ∧
      ((∃ n ∈ tree.children, swallows n = true) →
        ∀ t, parse (wrapDeclarations function tree).tree.print ≠ .ok t) := by
  obtain ⟨ls, ns, hls, hstm, rfl⟩ := parse_iff.1 ht
  obtain ⟨hg, -⟩ := genuine_of_tokenize hls
  obtain ⟨ls', hrewritten, ⟨k, hk⟩, hprint, hreads, hfails⟩ :=
    hstm.wrapped function hg
  have htree : wrapDeclarations function (.sequence .stylesheet ns (some ⟨0, byteLength source⟩)) =
      ⟨.sequence .stylesheet (wrapAll function ns).1 (some ⟨0, byteLength source⟩), .ok k⟩ := by
    simp only [wrapDeclarations, hf, if_true, hk]
  have hcuts := hrewritten.cuts (tokenOf_of_isName hf) (cuts_of_cut hls).1
  obtain ⟨new, hnew, hwords⟩ := tokenize_iff.2 ⟨hcuts, (show spell (ls'.map word) =
      (wrapDeclarations function (.sequence .stylesheet ns
        (some ⟨0, byteLength source⟩))).tree.print.toList by
    rw [htree, Node.print_sequence, hprint]
    simp [Kind.marks, texts])⟩
  refine ⟨⟨k, by rw [htree]⟩, fun hclean => ?_, fun hs t hparse => ?_⟩
  · obtain ⟨ns', hns', hbare⟩ := hreads hclean
    obtain ⟨ns'', hns'', hbare'⟩ := hns'.move (show SameToken none none from rfl) hwords.symm
    refine ⟨_, parse_iff.2 ⟨new, ns'', hnew, hns'', rfl⟩, ?_⟩
    simp [reread, mapChildren, bare, hbare', hbare]
  · obtain ⟨new', ns', hnew', hstm', -⟩ := parse_iff.1 hparse
    rw [hnew] at hnew'
    obtain rfl : new = new' := by simpa using hnew'
    obtain ⟨ns'', hns'', -⟩ := hstm'.move (show SameToken none none from rfl) hwords
    obtain ⟨_, hok⟩ := statements_complete hns'' (List.append_nil ls').symm rfl
      (show EndsBlock false [] from rfl)
    have := hfails hs
    rw [hok] at this
    cases this

/-- What a wrapped source reads as, if it reads at all. -/
theorem bare_of_wrapped {function source : String} {tree t : Node} (hf : isName function = true)
    (ht : parse source = .ok tree)
    (hprinted : parse (wrapDeclarations function tree).tree.print = .ok t) :
    t.bare = (reread function tree).bare := by
  obtain ⟨-, hreads, hno⟩ := wrapped_source hf ht
  have hclean : ∀ n ∈ tree.children, swallows n = false := by
    intro n hn
    cases hs : swallows n with
    | false => rfl
    | true => exact absurd hprinted (hno ⟨n, hn, hs⟩ t)
  obtain ⟨t', ht', hbare⟩ := hreads hclean
  rw [hprinted] at ht'
  cases ht'
  exact hbare

/-- **Wrapped declarations read again** as calls with the items of the values, and everything else
as it was, exactly if no value ends in a line comment. If one does, the printed text is no source
at all: the comment takes in the parenthesis that is put behind the value. -/
theorem reread_iff {function source : String} {tree : Node} (hf : isName function = true)
    (ht : parse source = .ok tree) :
    ((∃ t, parse (wrapDeclarations function tree).tree.print = .ok t ∧
        t.bare = (reread function tree).bare) ↔ ∀ n ∈ tree.children, swallows n = false) ∧
      ((∃ n ∈ tree.children, swallows n = true) →
        ∀ t, parse (wrapDeclarations function tree).tree.print ≠ .ok t) ∧
      ∃ k, (wrapDeclarations function tree).result = .ok k := by
  obtain ⟨hresult, hreads, hno⟩ := wrapped_source hf ht
  refine ⟨⟨?_, hreads⟩, hno, hresult⟩
  rintro ⟨t, hparse, -⟩ n hn
  cases hs : swallows n with
  | false => rfl
  | true => exact absurd hparse (hno ⟨n, hn, hs⟩ t)

/-- A value that ends in a block comment, and a flag behind the value. -/
theorem reread_iff_sample : ∃ tree, parse "$x: 1px + 2 /* c */ !default;\n$y: $x" = .ok tree ∧
    ∃ t, parse (wrapDeclarations "export_var" tree).tree.print = .ok t ∧
      t.bare = (reread "export_var" tree).bare := by
  have hclean : (match parse "$x: 1px + 2 /* c */ !default;\n$y: $x" with
      | .ok t => t.children.all fun n => !swallows n
      | .error _ => false) = true := by decide +kernel
  have hf : isName "export_var" = true := by decide +kernel
  cases ht : parse "$x: 1px + 2 /* c */ !default;\n$y: $x" with
  | error e => rw [ht] at hclean; cases hclean
  | ok tree =>
    rw [ht] at hclean
    exact ⟨tree, rfl, (reread_iff hf ht).1.2 fun n hn => by simpa using List.all_eq_true.1 hclean n hn⟩

/-- A line comment before the semicolon: the printed text is no source. -/
theorem reread_comment_counterexample : isName "export_var" = true ∧
    ∃ tree, parse "$x: 1 // note\n;" = .ok tree ∧
      ¬ ∃ t, parse (wrapDeclarations "export_var" tree).tree.print = .ok t ∧
        t.bare = (reread "export_var" tree).bare := by
  have hfail : (match parse "$x: 1 // note\n;" with
      | .ok t => (parse (wrapDeclarations "export_var" t).tree.print).isOk
      | .error _ => true) = false := by decide +kernel
  refine ⟨by decide +kernel, ?_⟩
  cases ht : parse "$x: 1 // note\n;" with
  | error e => rw [ht] at hfail; cases hfail
  | ok tree =>
    rw [ht] at hfail
    refine ⟨tree, rfl, ?_⟩
    rintro ⟨t, hparse, -⟩
    simp only [hparse] at hfail
    cases hfail

end Export
end Stylesheet
