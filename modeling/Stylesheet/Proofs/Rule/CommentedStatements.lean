import Stylesheet.Proofs.Rule.CommentedDeclarations
import Stylesheet.Proofs.Rule.Places
import Stylesheet.Proofs.Syntax.Blanked

/-!
# Statements with comments

Blanks between statements may have comments among them, and so may the blanks in statements that
admit them. The statements are the same, but for texts.

* `Parse.Whole.commented`, `Parse.Headed.commented`: one statement, or what stands before its block.
* `Parse.Statements.commented`: the statements of a source or of a block.
* `parse_blanked`: a source with a comment, and the same source with a blank in its place.
-/

namespace Stylesheet

open Lexeme Node

variable {Marked Bare : Node → Prop}

/-- **A node allows comments** at marked blanks, and at bare ones without another blank. -/
structure Node.Allows (Marked Bare : Node → Prop) (n : Node) : Prop where
  admits : n.Admits Marked
  parts : n.PartsNothing Bare

theorem Node.Allows.takes {n : Node} (h : n.Allows Marked Bare) : n.Takes Marked Bare :=
  ⟨h.admits.call, h.parts⟩

/-! ### The parameters and the block of a rule -/

namespace Rule

/-- Whether a node ends a rule. -/
def isEnd (n : Node) : Bool := n.is .block || n.isLeaf .punctuation ";"

theorem firmTest_isEnd : FirmTest isEnd := by
  intro n hn
  rcases Bool.or_eq_true_iff.1 hn with hn | hn
  · exact firmTest_is rfl n hn
  · exact firmTest_isLeaf rfl ";" n hn

theorem isEnd_of_isItem {n : Node} (h : n.IsItem) : isEnd n = false := by
  have hblock : n.is .block = false := by
    rw [is, beq_eq_false_iff_ne]
    intro hk
    have := h.kind
    rw [hk] at this
    revert this
    decide
  rw [isEnd, hblock, h.noSemicolon]
  rfl

theorem isEnd_semicolon {l : Lexeme} (hl : l.Genuine) (h : l.token = .semicolon) :
    isEnd (l.leaf .punctuation) = true := by
  refine Bool.or_eq_true_iff.2 (.inr ?_)
  exact (l.isLeaf_leaf _ _).2 ((hl.token_eq_iff (c := ';') rfl).1 h)

/-- The parameters of a rule stand between its keyword and its end. -/
theorem parameters_eq {ns : List Node} {tail : Option Node} (k : Node)
    (hns : ∀ n ∈ ns, isEnd n = false) (htail : ∀ n ∈ tail, isEnd n = true) :
    parameters (k :: (ns ++ tail.toList)) = ns := by
  cases tail with
  | some n =>
    have hn : (n.is .block || n.isLeaf .punctuation ";") = true := htail n rfl
    simp [parameters, hn]
  | none =>
    rcases List.eq_nil_or_concat' ns with rfl | ⟨ms, m, rfl⟩
    · rfl
    · have hm : (m.is .block || m.isLeaf .punctuation ";") = false := hns m (by simp)
      simp [parameters, hm]

end Rule

namespace Stmt

/-- Nodes before the first block are passed over. -/
theorem block_behind {ns : List Node} (h : ∀ n ∈ ns, n.is .block = false) (ms : List Node) :
    block (ns ++ ms) = block ms := by
  induction ns with
  | nil => rfl
  | cons n ns ih =>
    have hn := h n List.mem_cons_self
    have ih := ih fun m hm => h m (List.mem_cons_of_mem _ hm)
    cases n with
    | leaf k t s | single k c s => exact ih
    | sequence k cs s => cases k <;> first | exact ih | cases hn

/-- **The piece of a rule** whose parameters have comments at marked blanks. -/
theorem piece?_rule {k : Node} {cs cs' : List Node} (s s' : Option Span)
    (h : Node.Commented Marked .front (Rule.parameters (k :: cs)) (Rule.parameters (k :: cs')))
    (ha : Admits Marked k.text (Rule.parameters (k :: cs)))
    (hbody : muteAll (block (k :: cs')) = muteAll (block (k :: cs))) :
    (piece? (.sequence .atRule (k :: cs') s')).map Piece.mute =
      (piece? (.sequence .atRule (k :: cs) s)).map Piece.mute := by
  simp only [piece?, List.head?_cons, Option.map_some, Option.getD_some, Option.some.injEq]
  exact ofAtRule_commented h ha hbody

/-- Nodes are pieces one by one. -/
theorem pieces_mute_cons {n n' : Node} {ns ns' : List Node}
    (hn : (piece? n').map Piece.mute = (piece? n).map Piece.mute)
    (hns : (pieces ns').map Piece.mute = (pieces ns).map Piece.mute) :
    (pieces (n' :: ns')).map Piece.mute = (pieces (n :: ns)).map Piece.mute := by
  have htoList (o : Option Piece) : o.toList.map Piece.mute = (o.map Piece.mute).toList := by
    cases o <;> rfl
  simp only [pieces, List.map_append, hns, htoList, hn]

end Stmt

namespace Parse

/-- No item of a value is a block. -/
theorem Items.no_block {stop : Stop} {ls : List Lexeme} {ns : List Node} (h : Items stop ls ns) :
    ∀ n ∈ ns, n.is .block = false := by
  induction h with
  | nil => exact fun n hn => by cases hn
  | @leaf stop l n ls ns _ hn _ _ ih =>
    refine List.forall_mem_cons.2 ⟨?_, ih⟩
    obtain ⟨t, text, span⟩ := l
    cases t <;> simp only [item?, reduceCtorEq, Option.some.injEq] at hn <;> subst hn <;> rfl
  | @bracket stop o _ _ _ _ _ _ _ _ _ _ ih =>
    refine List.forall_mem_cons.2 ⟨?_, ih⟩
    cases o <;> rfl

/-! ### Statements -/

/-- A statement that has no end of its own still ends where it did. -/
theorem closes_commented {ls ls' : List Lexeme} (h : Lexeme.Commented Marked Bare ls ls')
    {next : Option Lexeme} (hcl : Closes ((ls.head? <|> next).map Lexeme.token)) :
    Closes ((ls'.head? <|> next).map Lexeme.token) := by
  cases ls with
  | nil => rwa [h.nil_left]
  | cons l ls =>
    have hl : l.token = .closeBrace := hcl l.token rfl
    obtain ⟨ms, rfl, -⟩ := h.of_cons (by simp [hl])
    exact hcl

/-- **The parameters of an at-rule** with comments at marked blanks, whatever ends the rule. -/
theorem piece?_commented {ps ps' : List Lexeme} {params : List Node} {k : Node}
    {tail : Option Node} {s : Option Span} (hps : Items .atRule ps params)
    (hg : ∀ l ∈ ps, l.Genuine) (hc : Lexeme.Commented Marked Bare ps ps')
    (hk : k.is .block = false) (htail : ∀ n ∈ tail, Rule.isEnd n = true)
    (ha : ∀ m ∈ (Node.sequence .atRule (k :: (params ++ tail.toList)) s).nodes,
      m.Allows Marked Bare) :
    ∃ params', Items .atRule ps' params' ∧ ∀ (tail' : Option Node) (s' : Option Span),
      (∀ n ∈ tail', Rule.isEnd n = true) →
      Stmt.muteAll (Stmt.block tail'.toList) = Stmt.muteAll (Stmt.block tail.toList) →
        (Stmt.piece? (.sequence .atRule (k :: (params' ++ tail'.toList)) s')).map Piece.mute =
          (Stmt.piece? (.sequence .atRule (k :: (params ++ tail.toList)) s)).map Piece.mute := by
  have hself := ha _ (self_mem_nodes _)
  have hitems : ∀ n ∈ params, Rule.isEnd n = false := fun n hn =>
    Rule.isEnd_of_isItem ((hps.sound hg).2 n hn)
  have hparams : Rule.parameters (k :: (params ++ tail.toList)) = params :=
    Rule.parameters_eq k hitems htail
  have hspared : Spared Bare .front params := by
    have hparts := hself.parts
    rwa [PartsNothing, readTogether, Node.kind, Node.children, hparams] at hparts
  obtain ⟨params', hps', hcommented⟩ := hps.commented hc (fun m hm => by
    obtain ⟨n, hn, hm⟩ := exists_of_mem_nodesAll hm
    exact (ha m (mem_nodes_of_children
      (mem_nodesAll_of_nodes (by simp [Node.children, hn]) hm))).takes) hspared
  -- what ends the parameters is firm, so comments bring none
  have hitems' : ∀ n ∈ params', Rule.isEnd n = false := by
    have hnone : params.filter Rule.isEnd = [] :=
      List.filter_eq_nil_iff.2 fun n hn => by simp [hitems n hn]
    rw [← hcommented.filter_firm Rule.firmTest_isEnd] at hnone
    exact fun n hn => by simpa using List.filter_eq_nil_iff.1 hnone n hn
  refine ⟨params', hps', fun tail' s' htail' hbody => ?_⟩
  have hparams' : Rule.parameters (k :: (params' ++ tail'.toList)) = params' :=
    Rule.parameters_eq k hitems' htail'
  have hblock {ns : List Node} (hns : Items .atRule ps ns ∨ Items .atRule ps' ns)
      (tail : Option Node) : Stmt.block (k :: (ns ++ tail.toList)) = Stmt.block tail.toList := by
    have hno : ∀ n ∈ k :: ns, n.is .block = false :=
      List.forall_mem_cons.2 ⟨hk, hns.elim Items.no_block Items.no_block⟩
    rw [← List.cons_append, Stmt.block_behind hno]
  refine Stmt.piece?_rule s s' (by rwa [hparams, hparams']) (hself.admits.rule rfl) ?_
  rw [hblock (.inl hps), hblock (.inr hps'), hbody]

/-- **A statement without a block**, or what has become of a blank between statements. -/
theorem Whole.commented {next next' : Option Lexeme} {ls ls' : List Lexeme} {n : Node}
    (h : Whole next ls n) (hg : ∀ l ∈ ls, l.Genuine)
    (hc : Lexeme.Commented Marked Bare ls ls')
    (hnext : Closes (next.map Lexeme.token) → Closes (next'.map Lexeme.token))
    (ha : ∀ m ∈ n.nodes, m.Allows Marked Bare) :
    (∃ n', Whole next' ls' n' ∧
        (Stmt.piece? n').map Piece.mute = (Stmt.piece? n).map Piece.mute) ∨
      (∀ l ∈ ls', l.token.isTrivia = true) ∧ Stmt.piece? n = none := by
  cases h with
  | @trivia l hl =>
    -- blanks and comments are no statements, however many there are
    right
    obtain ⟨-, k, t, s, htrivia⟩ := (trivia_spec hl).1
    refine ⟨?_, by rw [htrivia, Stmt.piece?]⟩
    cases hc with
    | keep _ hc =>
      rw [hc.nil_left]
      exact List.forall_mem_cons.2 ⟨hl, fun _ hm => by cases hm⟩
    | gap _ _ hgs _ hc =>
      rw [hc.nil_left, List.append_nil]
      exact hgs.trivia
  | @semicolon l hl =>
    left
    obtain ⟨ms, rfl, hms⟩ := hc.of_cons (by simp [hl])
    rw [hms.nil_left]
    exact ⟨_, .semicolon hl, rfl⟩
  | @declaration p name items hfit hcl =>
    left
    obtain ⟨span, hnode⟩ := p.node_eq
    have hself := ha _ (self_mem_nodes _)
    obtain ⟨q, name', items', hq, rfl, hsemi, hsame⟩ :=
      hfit.commented hc (fun m hm => (ha m hm).takes)
        (hself.admits.declaration (by rw [hnode]; rfl))
    obtain ⟨span', hnode'⟩ := q.node_eq
    refine ⟨q.node, .declaration hq fun hs => hnext (hcl (hsemi ▸ hs)), ?_⟩
    have hpiece {p : Pieces} {span : Option Span} {cs : List Node}
        (h : p.node = .sequence .declaration cs span) :
        Stmt.piece? p.node = some (.stmt (Stmt.ofDeclaration p.node)) := by
      rw [h, Stmt.piece?]
    rw [hpiece hnode, hpiece hnode', Option.map_some, Option.map_some, Piece.mute, Piece.mute, hsame]
  | @atRule keyword semicolon ps params hk hps hsemi =>
    left
    obtain ⟨ms, rfl, hms⟩ := hc.of_cons (by simp [hk])
    obtain ⟨ps', ms, rfl, hcps, hms⟩ := hms.of_append
    obtain ⟨ms, rfl, hnil⟩ := hms.of_cons (by simp [hsemi])
    rw [hnil.nil_left]
    have hend : ∀ n ∈ some (semicolon.leaf .punctuation), Rule.isEnd n = true := by
      simpa using Rule.isEnd_semicolon (hg semicolon (by simp)) hsemi
    obtain ⟨params', hps', hpiece⟩ := piece?_commented hps (fun l hl => hg l (by simp [hl])) hcps
      (k := keyword.inner .atKeyword 1 0) rfl hend ha
    refine ⟨_, .atRule hk hps' hsemi, ?_⟩
    simpa only [blockless, Option.toList_some] using
      hpiece (some (semicolon.leaf .punctuation)) _ hend rfl
  | @openAtRule keyword ps params hk hps hcl =>
    left
    obtain ⟨ps', rfl, hcps⟩ := hc.of_cons (by simp [hk])
    have hend : ∀ n ∈ (none : Option Node), Rule.isEnd n = true := by simp
    obtain ⟨params', hps', hpiece⟩ := piece?_commented hps (fun l hl => hg l (by simp [hl])) hcps
      (k := keyword.inner .atKeyword 1 0)
      (s := some ⟨keyword.span.start, openStop keyword params next⟩) rfl hend
      (by simpa [blockless] using ha)
    refine ⟨_, .openAtRule hk hps' (hnext hcl), ?_⟩
    simpa [blockless] using hpiece none _ hend rfl

/-- **What stands before a block**, and the statement with a block that has the same pieces. -/
theorem Headed.commented {ls ls' : List Lexeme} {head : Head} (h : Headed ls head)
    (hg : ∀ l ∈ ls, l.Genuine) (hc : Lexeme.Commented Marked Bare ls ls') {inside : List Node}
    {close : Lexeme} (ha : ∀ m ∈ (head.withBlock inside close).nodes, m.Allows Marked Bare) :
    ∃ head', Headed ls' head' ∧ ∀ inside' : List Node,
      (Stmt.pieces inside').map Piece.mute = (Stmt.pieces inside).map Piece.mute →
        (Stmt.piece? (head'.withBlock inside' close)).map Piece.mute =
          (Stmt.piece? (head.withBlock inside close)).map Piece.mute := by
  cases h with
  | @rule before brace hsel hbrace hfirst =>
    obtain ⟨before', ms, rfl, hcbefore, hms⟩ := hc.of_append
    obtain ⟨ms, rfl, hnil⟩ := hms.of_cons (by simp [hbrace])
    rw [hnil.nil_left]
    refine ⟨_, .rule (hsel.commented hcbefore) hbrace ?_, fun inside' hinside => ?_⟩
    · rcases hcbefore.first_eq with heq | ⟨hspace, -⟩
      · rwa [heq]
      · have hother := hfirst .space hspace
        cases hother
    · have hpiece (before : List Lexeme) (inside : List Node) :
          Stmt.piece? ((Head.rule before brace).withBlock inside close) =
            some (.stmt (.rule (Stmt.assemble [] (Stmt.pieces inside)))) := by
        simp only [Head.withBlock, Head.selectorNode]
        split <;> rfl
      rw [hpiece, hpiece]
      simp only [Option.map_some, Piece.mute, Stmt.mute, Stmt.muteAll_assemble hinside]
  | @atRule keyword brace ps params hk hps hbrace =>
    obtain ⟨ms, rfl, hms⟩ := hc.of_cons (by simp [hk])
    obtain ⟨ps', ms, rfl, hcps, hms⟩ := hms.of_append
    obtain ⟨ms, rfl, hnil⟩ := hms.of_cons (by simp [hbrace])
    rw [hnil.nil_left]
    have hend (inside : List Node) :
        ∀ n ∈ some (Node.sequence .block inside (some ⟨brace.span.start, close.span.stop⟩)),
          Rule.isEnd n = true := by
      rintro n ⟨⟩
      rfl
    obtain ⟨params', hps', hpiece⟩ := piece?_commented hps (fun l hl => hg l (by simp [hl])) hcps
      (k := keyword.inner .atKeyword 1 0) rfl (hend inside) ha
    refine ⟨_, .atRule hk hps' hbrace, fun inside' hinside => ?_⟩
    simpa only [Head.withBlock, List.cons_append, Option.toList_some] using
      hpiece (some _) _ (hend inside') (Stmt.muteAll_assemble hinside)

/-- The nodes of a block are below the statement. -/
theorem Headed.inside_mem {ls : List Lexeme} {head : Head} (h : Headed ls head) {inside : List Node}
    {close : Lexeme} {n : Node} (hn : n ∈ nodesAll inside) :
    n ∈ (head.withBlock inside close).nodes := by
  refine mem_nodes_of_children ?_
  cases h with
  | @rule before brace _ _ _ =>
    exact mem_nodesAll_of_nodes (m := .sequence .block inside (some ⟨brace.span.start, close.span.stop⟩))
      (by simp [Head.withBlock, Node.children]) (mem_nodes_of_children hn)
  | @atRule keyword brace _ _ _ _ _ =>
    exact mem_nodesAll_of_nodes (m := .sequence .block inside (some ⟨brace.span.start, close.span.stop⟩))
      (by simp [Head.withBlock, Node.children]) (mem_nodes_of_children hn)

/-- Blanks and comments may stand in front of statements. -/
theorem Statements.behind_trivia {next : Option Lexeme} {gs ls : List Lexeme} {ns : List Node}
    (hgs : ∀ g ∈ gs, g.token.isTrivia = true) (h : Statements next ls ns) :
    Statements next (gs ++ ls) (gs.map Lexeme.trivia ++ ns) := by
  induction gs with
  | nil => exact h
  | cons g gs ih =>
    have hg {next : Option Lexeme} : Whole next [g] g.trivia := .trivia (hgs g List.mem_cons_self)
    have hstep := Statements.whole hg (ih fun g hg => hgs g (List.mem_cons_of_mem _ hg))
    exact hstep

theorem pieces_trivia {gs : List Lexeme} (hgs : ∀ g ∈ gs, g.token.isTrivia = true) (ns : List Node) :
    Stmt.pieces (gs.map Lexeme.trivia ++ ns) = Stmt.pieces ns := by
  induction gs with
  | nil => rfl
  | cons g gs ih =>
    obtain ⟨-, k, t, s, htrivia⟩ := (trivia_spec (hgs g List.mem_cons_self)).1
    rw [List.map_cons, List.cons_append, Stmt.pieces, htrivia, Stmt.piece?, Option.toList_none,
      List.nil_append, ih fun g hg => hgs g (List.mem_cons_of_mem _ hg)]

/-- **Statements** with comments at marked blanks are the same, but for texts. -/
theorem Statements.commented {next : Option Lexeme} {ls ls' : List Lexeme} {ns : List Node}
    (h : Statements next ls ns) (hg : ∀ l ∈ ls, l.Genuine)
    (hc : Lexeme.Commented Marked Bare ls ls') (ha : ∀ m ∈ nodesAll ns, m.Allows Marked Bare) :
    ∃ ns', Statements next ls' ns' ∧
      (Stmt.pieces ns').map Piece.mute = (Stmt.pieces ns).map Piece.mute := by
  induction h generalizing ls' with
  | nil =>
    rw [hc.nil_left]
    exact ⟨[], .nil, rfl⟩
  | @whole next read ls n ns hwhole _ ih =>
    obtain ⟨read', rest, rfl, hread, hrest⟩ := hc.of_append
    obtain ⟨ns', hns, hpieces⟩ := ih (fun l hl => hg l (List.mem_append_right _ hl)) hrest
      fun m hm => ha m (List.mem_append_right _ hm)
    have hone := hwhole.commented (fun l hl => hg l (List.mem_append_left _ hl)) hread
      (closes_commented hrest) fun m hm => ha m (List.mem_append_left _ hm)
    rcases hone with ⟨n', hn, hpiece⟩ | ⟨htrivia, hnone⟩
    · exact ⟨n' :: ns', .whole hn hns, Stmt.pieces_mute_cons hpiece hpieces⟩
    · refine ⟨_, hns.behind_trivia htrivia, ?_⟩
      rw [pieces_trivia htrivia, hpieces, Stmt.pieces, hnone]
      rfl
  | @block next read ms ls head inside ns close hhead _ hclose _ ih₁ ih₂ =>
    obtain ⟨read', rest, rfl, hread, hrest⟩ := hc.of_append
    obtain ⟨ms', rest', rfl, hms, hrest'⟩ := hrest.of_append
    obtain ⟨ls', rfl, hls⟩ := hrest'.of_cons (by simp [hclose])
    have hnode : ∀ m ∈ (head.withBlock inside close).nodes, m.Allows Marked Bare := fun m hm =>
      ha m (List.mem_append_left _ hm)
    obtain ⟨head', hhead', hpiece⟩ := hhead.commented (fun l hl => hg l (by simp [hl])) hread hnode
    obtain ⟨inside', hinside, hpieces⟩ := ih₁ (fun l hl => hg l (by simp [hl])) hms
      fun m hm => hnode m (hhead.inside_mem hm)
    obtain ⟨ns', hns, hmore⟩ := ih₂ (fun l hl => hg l (by simp [hl])) hls
      fun m hm => ha m (List.mem_append_right _ hm)
    exact ⟨_, .block hhead' hinside hclose hns, Stmt.pieces_mute_cons (hpiece inside' hpieces) hmore⟩

end Parse

/-- **Sources** with a comment in place of a blank: if the source with the blank has a tree that
admits a comment there, and a blank is beside the comment or the blank parts nothing, the source has
a tree of the same statements, but for texts. -/
theorem parse_blanked {source : String} {before behind : List Lexeme} {c : Lexeme}
    (h : tokenize source = .ok (before ++ c :: behind))
    (hc : c.token = .lineComment ∨ c.token = .blockComment)
    {tree : Node} (hparse : parse (blanked before behind) = .ok tree)
    (hbeside : BesideBlank before behind ∨
      ∀ n ∈ tree.nodes, n.PartsNothing (IsBlankAt (width (texts before))))
    (ha : ∀ n ∈ tree.nodes, n.Admits (IsBlankAt (width (texts before)))) :
    ∃ tree', parse source = .ok tree' ∧
      Stmt.muteAll (Stmt.ofTree tree') = Stmt.muteAll (Stmt.ofTree tree) := by
  obtain ⟨ls, ns, hls, hns, rfl⟩ := parse_iff.1 hparse
  obtain ⟨ls', ms, hls', hcommented, hwords⟩ := tokenize_blanked h hc
  -- the source with the blank has the lexemes from which its tree is read
  obtain rfl : ls = ls' := Except.ok.inj (hls.symm.trans hls')
  -- a blank is bare if there is no other beside the comment
  have hallows : ∀ m ∈ nodesAll ns, m.Allows (IsBlankAt (width (texts before)))
      fun n => IsBlankAt (width (texts before)) n ∧ ¬ BesideBlank before behind := by
    intro m hm
    refine ⟨ha m (mem_nodes_of_children hm), ?_⟩
    rcases hbeside with hbeside | hbeside
    · exact partsNothing_of_none (fun n hn => hn.2 hbeside) m
    · exact (hbeside m (mem_nodes_of_children hm)).mono fun n hn => hn.1
  obtain ⟨ns', hns', hpieces⟩ := hns.commented (genuine_of_tokenize hls).1 hcommented hallows
  obtain ⟨ns'', hns'', hbare⟩ := hns'.move (show Parse.SameToken none none from rfl) hwords
  refine ⟨_, parse_iff.2 ⟨_, ns'', h, hns'', rfl⟩, ?_⟩
  show Stmt.muteAll (Stmt.ofNodes ns'') = Stmt.muteAll (Stmt.ofNodes ns)
  rw [← Stmt.ofNodes_bare ns'', hbare, Stmt.ofNodes_bare]
  exact Stmt.muteAll_assemble hpieces

end Stylesheet
