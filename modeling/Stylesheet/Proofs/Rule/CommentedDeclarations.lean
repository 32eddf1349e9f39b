import Mathlib.Data.List.TakeWhile
import Stylesheet.Proofs.Rule.Commented
import Stylesheet.Proofs.Syntax.Commented
import Stylesheet.Proofs.Syntax.Standing

/-!
# Declarations with comments

A declaration takes comments at the blanks behind its colon, but for those behind its flags and
those behind a value that ends with a sign. What it declares is the same, but for texts.

* `Node.Admits`: what may not be marked in a node.
* `Parse.Pieces.Fits.commented`: a declaration with comments at marked blanks.
-/

namespace Stylesheet

open Lexeme Node Parse

/-! ### What may be marked -/

namespace Stmt

/-- **What may not be marked** among the children of a declaration: the blanks before the colon,
those behind a flag, and those behind a value that ends with a sign. -/
structure AdmitsParts (Marked : Node → Prop) (cs : List Node) : Prop where
  front : ∀ b ∈ cs.takeWhile (!·.is .punctuation), ¬ Marked b
  flags : ∀ b ∈ cs.dropWhile (!·.is .flag), ¬ Marked b
  sign : ∀ v ∈ cs.find? (·.is .value), Expr.endsWithSign v.children = true →
    ∀ b ∈ cs.dropWhile (!·.is .value), ¬ Marked b

end Stmt

/-- **What may not be marked** in a node. -/
structure Node.Admits (Marked : Node → Prop) (n : Node) : Prop where
  call : Sheltered Marked n
  declaration : n.is .declaration = true → Stmt.AdmitsParts Marked n.children
  rule : n.is .atRule = true → Stmt.Admits Marked n.callee (Rule.parameters n.children)

section

variable {Marked : Node → Prop} [DecidablePred Marked]

instance (n : Node) : Decidable (Sheltered Marked n) := by
  unfold Sheltered
  infer_instance

/-- Whether no blank of a kind shows is computed node by node. -/
instance decidableSpared (p : Expr.Spot) : (ns : List Node) → Decidable (Spared Marked p ns)
  | [] => .isTrue trivial
  | n :: ns =>
    have := decidableSpared (p.past n) ns
    inferInstanceAs (Decidable ((Marked n → p.Spares ns) ∧ Spared Marked (p.past n) ns))

instance (n : Node) : Decidable (n.PartsNothing Marked) :=
  inferInstanceAs (Decidable (Spared Marked .front n.readTogether))

instance (keyword : String) (params : List Node) : Decidable (Stmt.Admits Marked keyword params) :=
  decidable_of_iff
    ((keyword = "import" → ∀ n ∈ params, n.is .function = true → ∀ b ∈ n.nodes, ¬ Marked b) ∧
      (keyword = "else" → (Stmt.elseIf? params).isSome = true →
        ∀ b ∈ params.takeWhile (fun n : Node => n.is .space), ¬ Marked b))
    ⟨fun h => ⟨h.1, h.2⟩, fun h => ⟨h.calls, h.condition⟩⟩

instance (cs : List Node) : Decidable (Stmt.AdmitsParts Marked cs) :=
  decidable_of_iff
    ((∀ b ∈ cs.takeWhile (fun n : Node => !n.is .punctuation), ¬ Marked b) ∧
      (∀ b ∈ cs.dropWhile (fun n : Node => !n.is .flag), ¬ Marked b) ∧
      ∀ v ∈ cs.find? (fun n : Node => n.is .value), Expr.endsWithSign v.children = true →
        ∀ b ∈ cs.dropWhile (fun n : Node => !n.is .value), ¬ Marked b)
    ⟨fun h => ⟨h.1, h.2.1, h.2.2⟩, fun h => ⟨h.front, h.flags, h.sign⟩⟩

instance (n : Node) : Decidable (n.Admits Marked) :=
  decidable_of_iff
    (Sheltered Marked n ∧ (n.is .declaration = true → Stmt.AdmitsParts Marked n.children) ∧
      (n.is .atRule = true → Stmt.Admits Marked n.callee (Rule.parameters n.children)))
    ⟨fun h => ⟨h.1, h.2.1, h.2.2⟩, fun h => ⟨h.call, h.declaration, h.rule⟩⟩

end

namespace Parse

variable {Marked Bare : Node → Prop}

/-! ### Declarations -/

theorem trivia_is_of_ne (l : Lexeme) {k : Kind}
    (h : k ≠ .space ∧ k ≠ .lineComment ∧ k ≠ .blockComment) : l.trivia.is k = false := by
  rcases trivia_kind l with hk | hk | hk <;> simp [is, hk, h.1.symm, h.2.1.symm, h.2.2.symm]

/-- The children of a declaration, cut behind the blanks that follow its value. -/
theorem Pieces.node_children (p : Pieces) :
    p.node.children = p.before ++
      (.sequence .value p.value (some (spanOf p.value)) :: p.trailing) ++
        (p.flags.map flagOrBlank ++ (p.semicolon.map fun l => l.leaf .punctuation).toList) := by
  obtain ⟨span, hnode⟩ := p.node_eq
  simp [hnode, Node.children, Pieces.behind]

/-- Before its flags a declaration has none. -/
theorem Pieces.Fits.no_flag {p : Pieces} {name items : List Lexeme} (h : p.Fits name items) :
    ∀ n ∈ p.before ++ (.sequence .value p.value (some (spanOf p.value)) :: p.trailing),
      n.is .flag = false := by
  have htrivia (l : Lexeme) : l.trivia.is .flag = false := trivia_is_of_ne l (by simp)
  intro n hn
  simp only [Pieces.before, List.cons_append, List.mem_cons, List.mem_append, List.mem_map,
    List.not_mem_nil, or_false] at hn
  rcases hn with rfl | ((⟨l, -, rfl⟩ | rfl) | ⟨l, -, rfl⟩) | rfl | hn
  · simp [is, h.property.kind_eq]
  · exact htrivia l
  · rfl
  · exact htrivia l
  · rfl
  · have := p.trailing_is_space n hn
    simp only [is, beq_iff_eq] at this
    simp [is, this]

/-- The statement of a declaration, by its pieces. -/
theorem Pieces.Fits.ofDeclaration {p : Pieces} {name items : List Lexeme} (h : p.Fits name items) :
    Stmt.ofDeclaration p.node =
      match (p.property.firstChild? .variable).bind text? with
      | none => .inert
      | some v =>
          .declare v (.ofNodes p.value)
            ((((p.flags.map flagOrBlank).filter (·.is .flag)).filterMap text?).contains "default")
            ((((p.flags.map flagOrBlank).filter (·.is .flag)).filterMap text?).contains "global") := by
  obtain ⟨span, hnode⟩ := p.node_eq
  have hproperty : p.node.firstChild? .property = some p.property := by
    simp [hnode, firstChild?, Node.children, Pieces.before, is, h.property.kind_eq]
  have hflags :
      p.node.children.filter (·.is .flag) = (p.flags.map flagOrBlank).filter (·.is .flag) := by
    have hnone : (p.before ++ (.sequence .value p.value (some (spanOf p.value)) ::
        p.trailing)).filter (·.is .flag) = [] :=
      List.filter_eq_nil_iff.2 fun n hn => by simp [h.no_flag n hn]
    have hsemicolon :
        ((p.semicolon.map fun l => l.leaf .punctuation).toList).filter (·.is .flag) = [] := by
      cases p.semicolon <;> rfl
    rw [p.node_children, List.filter_append, hnone, List.filter_append, hsemicolon, List.append_nil]
    rfl
  simp only [Stmt.ofDeclaration, hproperty, (Export.firstChild?_value h), hflags]
  rfl

section

variable {p : Pieces} {name items : List Lexeme} (h : p.Fits name items)
  (ha : Stmt.AdmitsParts Marked p.node.children)
include h ha

/-- The blanks before the colon are not marked. -/
theorem Pieces.Fits.blanks_unmarked : ∀ b ∈ p.blanks, ¬ Marked b.trivia := by
  intro b hb
  obtain ⟨span, hnode⟩ := p.node_eq
  refine ha.front _ ?_
  have hfront : ∀ n ∈ p.property :: p.blanks.map Lexeme.trivia,
      (!n.is .punctuation) = true := by
    intro n hn
    rcases List.mem_cons.1 hn with rfl | hn
    · simp [is, h.property.kind_eq]
    · obtain ⟨l, -, rfl⟩ := List.mem_map.1 hn
      simp [trivia_is_of_ne l (k := .punctuation) (by simp)]
  simp only [hnode, Node.children, Pieces.before, List.append_assoc]
  rw [List.takeWhile_append_of_pos hfront]
  exact List.mem_append_left _ (List.mem_cons_of_mem _ (List.mem_map_of_mem hb))

/-- No blank behind a flag is marked. -/
theorem Pieces.Fits.flags_unmarked : ∀ b ∈ p.flags, b.token = .space → ¬ Marked b.trivia := by
  intro b hb hspace
  obtain ⟨f, fs, hf⟩ := List.exists_cons_of_ne_nil (List.ne_nil_of_mem hb)
  have hflag : f.token = .flag := h.flag _ (by rw [hf]; rfl)
  refine ha.flags _ ?_
  have hkeep : (!(flagOrBlank f).is .flag) = false := by
    rw [flagOrBlank, if_pos hflag]
    rfl
  have hb' : flagOrBlank b = b.trivia := by rw [flagOrBlank, if_neg (by simp [hspace])]
  rw [p.node_children, List.dropWhile_append_of_pos fun n hn => by simp [h.no_flag n hn], hf,
    List.map_cons, List.cons_append, List.dropWhile_cons, hkeep, ← List.cons_append,
    ← List.map_cons, ← hf, ← hb']
  exact List.mem_append_left _ (List.mem_map_of_mem hb)

/-- If a blank behind the value is marked, the value does not end with a sign. -/
theorem Pieces.Fits.trailing_unmarked (hsign : Expr.endsWithSign p.value = true) :
    ∀ b ∈ p.trailing, ¬ Marked b := by
  intro b hb
  obtain ⟨span, hnode⟩ := p.node_eq
  refine ha.sign _ (Export.firstChild?_value h) hsign b ?_
  rw [hnode, Node.children, List.dropWhile_append_of_pos fun n hn => by simp [h.before_kinds n hn]]
  refine List.mem_cons_of_mem _ ?_
  rw [Pieces.behind, List.append_assoc]
  exact List.mem_append_left _ hb

end

/-- The blank behind the colon, of which comments may become items of the value. -/
theorem blank_commented {blank blank' items items' : List Lexeme}
    (h : (blank = [] ∧ first items ≠ some .space) ∨ ∃ l, blank = [l] ∧ l.token = .space)
    (hitems : Lexeme.Commented Marked Bare items items') (hne : items ≠ [])
    (hc : Lexeme.Commented Marked Bare blank blank') :
    ∃ b gs, blank' = b ++ gs ∧ (∀ g ∈ gs, g.token.isTrivia = true) ∧
      ((b = [] ∧ first (gs ++ items') ≠ some .space) ∨ ∃ l, b = [l] ∧ l.token = .space) := by
  rcases h with ⟨rfl, hfirst⟩ | ⟨l, rfl, hl⟩
  · refine ⟨[], [], hc.nil_left, nofun, .inl ⟨rfl, ?_⟩⟩
    obtain ⟨m, ms, rfl⟩ := List.exists_cons_of_ne_nil hne
    have hm : m.token ≠ .space := fun hm => hfirst (congrArg some hm)
    rw [List.nil_append, hitems.first_ne rfl hm]
    exact fun h => hm (Option.some.inj h)
  · cases hc with
    | keep _ hc =>
      rw [hc.nil_left]
      exact ⟨[l], [], rfl, nofun, .inr ⟨l, rfl, hl⟩⟩
    | @gap _ gs _ ls' _ _ hgs _ hc =>
      rw [hc.nil_left, List.append_nil]
      obtain ⟨g, gs, rfl⟩ := List.exists_cons_of_ne_nil hgs.ne_nil
      by_cases hg : g.token = .space
      · exact ⟨[g], gs, rfl, fun m hm => hgs.trivia m (List.mem_cons_of_mem _ hm),
          .inr ⟨g, rfl, hg⟩⟩
      · exact ⟨[], g :: gs, rfl, hgs.trivia, .inl ⟨rfl, fun h => hg (Option.some.inj h)⟩⟩

/-- What stands behind the last node that is no blank stays behind it. -/
theorem dropBack {q : Node → Bool} {n : Node} (hn : q n = false) (front ts : List Node) :
    ((front ++ n :: ts).reverse.dropWhile q).reverse =
      front ++ n :: (ts.reverse.dropWhile q).reverse := by
  rw [List.reverse_append, List.reverse_cons, List.append_assoc, List.dropWhile_append]
  split
  · next h =>
    rw [List.isEmpty_iff.1 h, List.singleton_append, List.dropWhile_cons_of_neg (by simp [hn])]
    simp
  · simp

/-- The last node of a value is no blank. -/
theorem Pieces.last_of_value {p : Pieces} {front : List Node} {last : Node}
    (h : p.value = front ++ [last]) : last.is .space = false := by
  have hback : p.found.reverse.dropWhile (·.is .space) = last :: front.reverse := by
    have hrev := congrArg List.reverse h
    rwa [Pieces.value, List.reverse_reverse, List.reverse_append] at hrev
  have hfirst := List.head?_dropWhile_not (·.is .space) p.found.reverse
  rw [hback] at hfirst
  exact hfirst

/-- Commented nodes end in no blank if the last of the nodes is none. -/
theorem last_commented {p : Expr.Spot} {front ns' : List Node} {last : Node}
    (h : Node.Commented Marked p (front ++ [last]) ns') (hlast : last.is .space = false) :
    ∃ front' last', ns' = front' ++ [last'] ∧ last'.is .space = false := by
  obtain ⟨front', lasts, rfl, -, hlasts⟩ := h.of_append
  -- only the last node is cut off, so it is one node with comments too
  suffices hone : ∃ last', lasts = [last'] ∧ last'.is .space = false by
    obtain ⟨last', rfl, hlast'⟩ := hone
    exact ⟨front', last', rfl, hlast'⟩
  cases hlasts with
  | keep _ hnil =>
    rw [hnil.nil_left]
    exact ⟨last, rfl, hlast⟩
  | gap _ hblank _ _ _ =>
    obtain ⟨b, hb, hbspace⟩ := hblank.blank
    rw [List.mem_singleton.1 hb, hlast] at hbspace
    cases hbspace
  | bracket hk _ hnil =>
    rw [hnil.nil_left]
    refine ⟨_, rfl, ?_⟩
    rcases hk with rfl | rfl <;> rfl
  | call _ _ hnil =>
    rw [hnil.nil_left]
    exact ⟨_, rfl, rfl⟩

/-- **The value of a declaration** with comments at marked blanks, with some in front and, unless it
ends with a sign, with some behind it. -/
theorem Pieces.Fits.value_commented {p : Pieces} (p' : Pieces) {name items : List Lexeme}
    (h : p.Fits name items) {gs value ts : List Node}
    (hgs : ∀ g ∈ gs, g.isTrivia = true ∧ ∃ k t s, g = .leaf k t s)
    (hvalue : Node.Commented Marked .front p.value value)
    (hts : ∀ t ∈ ts, t.isTrivia = true ∧ ∃ k u s, t = .leaf k u s)
    (hsign : Expr.endsWithSign p.value = true → ∀ t ∈ ts, t.is .space = true)
    (hfound : p'.found = gs ++ (value ++ ts)) :
    p'.value ≠ [] ∧ (Expr.ofNodes p'.value).mute = (Expr.ofNodes p.value).mute := by
  obtain ⟨front', last', rfl, hlast'⟩ := by
    have hlast := (List.dropLast_concat_getLast h.value).symm
    exact last_commented (hlast ▸ hvalue) (Pieces.last_of_value hlast)
  have hrest : p'.value = gs ++ ((front' ++ [last']) ++
      (ts.reverse.dropWhile (·.is .space)).reverse) := by
    have hsplit : p'.found = (gs ++ front') ++ last' :: ts := by
      rw [hfound]
      simp
    rw [Pieces.value, hsplit, dropBack hlast']
    simp
  refine ⟨by rw [hrest]; simp, ?_⟩
  rw [hrest, Expr.ofNodes_behind hgs]
  cases hends : Expr.endsWithSign p.value with
  | false =>
    have hbehind : ∀ t ∈ (ts.reverse.dropWhile (·.is .space)).reverse,
        t.isTrivia = true ∧ ∃ k u s, t = .leaf k u s := fun t ht =>
      hts t (List.mem_reverse.1 ((List.dropWhile_suffix _).subset (List.mem_reverse.1 ht)))
    rw [Expr.ofNodes_commented (hvalue.append_trivia hbehind), Expr.ofNodes_before hbehind hends]
  | true =>
    have hnone : ts.reverse.dropWhile (·.is .space) = [] :=
      List.dropWhile_eq_nil_iff.2 fun t ht => hsign hends t (List.mem_reverse.1 ht)
    rw [hnone, List.reverse_nil, List.append_nil, Expr.ofNodes_commented hvalue]

theorem exists_of_mem_nodesAll {n : Node} {ns : List Node} (h : n ∈ nodesAll ns) :
    ∃ m ∈ ns, n ∈ m.nodes := by
  induction ns with
  | nil => cases h
  | cons m ns ih =>
    rcases List.mem_append.1 h with h | h
    · exact ⟨m, List.mem_cons_self, h⟩
    · obtain ⟨k, hk, hn⟩ := ih h
      exact ⟨k, List.mem_cons_of_mem _ hk, hn⟩

/-- The value is below the declaration. -/
theorem Pieces.value_mem (p : Pieces) :
    .sequence .value p.value (some (spanOf p.value)) ∈ p.node.nodes := by
  obtain ⟨span, hnode⟩ := p.node_eq
  refine mem_nodes_of_children (mem_nodesAll_of_nodes ?_ (self_mem_nodes _))
  simp [hnode, Node.children]

/-- The nodes of the name and of the value are below the declaration. -/
theorem Pieces.mem_nodes (p : Pieces) {n : Node}
    (h : n ∈ p.property.nodes ∨ n ∈ nodesAll p.value) : n ∈ p.node.nodes := by
  obtain ⟨span, hnode⟩ := p.node_eq
  refine mem_nodes_of_children ?_
  rcases h with h | h
  · refine mem_nodesAll_of_nodes (m := p.property) ?_ h
    simp [hnode, Node.children, Pieces.before]
  · refine mem_nodesAll_of_nodes (m := .sequence .value p.value (some (spanOf p.value))) ?_
      (mem_nodes_of_children h)
    simp [hnode, Node.children]

/-- The blanks behind the value with comments at those that are marked. -/
theorem Pieces.Fits.trailing_commented {p : Pieces} {name items ts ts' : List Lexeme}
    (h : p.Fits name items) (ha : Stmt.AdmitsParts Marked p.node.children)
    (hts : Items .declaration ts p.trailing) (hc : Lexeme.Commented Marked Bare ts ts') :
    (∀ t ∈ ts', t.token.isTrivia = true) ∧
      (Expr.endsWithSign p.value = true → ∀ t ∈ ts'.map Lexeme.trivia, t.is .space = true) := by
  obtain ⟨hspace, heq⟩ := hts.of_spaces p.trailing_is_space
  refine ⟨hc.trivia fun t ht => by rw [hspace t ht]; rfl, fun hsign => ?_⟩
  have hunmarked := h.trailing_unmarked ha hsign
  rw [heq] at hunmarked
  rw [hc.eq_of_unmarked fun b hb _ => hunmarked _ (List.mem_map_of_mem hb), ← heq]
  exact p.trailing_is_space

/-- **Declarations** with comments at marked blanks. -/
theorem Pieces.Fits.commented {p : Pieces} {name items ls' : List Lexeme} (h : p.Fits name items)
    (hc : Lexeme.Commented Marked Bare (p.lexemes name items) ls')
    (hs : ∀ n ∈ p.node.nodes, n.Takes Marked Bare)
    (ha : Stmt.AdmitsParts Marked p.node.children) :
    ∃ (q : Pieces) (name' items' : List Lexeme), q.Fits name' items' ∧ ls' = q.lexemes name' items' ∧
      q.semicolon = p.semicolon ∧
      (Stmt.ofDeclaration q.node).mute = (Stmt.ofDeclaration p.node).mute := by
  simp only [Pieces.lexemes, Front.lexemes, List.append_assoc, List.cons_append] at hc
  obtain ⟨name', ls₁, rfl, hname, hc⟩ := hc.of_append
  obtain ⟨blanks, ls₂, rfl, hblanks, hc⟩ := hc.of_append
  obtain ⟨ls₃, rfl, hbehind⟩ := hc.of_cons (by simp [h.colon])
  obtain ⟨blank, ls₄, rfl, hblank, hbehind⟩ := hbehind.of_append
  obtain ⟨items', ls₅, rfl, hitems, hbehind⟩ := hbehind.of_append
  obtain ⟨flags, semicolon, rfl, hflags, hsemi⟩ := hbehind.of_append
  -- before the colon and behind the flags nothing is commented
  obtain rfl := hblanks.eq_of_unmarked fun b hb _ => h.blanks_unmarked ha b hb
  obtain rfl := hflags.eq_of_unmarked fun b hb hspace => h.flags_unmarked ha b hb hspace
  obtain rfl := hsemi.eq_of_unmarked fun b hb hspace => by
    rw [h.semicolon b (Option.mem_toList.1 hb)] at hspace
    cases hspace
  obtain ⟨property, hproperty, hvariable⟩ :=
    h.property.commented hname fun m hm => hs m (p.mem_nodes (.inl hm))
  obtain ⟨b, gs, rfl, hgs, hb⟩ := blank_commented h.blank hitems h.items_ne_nil hblank
  -- the items of the value and the blanks behind them are commented apart
  obtain ⟨vs, ts, rfl, hvs, hts⟩ := h.split
  obtain ⟨vs', ts', rfl, hcvs, hcts⟩ := hitems.of_append
  obtain ⟨value, hvalue, hcvalue⟩ := hvs.commented hcvs
    (fun m hm => hs m (p.mem_nodes (.inr hm))) (hs _ p.value_mem).parts
  obtain ⟨htrivia, hspaces⟩ := h.trailing_commented ha hts hcts
  -- comments in front of the value are items of it, and so are those behind it
  let q : Pieces := ⟨⟨(name'.head?.map (·.span.start)).getD 0, property, p.blanks, p.colon, b⟩,
    gs.map Lexeme.trivia ++ (value ++ ts'.map Lexeme.trivia), p.flags, p.semicolon⟩
  obtain ⟨hne, hsame⟩ := h.value_commented q (map_trivia hgs) hcvalue (map_trivia htrivia)
    hspaces rfl
  have hfit : q.Fits name' (gs ++ (vs' ++ ts')) :=
    { start := fun l hl => by simp [q, Option.mem_def.1 hl]
      property := hproperty
      blanks := h.blanks
      colon := h.colon
      blank := hb
      items := (hvalue.before_trivia htrivia).behind_trivia hgs
      value := hne
      flags := h.flags
      flag := h.flag
      semicolon := h.semicolon }
  refine ⟨q, name', gs ++ (vs' ++ ts'), hfit, ?_, rfl, ?_⟩
  · simp [Pieces.lexemes, Front.lexemes, q]
  · rw [hfit.ofDeclaration, h.ofDeclaration, show q.property = property from rfl, hvariable,
      show q.flags = p.flags from rfl]
    split
    · rfl
    · rw [Stmt.mute, Stmt.mute, hsame]

end Parse
end Stylesheet
