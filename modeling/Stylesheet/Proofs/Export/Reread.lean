import Stylesheet.Proofs.Export.Relexed
import Stylesheet.Proofs.Syntax.Places

/-!
# Reading wrapped declarations again

The printed text of a tree with wrapped values reads as the tree in which each value is one call
with the items of the value among its arguments. The only thing in the way is a value that ends in
a line comment, which takes the closing parenthesis in.

* `reread`: the tree that the text should read as.
* `swallows`: declarations whose closing parenthesis is lost.
* `wrappedPieces_fits`: the pieces of a declaration with the call for its value.
* `wrapped_fails`: no declaration reads where the closing parenthesis is lost.
-/

namespace Stylesheet

open Lexeme Node Parse

namespace Export

/-- A call as it reads, the items of the value being among its arguments. -/
def readCall (function name : String) (items : List Node) : Node :=
  .sequence .function
    [.leaf .identifier function none,
      .sequence .arguments
        (.leaf .stringDouble name none :: .leaf .punctuation "," none :: items) none]
    none

/-- A value of which the call is the only item. -/
def readValue (function name : String) (n : Node) : Node :=
  if n.is .value then .sequence .value [readCall function name n.children] n.span else n

/-- A node with each child replaced. -/
def mapChildren (f : Node → Node) : Node → Node
  | .sequence k cs s => .sequence k (cs.map f) s
  | n => n

/-- The name of the variable that a declaration binds. -/
def boundName? (n : Node) : Option String :=
  if n.is .declaration then (declared? n).bind Node.text? else none

/-- A declaration whose value reads as a call if it binds a variable. -/
def readNode (function : String) (n : Node) : Node :=
  match boundName? n with
  | some name => mapChildren (readValue function name) n
  | none => n

/-- The tree with the value of every top-level variable declaration read as a call. -/
def reread (function : String) (tree : Node) : Node := mapChildren (readNode function) tree

/-- The declaration of a variable whose value ends in a line comment. -/
def swallows (n : Node) : Bool :=
  (boundName? n).isSome &&
    (n.firstChild? .value).any fun v => v.children.getLast?.any (·.is .lineComment)

end Export

namespace Parse

/-! ### The nodes of a declaration -/

theorem trivia_kind (l : Lexeme) :
    l.trivia.kind = .space ∨ l.trivia.kind = .lineComment ∨ l.trivia.kind = .blockComment := by
  unfold Lexeme.trivia
  split
  · exact .inr (.inl rfl)
  · exact .inr (.inr rfl)
  · exact .inl rfl

theorem flagOrBlank_kind (l : Lexeme) : (flagOrBlank l).kind ≠ .value := by
  unfold flagOrBlank
  split
  · exact nofun
  · rcases trivia_kind l with h | h | h <;> simp [h]

theorem Property.kind_eq {ls : List Lexeme} {n : Node} (h : Property ls n) : n.kind = .property := by
  cases h <;> rfl

theorem Pieces.Fits.before_kinds {p : Pieces} {name items : List Lexeme} (h : p.Fits name items) :
    ∀ n ∈ p.before, n.is .value = false := by
  intro n hn
  simp only [Pieces.before, List.cons_append, List.mem_cons, List.mem_append, List.mem_map,
    List.not_mem_nil, or_false] at hn
  rcases hn with rfl | (⟨l, -, rfl⟩ | rfl) | ⟨l, -, rfl⟩
  · simp [Node.is, h.property.kind_eq]
  · rcases trivia_kind l with h | h | h <;> simp [Node.is, h]
  · rfl
  · rcases trivia_kind l with h | h | h <;> simp [Node.is, h]

theorem Pieces.behind_kinds (p : Pieces) : ∀ n ∈ p.behind, n.is .value = false := by
  intro n hn
  simp only [Pieces.behind, List.mem_append, List.mem_map, Option.mem_toList] at hn
  rcases hn with (hn | ⟨l, -, rfl⟩) | hn
  · have hk : n.kind = .space := by simpa [Node.is] using p.trailing_is_space n hn
    simp [Node.is, hk]
  · simpa [Node.is] using flagOrBlank_kind l
  · obtain ⟨l, -, rfl⟩ := Option.map_eq_some_iff.1 hn
    rfl

theorem PropertyParts.kinds {ls : List Lexeme} {ns : List Node} (h : PropertyParts ls ns) :
    ∀ n ∈ ns, n.is .variable = false := by
  induction h with
  | nil => nofun
  | word _ _ ih => exact List.forall_mem_cons.2 ⟨rfl, ih⟩
  | interpolation _ _ _ _ ih => exact List.forall_mem_cons.2 ⟨rfl, ih⟩

/-- The variable that a declaration binds is its left side. -/
theorem Pieces.Fits.declared {p : Pieces} {name items : List Lexeme} (h : p.Fits name items) :
    (∃ l, name = [l] ∧ l.token = .variable ∧
        Export.declared? p.node = some (l.inner .variable 1 0)) ∨
      Export.declared? p.node = none := by
  have hfirst : p.node.firstChild? .property = some p.property := by
    obtain ⟨span, hnode⟩ := p.node_eq
    simp [hnode, Node.firstChild?, Node.children, Pieces.before, Node.is, h.property.kind_eq]
  have hprop := h.property
  unfold Export.declared?
  rw [hfirst]
  generalize p.property = n at hprop
  cases hprop with
  | @ofVariable l ht => exact .inl ⟨l, rfl, ht, rfl⟩
  | ofParts hp _ =>
    refine .inr ?_
    simpa [Node.firstChild?, Node.children] using hp.kinds

/-! ### Items in parentheses -/

/-- Items may stand in parentheses, whatever ends them elsewhere. -/
theorem Items.inParentheses {stop : Stop} {ls : List Lexeme} {ns : List Node}
    (h : Items stop ls ns) : Items .closeParen ls ns := by
  induction h with
  | nil => exact .nil
  | @leaf stop l n ls ns _ hn hp _ ih =>
    refine .leaf ?_ hn hp ih
    obtain ⟨t, text, span⟩ := l
    cases t <;> simp_all [Lexeme.item?, Stop.isAt]
  | bracket hfit hin hclose _ _ ih => exact .bracket hfit hin hclose ih

/-- Items end in a line comment exactly if their lexemes do. -/
theorem Items.last_comment {stop : Stop} {ls : List Lexeme} {ns : List Node}
    (h : Items stop ls ns) :
    ((∀ n ∈ ns.getLast?, n.is .lineComment = false) ∧ ∀ l ∈ ls.getLast?, l.token ≠ .lineComment) ∨
      ∃ init comment ms n, ls = init ++ [comment] ∧ ns = ms ++ [n] ∧ Items stop init ms ∧
        comment.token = .lineComment ∧ n.is .lineComment = true := by
  rcases ns.eq_nil_or_concat with rfl | ⟨ms, n, rfl⟩
  · cases h with
    | nil => exact .inl (by simp)
  rw [List.concat_eq_append] at h ⊢
  obtain ⟨init, last, rfl, hinit, hlast⟩ := h.split
  have hmem {m : Node} (hm : m ∈ (ms ++ [n]).getLast?) : m = n := by
    rw [List.getLast?_concat] at hm
    exact (Option.some.inj hm).symm
  cases hlast with
  | @leaf _ l _ _ _ _ hn _ hnil =>
    cases hnil with
    | nil =>
      by_cases hl : l.token = .lineComment
      · refine .inr ⟨init, l, ms, n, rfl, rfl, hinit, hl, ?_⟩
        simp only [Lexeme.item?, hl, Lexeme.trivia, Option.some.injEq] at hn
        subst hn
        rfl
      · refine .inl ⟨fun m hm => ?_, fun m hm => ?_⟩
        · rw [hmem hm]
          obtain ⟨t, text, span⟩ := l
          cases t <;> simp_all [Lexeme.item?, Lexeme.trivia, Lexeme.leaf, Lexeme.inner, Node.is] <;>
            subst hn <;> simp [Node.kind]
        · rw [List.getLast?_concat] at hm
          rwa [← Option.some.inj hm]
  | @bracket _ o qs _ inside _ close hfit _ hclose hnil =>
    cases hnil with
    | nil =>
      refine .inl ⟨fun m hm => ?_, fun m hm => ?_⟩
      · rw [hmem hm]
        cases o <;> rfl
      · rw [← List.append_assoc, ← List.append_assoc, List.getLast?_concat] at hm
        rw [← Option.some.inj hm, hclose]
        cases o <;> simp [Opening.closer]

/-- A failure behind one item is a failure. -/
theorem items_fails_leaf {stop : Stop} {l : Lexeme} {n : Node} {rest : List Lexeme}
    (hs : stop.isAt l.token = false) (ho : opening? l rest = none) (hn : l.item? = some n)
    (h : (items stop rest).isOk = false) : (items stop (l :: rest)).isOk = false := by
  rw [items, if_neg (by simp [hs])]
  simp only [ho, hn]
  split
  · rfl
  · next hok =>
    rw [hok] at h
    cases h

/-- A failure inside a bracket is a failure. -/
theorem items_fails_inside {stop : Stop} {l : Lexeme} {tail : List Lexeme} {o : Opening}
    {rest : { ls : List Lexeme // ls.length ≤ tail.length }} (hs : stop.isAt l.token = false)
    (ho : opening? l tail = some (o, rest)) (h : (items o.stop rest.1).isOk = false) :
    (items stop (l :: tail)).isOk = false := by
  rw [items, if_neg (by simp [hs])]
  simp only [ho]
  split
  · rfl
  · next hok =>
    rw [hok] at h
    cases h

/-- A failure behind some items is a failure of all. -/
theorem Items.fails {stop : Stop} {read : List Lexeme} {ns : List Node} (h : Items stop read ns)
    {rest : List Lexeme} (hfirst : first rest ≠ some .openParen)
    (hrest : (items stop rest).isOk = false) : (items stop (read ++ rest)).isOk = false := by
  induction h with
  | nil => exact hrest
  | @leaf stop l n ls ns hs hn hp _ ih =>
    have ho : opening? l (ls ++ rest) = none := by
      refine (opening?_eq_none hn).2 fun ht => ?_
      cases ls with
      | nil => exact hfirst
      | cons m ms => exact hp ht
    exact items_fails_leaf hs ho hn (ih hrest)
  | @bracket stop o ms ls inside ns close hfit hin hclose _ _ ih =>
    obtain ⟨l, tail, hmarks⟩ : ∃ l tail, o.marks = l :: tail := by
      cases o <;> exact ⟨_, _, rfl⟩
    have hs : stop.isAt l.token = false := Stop.isAt_opener hfit stop l (by simp [hmarks])
    have ho : opening? l (tail ++ (ms ++ close :: (ls ++ rest))) =
        some (o, ⟨ms ++ close :: (ls ++ rest), by simp⟩) :=
      opening?_eq_some.2 ⟨hfit, by rw [hmarks]; rfl⟩
    obtain ⟨_, hms⟩ := items_complete hin (rfl : ms ++ close :: (ls ++ rest) = _)
      ((o.stop_eq _).2 hclose)
    have hc := expect_ok hclose (ls ++ rest)
    rw [show o.marks ++ (ms ++ close :: ls) ++ rest =
      l :: (tail ++ (ms ++ close :: (ls ++ rest))) by simp [hmarks], items, if_neg (by simp [hs])]
    simp only [ho, hms, hc]
    split
    · rfl
    · rename_i h
      rw [h] at ih
      cases ih hrest

/-- A declaration whose value fails does so itself. -/
theorem declaration_fails {p : Front} {name rest : List Lexeme} (h : p.Fits name (first rest))
    (hrest : (items .declaration rest).isOk = false) :
    (declaration (p.lexemes name ++ rest)).isOk = false := by
  obtain ⟨hlt, hf⟩ := front_complete h rfl
  simp only [declaration, hf]
  split
  · rfl
  · next hok =>
    rw [hok] at hrest
    cases hrest

/-- Statements fail at a declaration of a variable that does. -/
theorem statements_fails_declaration {l : Lexeme} {ms : List Lexeme} (hl : l.token = .variable)
    (h : (declaration (l :: ms)).isOk = false) (b : Bool) : (statements b (l :: ms)).isOk = false := by
  cases hd : declaration (l :: ms) with
  | ok x =>
    rw [hd] at h
    cases h
  | error e =>
    have hs : statement l ms = .error e := by simp only [statement, hl, plainDeclaration, hd]
    rw [statements, if_neg (by simp [hl])]
    simp only [hs]
    rfl

end Parse

namespace Export

/-! ### One declaration -/

/-- The lexemes that are put before a value. -/
def openMarks (function name : String) : List Lexeme :=
  [⟨.ident, function, ⟨0, 0⟩⟩, ⟨.openParen, "(", ⟨0, 0⟩⟩,
    ⟨.stringDouble, "\"" ++ name ++ "\"", ⟨0, 0⟩⟩, ⟨.comma, ",", ⟨0, 0⟩⟩]

/-- The lexeme that is put behind a value. -/
def closeMark : Lexeme := ⟨.closeParen, ")", ⟨0, 0⟩⟩

/-- The name of a variable, and that it may stand between quotes. -/
theorem variable_name {l : Lexeme} (h : l.Genuine) (ht : l.token = .variable) :
    (∀ c ∈ (l.inner .variable 1 0).text.toList,
        c ≠ '"' ∧ c ≠ '\\' ∧ c ≠ '\n' ∧ c ≠ '*' ∧ c ≠ '/') := by
  intro c hc
  have hmem : c ∈ l.text.toList := by
    simp only [Lexeme.inner, Node.text, Node.text?, Option.getD_some, String.toList_ofList] at hc
    exact List.mem_of_mem_drop (List.mem_of_mem_take hc)
  rw [Genuine, ht] at h
  have hallows := Pattern.allows_of_mem h hmem
  refine ⟨?_, ?_, ?_, ?_, ?_⟩ <;> rintro rfl <;> exact absurd hallows (by decide)

theorem opens_openMarks (function : String) {name : String}
    (hname : ∀ c ∈ name.toList, c ≠ '"' ∧ c ≠ '\\' ∧ c ≠ '\n' ∧ c ≠ '*' ∧ c ≠ '/') :
    Opens function.toList (openMarks function name) :=
  ⟨name.toList, hname, by simp [openMarks, word]⟩

theorem modify_middle {α : Type} (f : α → α) (xs : List α) (y : α) (ys : List α) :
    (xs ++ y :: ys).modify xs.length f = xs ++ f y :: ys := by
  induction xs with
  | nil => rfl
  | cons x xs ih => simpa using ih

variable {function : String} {p : Pieces} {name its : List Lexeme} {v : Lexeme}

theorem boundName_of_variable
    (hv : declared? p.node = some (v.inner .variable 1 0)) :
    boundName? p.node = some (v.inner .variable 1 0).text := by
  obtain ⟨span, hnode⟩ := p.node_eq
  have hkind : p.node.is .declaration = true := by rw [hnode]; rfl
  rw [boundName?, if_pos hkind, hv]
  rfl

/-- **Wrapping a declaration** puts the call in place of the value. -/
theorem wrapNode_of_variable (function : String) (h : p.Fits name its)
    (hv : declared? p.node = some (v.inner .variable 1 0)) :
    ∃ span, wrapNode function p.node = .ok (some (.sequence .declaration
      (p.before ++ call function (v.inner .variable 1 0).text
        (Node.sequence .value p.value (some (spanOf p.value))).bare :: p.behind) span)) := by
  obtain ⟨span, hnode⟩ := p.node_eq
  have hkind : p.node.is .declaration = true := by rw [hnode]; rfl
  have hindex : (p.before ++ .sequence .value p.value (some (spanOf p.value)) :: p.behind).findIdx?
      (·.is .value) = some p.before.length := by
    have hnone : p.before.findIdx? (·.is .value) = none :=
      List.findIdx?_eq_none_iff.2 h.before_kinds
    rw [List.findIdx?_append, hnone]
    simp [List.findIdx?_cons, Node.is, Node.kind]
  refine ⟨span, ?_⟩
  rw [wrapNode, if_pos hkind, wrapDeclaration, hv]
  simp only [Lexeme.inner, Node.text?, Node.text, Option.getD_some]
  rw [hnode]
  simp only [hindex, modify_middle]

/-- The lexemes of a declaration with a wrapped value. -/
def wrappedLexemes (p : Pieces) (name marks value' ts : List Lexeme) : List Lexeme :=
  p.toFront.lexemes name ++ (marks ++ (value' ++ (ts ++ (p.flags ++ p.semicolon.toList))))

/-- **The wrapped declaration prints** the lexemes with the call put in. -/
theorem wrapped_print (function : String) (h : p.Fits name its) (hg : ∀ l ∈ p.lexemes name its, l.Genuine)
    {vs ts vs' : List Lexeme} (hitems : its = vs ++ ts) (hvs : Items .declaration vs p.value)
    (hts : Items .declaration ts p.trailing) (hclosed : Closed vs vs') (vname : String)
    (span : Option Span) :
    (Node.sequence .declaration (p.before ++ call function vname
        (Node.sequence .value p.value (some (spanOf p.value))).bare :: p.behind) span).print.toList =
      texts (wrappedLexemes p name (openMarks function vname) vs' ts) := by
  subst hitems
  have hbefore := h.before_print fun l hl => hg l (by simp [Pieces.lexemes, Front.lexemes, hl])
  have hbehind := h.behind_print hts fun l hl => hg l (by
    rcases List.mem_append.1 hl with hl | hl <;> simp [Pieces.lexemes, hl])
  have hvalue := hvs.print fun l hl => hg l (by simp [Pieces.lexemes, hl])
  have hbare : (Node.sequence .value p.value (some (spanOf p.value))).bare.print.toList = texts vs := by
    rw [print_bare, print_sequence, hvalue]
    simp [Kind.marks]
  have hcall : (call function vname
      (Node.sequence .value p.value (some (spanOf p.value))).bare).print.toList =
        texts (openMarks function vname) ++ (texts vs ++ [')']) := by
    rw [call, print_sequence, printed_cons, printed_cons, print_sequence, printed_cons, printed_cons,
      printed_cons, hbare]
    simp [Node.print, Kind.wrap, Kind.marks, openMarks]
  rw [print_sequence, printed_append, printed_cons, hbefore, hbehind, hcall]
  simp [wrappedLexemes, hclosed.texts, Kind.marks]

/-- The lexemes with the call put in are a rewriting of those without. -/
theorem rewritten_declaration (h : p.Fits name its) {vs ts vs' marks : List Lexeme}
    (hitems : its = vs ++ ts) (hclosed : Closed vs vs') (hopens : Opens function.toList marks)
    {ls ls' : List Lexeme} (hrest : Rewritten function.toList ls ls') :
    Rewritten function.toList (p.lexemes name its ++ ls)
      (wrappedLexemes p name marks vs' ts ++ ls') := by
  subst hitems
  have hwrap := Rewritten.wrap h.colon (h.blank.imp_left fun hb => hb.1) hopens hclosed
    (((hrest.keep_all p.semicolon.toList).keep_all p.flags).keep_all ts)
  have := (hwrap.keep_all p.blanks).keep_all name
  simpa [Pieces.lexemes, Front.lexemes, wrappedLexemes] using this

/-- The call as the lexemes read. -/
def callNode (function vname : String) (inside : List Node) : Node :=
  (Opening.call ⟨.ident, function, ⟨0, 0⟩⟩ ⟨.openParen, "(", ⟨0, 0⟩⟩).node
    ((Lexeme.mk .stringDouble ("\"" ++ vname ++ "\"") ⟨0, 0⟩).inner .stringDouble 1 1 ::
      (Lexeme.mk .comma "," ⟨0, 0⟩).leaf .punctuation :: inside) closeMark

theorem bare_callNode (function vname : String) (inside : List Node) :
    (callNode function vname inside).bare = (readCall function vname inside).bare := by
  have hmid : (("\"" ++ vname ++ "\"").toList.drop 1).take (("\"" ++ vname ++ "\"").toList.length - 1 - 1) =
      vname.toList := by
    simp
  simp only [callNode, Opening.node, readCall, bare, bareAll, Lexeme.leaf, Lexeme.inner, hmid,
    String.ofList_toList]

/-- The pieces of the declaration with the call for a value. -/
def wrappedPieces (function vname : String) (p : Pieces) : Pieces :=
  { p with found := callNode function vname p.value :: p.trailing }

theorem wrappedPieces_value (function vname : String) (p : Pieces) :
    (wrappedPieces function vname p).value = [callNode function vname p.value] ∧
      (wrappedPieces function vname p).trailing = p.trailing := by
  have hspaces : ∀ n ∈ p.trailing.reverse, n.is .space = true := fun n hn =>
    p.trailing_is_space n (List.mem_reverse.1 hn)
  have hcall : (callNode function vname p.value).is .space = false := rfl
  have hfound : (wrappedPieces function vname p).found.reverse =
      p.trailing.reverse ++ [callNode function vname p.value] := by
    simp [wrappedPieces]
  constructor
  · rw [Pieces.value, hfound, List.dropWhile_append_of_pos hspaces]
    simp [hcall]
  · rw [Pieces.trailing, hfound, List.takeWhile_append_of_pos hspaces]
    simp [hcall]

theorem wrappedPieces_fits (function : String) (h : p.Fits name its) {vs ts : List Lexeme} (vname : String)
    (hvs : Items .declaration vs p.value) (hts : Items .declaration ts p.trailing) :
    (wrappedPieces function vname p).Fits name
        (openMarks function vname ++ ((vs ++ [closeMark]) ++ ts)) ∧
      (wrappedPieces function vname p).lexemes name
          (openMarks function vname ++ ((vs ++ [closeMark]) ++ ts)) =
        wrappedLexemes p name (openMarks function vname) (vs ++ [closeMark]) ts := by
  have hinside : Items .closeParen (openMarks function vname |>.drop 2 |>.append vs)
      ((Lexeme.mk .stringDouble ("\"" ++ vname ++ "\"") ⟨0, 0⟩).inner .stringDouble 1 1 ::
        (Lexeme.mk .comma "," ⟨0, 0⟩).leaf .punctuation :: p.value) :=
    .leaf rfl rfl nofun (.leaf rfl rfl nofun hvs.inParentheses)
  have hbracket := @Items.bracket .declaration
    (.call ⟨.ident, function, ⟨0, 0⟩⟩ ⟨.openParen, "(", ⟨0, 0⟩⟩) _ _ _ _ closeMark ⟨rfl, rfl⟩ hinside
    rfl hts
  have hitems : Items .declaration (openMarks function vname ++ ((vs ++ [closeMark]) ++ ts))
      (wrappedPieces function vname p).found := by
    have hls : openMarks function vname ++ ((vs ++ [closeMark]) ++ ts) =
        (Opening.call ⟨.ident, function, ⟨0, 0⟩⟩ ⟨.openParen, "(", ⟨0, 0⟩⟩).marks ++
          ((openMarks function vname |>.drop 2 |>.append vs) ++ closeMark :: ts) := by
      simp [openMarks, Opening.marks]
    rw [hls]
    exact hbracket
  refine ⟨⟨⟨h.start, h.property, h.blanks, h.colon, ?_⟩, hitems, ?_, h.flags, h.flag, h.semicolon⟩, ?_⟩
  · exact h.blank.imp_left fun hb => ⟨hb.1, by simp [openMarks]⟩
  · rw [(wrappedPieces_value function vname p).1]
    exact List.cons_ne_nil _ _
  · simp [Pieces.lexemes, wrappedLexemes, wrappedPieces]

/-- **The declaration as it reads** is the declaration with the call for a value. -/
theorem wrappedPieces_bare (h : p.Fits name its)
    (hv : declared? p.node = some (v.inner .variable 1 0)) :
    (wrappedPieces function (v.inner .variable 1 0).text p).node.bare =
      (readNode function p.node).bare := by
  obtain ⟨span, hnode⟩ := p.node_eq
  obtain ⟨span', hnode'⟩ := (wrappedPieces function (v.inner .variable 1 0).text p).node_eq
  obtain ⟨hvalue, htrailing⟩ := wrappedPieces_value function (v.inner .variable 1 0).text p
  have hkind : p.node.is .declaration = true := by rw [hnode]; rfl
  have hsame {ns : List Node} (hns : ∀ n ∈ ns, n.is .value = false) :
      ns.map (readValue function (v.inner .variable 1 0).text) = ns := by
    refine (List.map_congr_left fun n hn => ?_).trans ns.map_id
    rw [readValue, if_neg (by simp [hns n hn])]
    rfl
  have hread : readNode function p.node = .sequence .declaration (p.before ++
      .sequence .value [readCall function (v.inner .variable 1 0).text p.value]
        (some (spanOf p.value)) :: p.behind) span := by
    rw [readNode, boundName_of_variable hv, hnode]
    simp only [mapChildren, List.map_append, List.map_cons, hsame h.before_kinds,
      hsame p.behind_kinds]
    rfl
  rw [hread, hnode', hvalue]
  have hbefore : (wrappedPieces function (v.inner .variable 1 0).text p).before = p.before := rfl
  have hbehind : (wrappedPieces function (v.inner .variable 1 0).text p).behind = p.behind := by
    rw [Pieces.behind, htrailing]
    rfl
  simp only [bare, bareAll_append, bareAll, bare_callNode, hbefore, hbehind]

/-- A declaration has a value. -/
theorem firstChild?_value (h : p.Fits name its) :
    p.node.firstChild? .value = some (.sequence .value p.value (some (spanOf p.value))) := by
  obtain ⟨span, hnode⟩ := p.node_eq
  have hnone : p.before.find? (·.is .value) = none :=
    List.find?_eq_none.2 fun n hn => by simp [h.before_kinds n hn]
  rw [hnode, Node.firstChild?, Node.children, List.find?_append, hnone]
  rfl

/-- The parenthesis is lost exactly if the last item of the value is a line comment. -/
theorem swallows_of_variable (h : p.Fits name its)
    (hv : declared? p.node = some (v.inner .variable 1 0)) :
    swallows p.node = p.value.getLast?.any (·.is .lineComment) := by
  rw [swallows, boundName_of_variable hv, firstChild?_value h]
  rfl

/-- Blanks, flags and what ends a declaration close no parenthesis. -/
theorem flags_fail (h : p.Fits name its) {rest : List Lexeme}
    (hcl : p.semicolon = none → Closes (first rest)) :
    (items .closeParen (p.flags ++ (p.semicolon.toList ++ rest))).isOk = false ∧
      first (p.flags ++ (p.semicolon.toList ++ rest)) ≠ some .openParen := by
  have hmisfit {l : Lexeme} {ls : List Lexeme} (ht : l.token = .semicolon ∨ l.token = .closeBrace) :
      (items .closeParen (l :: ls)).isOk = false ∧ first (l :: ls) ≠ some .openParen := by
    constructor
    · rw [items]
      rcases ht with ht | ht <;> simp [Stop.isAt, ht, opening?, Lexeme.item?, Except.isOk, Except.toBool]
    · rcases ht with ht | ht <;> simp [ht]
  have hend : (items .closeParen (p.semicolon.toList ++ rest)).isOk = false ∧
      first (p.semicolon.toList ++ rest) ≠ some .openParen := by
    cases hs : p.semicolon with
    | some l => exact hmisfit (.inl (h.semicolon l hs))
    | none =>
      cases rest with
      | nil =>
        constructor
        · rw [Option.toList_none, List.nil_append, items]
          rfl
        · intro hopen
          cases hopen
      | cons l rest => exact hmisfit (.inr (hcl hs l.token rfl))
  have hall : ∀ fs : List Lexeme, (∀ l ∈ fs, l.token = .flag ∨ l.token = .space) →
      ∃ ns, Items .closeParen fs ns := by
    intro fs
    induction fs with
    | nil => exact fun _ => ⟨[], .nil⟩
    | cons l fs ih =>
      intro hfs
      obtain ⟨ns, hns⟩ := ih fun m hm => hfs m (List.mem_cons_of_mem _ hm)
      rcases hfs l List.mem_cons_self with ht | ht
      · exact ⟨_, .leaf (by simp [Stop.isAt, ht]) (by simp only [Lexeme.item?, ht]; rfl)
          (by simp [ht]) hns⟩
      · exact ⟨_, .leaf (by simp [Stop.isAt, ht]) (by simp only [Lexeme.item?, ht]; rfl)
          (by simp [ht]) hns⟩
  obtain ⟨ns, hns⟩ := hall p.flags h.flags
  refine ⟨hns.fails hend.2 hend.1, ?_⟩
  cases hf : p.flags with
  | nil => exact hend.2
  | cons l fs =>
    have := h.flag l.token (by simp [hf])
    simp [this]

/-- **A lost parenthesis** leaves the call open, and nothing behind it closes it. -/
theorem wrapped_fails (h : p.Fits name its) (hname : name = [v]) (hv : v.token = .variable)
    {init ts : List Lexeme} {longer : Lexeme} {ns : List Node} (hinit : Items .declaration init ns)
    (hlonger : longer.token = .lineComment) (hts : Items .declaration ts p.trailing)
    (vname : String) {rest : List Lexeme} (hcl : p.semicolon = none → Closes (first rest))
    (b : Bool) :
    (statements b (wrappedLexemes p name (openMarks function vname) (init ++ [longer]) ts ++
      rest)).isOk = false := by
  let tail : List Lexeme := ts ++ (p.flags ++ (p.semicolon.toList ++ rest))
  have htail : (items .closeParen tail).isOk = false := by
    obtain ⟨hflags, hfirst⟩ := flags_fail h hcl
    exact hts.inParentheses.fails hfirst hflags
  have hlast : (items .closeParen (longer :: tail)).isOk = false :=
    items_fails_leaf (by simp [Stop.isAt, hlonger]) (by simp [opening?, hlonger])
      (show longer.item? = some longer.trivia by simp only [Lexeme.item?, hlonger]) htail
  -- the name of the variable and a comma are read, and what is behind them fails
  let str : Lexeme := ⟨.stringDouble, "\"" ++ vname ++ "\"", ⟨0, 0⟩⟩
  let comma : Lexeme := ⟨.comma, ",", ⟨0, 0⟩⟩
  have harguments : (items .closeParen (str :: comma :: (init ++ longer :: tail))).isOk = false := by
    have hread : Items .closeParen (str :: comma :: init)
        (str.inner .stringDouble 1 1 :: comma.leaf .punctuation :: ns) := by
      refine .leaf rfl rfl ?_ (.leaf rfl rfl ?_ hinit.inParentheses)
      · intro hident
        cases hident
      · intro hident
        cases hident
    exact hread.fails (by simp [hlonger]) hlast
  let call : List Lexeme := openMarks function vname ++ (init ++ longer :: tail)
  have hvalue : (items .declaration call).isOk = false := by
    have ho : opening? ⟨.ident, function, ⟨0, 0⟩⟩ (call.drop 1) = some
        (.call ⟨.ident, function, ⟨0, 0⟩⟩ ⟨.openParen, "(", ⟨0, 0⟩⟩,
          ⟨str :: comma :: (init ++ longer :: tail), by simp [call, openMarks, str, comma]⟩) :=
      opening?_eq_some.2 ⟨⟨rfl, rfl⟩, rfl⟩
    exact items_fails_inside rfl ho harguments
  have hls : wrappedLexemes p name (openMarks function vname) (init ++ [longer]) ts ++ rest =
      p.toFront.lexemes name ++ call := by
    simp [wrappedLexemes, call, tail]
  have hfront : p.toFront.Fits name (first call) := by
    refine ⟨h.start, h.property, h.blanks, h.colon, h.blank.imp_left fun hb => ⟨hb.1, ?_⟩⟩
    intro hspace
    cases hspace
  have hdecl := declaration_fails hfront hvalue
  obtain ⟨ms, hcons⟩ : ∃ ms, p.toFront.lexemes name ++ call = v :: ms := by
    rw [Front.lexemes, hname]
    exact ⟨_, rfl⟩
  rw [hls]
  rw [hcons] at hdecl ⊢
  exact statements_fails_declaration hv hdecl b

end Export
end Stylesheet
