import Stylesheet.Proofs.Export.Source
import Stylesheet.Proofs.Expr.Elements
import Stylesheet.Proofs.Rule.Places

/-!
# The statements of a wrapped source

A declaration at the top of a source is a statement of its own, and stands between the statements
of the nodes before it and of those behind it. Wrapped, it declares the same variable with the same
flags, and its value is a call with the items of the value as arguments.

* `Declares`: the declarations of variables, as sources have them.
* `ofDeclaration_wrapped`: the statement of a wrapped declaration.
* `Stmt.ofNodes_declaration`: the statements of nodes are cut at a declaration.
* `ofTree_wrapped`: the statements of a wrapped source.
-/

namespace Stylesheet

open Lexeme Node Parse

namespace Stmt

/-! ### Cutting statements at a declaration -/

theorem pieces_append (ns ns' : List Node) : pieces (ns ++ ns') = pieces ns ++ pieces ns' := by
  induction ns with
  | nil => rfl
  | cons n ns ih => rw [List.cons_append, pieces, pieces, ih, List.append_assoc]

/-- Any statement but a link ends the chain before it. -/
theorem assemble_append (links : Links) (ps qs : List Piece) (s : Stmt) :
    assemble links (ps ++ .stmt s :: qs) = assemble links ps ++ s :: assemble [] qs := by
  -- the links that are open are carried through the pieces
  induction ps generalizing links with
  | nil => rfl
  | cons p ps ih =>
    cases p with
    | stmt s' => simp only [List.cons_append, assemble, ih, List.append_assoc]
    | ifLink c body => simp only [List.cons_append, assemble, ih, List.append_assoc]
    | elseIfLink c body =>
      simp only [List.cons_append, assemble, ih]
      split <;> rfl
    | elseLink body => simp only [List.cons_append, assemble, ih]

/-- **A declaration** stands between the statements before it and behind it. -/
theorem ofNodes_declaration (front ns cs : List Node) (span : Option Span) :
    ofNodes (front ++ .sequence .declaration cs span :: ns) =
      ofNodes front ++ ofDeclaration (.sequence .declaration cs span) :: ofNodes ns := by
  have hpieces : pieces (front ++ .sequence .declaration cs span :: ns) =
      pieces front ++ .stmt (ofDeclaration (.sequence .declaration cs span)) :: pieces ns := by
    rw [pieces_append]
    rfl
  rw [ofNodes, hpieces, assemble_append, ofNodes, ofNodes]

end Stmt

namespace Export

/-! ### Declarations of variables -/

/-- The nodes of the value of a declaration. -/
def valueNodes (n : Node) : List Node := ((n.firstChild? .value).map Node.children).getD []

/-- The flags of a declaration. -/
def flags (n : Node) : List String := (n.children.filter (·.is .flag)).filterMap Node.text?

/-- **A declaration of a variable** as sources have it. -/
structure Declares (n : Node) (name : String) : Prop where
  isDeclaration : ∃ cs span, n = .sequence .declaration cs span
  bound : boundName? n = some name
  /-- It has a value. -/
  value : ∃ v, n.firstChild? .value = some v
  /-- The name may stand in quotes as it is. -/
  plain : '\\' ∉ name.toList

theorem is_declaration {n : Node} {name : String} (h : boundName? n = some name) :
    n.is .declaration = true := by
  unfold boundName? at h
  split at h
  · assumption
  · cases h

theorem Whole.declares {next : Option Lexeme} {read : List Lexeme} {n : Node}
    (h : Whole next read n) (hg : ∀ l ∈ read, l.Genuine) {name : String}
    (hname : boundName? n = some name) : Declares n name := by
  have hkind := is_declaration hname
  cases h with
  | @trivia l ht => rcases trivia_kind l with hk | hk | hk <;> simp [Node.is, hk] at hkind
  | semicolon _ => cases hkind
  | atRule _ _ _ => cases hkind
  | openAtRule _ _ _ => cases hkind
  | @declaration p pname its hfit hcl =>
    rcases hfit.declared with ⟨v, hpname, hv, hdeclared⟩ | hnone
    · have hbound := boundName_of_variable hdeclared
      rw [hname] at hbound
      obtain rfl : name = (v.inner .variable 1 0).text := Option.some.inj hbound
      obtain ⟨span, hnode⟩ := p.node_eq
      have hgenuine : v.Genuine := by
        refine hg v ?_
        simp [Pieces.lexemes, Front.lexemes, hpname]
      refine ⟨⟨_, span, hnode⟩, hname, ⟨_, firstChild?_value hfit⟩, ?_⟩
      intro hc
      exact (variable_name hgenuine hv _ hc).2.1 rfl
    · unfold boundName? at hname
      rw [if_pos hkind, hnone] at hname
      cases hname

/-- **The declarations of a source** are as sources have them. -/
theorem declares_of_parse {source : String} {tree : Node} (ht : parse source = .ok tree) {n : Node}
    (hn : n ∈ tree.children) {name : String} (hname : boundName? n = some name) :
    Declares n name := by
  obtain ⟨ls, ns, hls, hstm, rfl⟩ := parse_iff.1 ht
  obtain ⟨hg, -⟩ := genuine_of_tokenize hls
  clear ht hls
  replace hn : n ∈ ns := hn
  generalize hnext : none = next at hstm
  induction hstm with
  | nil => cases hn
  | @whole next read ls m ns hm h ih =>
    subst hnext
    rcases List.mem_cons.1 hn with rfl | hn
    · exact Whole.declares hm (fun l hl => hg l (List.mem_append_left _ hl)) hname
    · exact ih (fun l hl => hg l (List.mem_append_right _ hl)) hn rfl
  | @block next read ms ls head inside ns close hh hin hclose h _ ih =>
    subst hnext
    rcases List.mem_cons.1 hn with rfl | hn
    · have hkind := is_declaration hname
      rw [hh.not_declaration] at hkind
      cases hkind
    · exact ih (fun l hl => hg l (by simp [hl])) hn rfl

/-! ### Wrapped declarations -/

theorem is_readValue (function name : String) (n : Node) (k : Kind) :
    (readValue function name n).is k = n.is k := by
  unfold readValue
  split
  · next h =>
    have hn : n.kind = .value := by simpa [Node.is] using h
    show (Kind.value == k) = (n.kind == k)
    rw [hn]
  · rfl

theorem readValue_of_other {n : Node} {k : Kind} (hn : n.is k = true) (hk : k ≠ .value)
    (function name : String) : readValue function name n = n := by
  have hkind : n.kind = k := by simpa [Node.is] using hn
  rw [readValue, if_neg]
  intro hvalue
  have hkind' : n.kind = .value := by simpa [Node.is] using hvalue
  exact hk (hkind.symm.trans hkind')

theorem is_of_firstChild? {n m : Node} {k : Kind} (h : n.firstChild? k = some m) :
    m.is k = true := by
  unfold Node.firstChild? at h
  have hfound := List.find?_some h
  exact hfound

theorem firstChild?_mapChildren {g : Node → Node} (hg : ∀ n k, (g n).is k = n.is k)
    (cs : List Node) (span : Option Span) (k k' : Kind) :
    (mapChildren g (.sequence k' cs span)).firstChild? k =
      ((Node.sequence k' cs span).firstChild? k).map g := by
  simp only [mapChildren, Node.firstChild?, Node.children, List.find?_map, Function.comp_def, hg]

/-- The other children of a wrapped declaration stay as they are. -/
theorem firstChild?_readValue (function name : String) (cs : List Node) (span : Option Span)
    {k k' : Kind} (hk : k ≠ .value) :
    (mapChildren (readValue function name) (.sequence k' cs span)).firstChild? k =
      (Node.sequence k' cs span).firstChild? k := by
  rw [firstChild?_mapChildren (is_readValue function name)]
  cases h : (Node.sequence k' cs span).firstChild? k with
  | none => rfl
  | some n =>
    have hn := is_of_firstChild? h
    rw [Option.map_some, readValue_of_other hn hk]

theorem flags_readValue (function name : String) (cs : List Node) (span : Option Span) (k : Kind) :
    flags (mapChildren (readValue function name) (.sequence k cs span)) =
      flags (.sequence k cs span) := by
  have hfilter : (cs.map (readValue function name)).filter (·.is .flag) = cs.filter (·.is .flag) := by
    induction cs with
    | nil => rfl
    | cons c cs ih =>
      rw [List.map_cons, List.filter_cons, List.filter_cons, is_readValue, ih]
      split
      · next hc => rw [readValue_of_other hc nofun]
      · rfl
  simp only [flags, mapChildren, Node.children, hfilter]

theorem ofDeclaration_eq {n : Node} {name : String} (h : boundName? n = some name) :
    Stmt.ofDeclaration n = .declare name (.ofNodes (valueNodes n))
      ((flags n).contains "default") ((flags n).contains "global") := by
  have hname : ((n.firstChild? .property).bind (·.firstChild? .variable)).bind Node.text? =
      some name := by
    unfold boundName? at h
    rw [if_pos (is_declaration h)] at h
    exact h
  simp only [Stmt.ofDeclaration, hname]
  rfl

/-- A node that binds no variable has nothing to declare. -/
theorem ofDeclaration_unbound {n : Node} (hn : n.is .declaration = true)
    (h : boundName? n = none) : Stmt.ofDeclaration n = .inert := by
  have hname : ((n.firstChild? .property).bind (·.firstChild? .variable)).bind Node.text? = none := by
    unfold boundName? at h
    rw [if_pos hn] at h
    exact h
  simp only [Stmt.ofDeclaration, hname]

theorem unescape_of_plain {text : String} (h : '\\' ∉ text.toList) : unescape text = text := by
  have hchars : ∀ cs : List Char, '\\' ∉ cs → unescapeChars cs = cs := by
    intro cs
    induction cs with
    | nil => exact fun _ => rfl
    | cons c cs ih =>
      intro hc
      rw [List.mem_cons, not_or] at hc
      unfold unescapeChars
      split
      · next heq => cases heq
      · next heq =>
        cases heq
        exact absurd rfl hc.1
      · next heq =>
        cases heq
        exact absurd rfl hc.1
      · next heq =>
        cases heq
        rw [ih hc.2]
  rw [unescape, hchars _ h, String.ofList_toList]

/-- A node that is no name is an item by itself. -/
theorem joined_cons {r : Expr.Reading} (hr : r.node.is .identifier = false)
    (rs : List Expr.Reading) : Expr.joined (r :: rs) = r.items ++ Expr.joined rs := by
  rcases rs with _ | ⟨b, _ | ⟨c, rs⟩⟩
  · rw [Expr.joined, Expr.joined, List.append_nil]
  · rw [Expr.joined, Expr.joined]
  · rw [Expr.joined, if_neg]
    intro h
    unfold Expr.isMember at h
    rw [hr] at h
    cases h

/-- **The call as an expression:** the name and the items of the value are its arguments. -/
theorem ofNodes_readCall (function : String) {name : String} (h : '\\' ∉ name.toList)
    (ns : List Node) :
    Expr.ofNodes [readCall function name ns] =
      .call function ((none, .literal (.quoted name)) :: Expr.arguments false (Expr.itemsOf ns))
        (readCall function name ns).print := by
  have hitems : Expr.itemsOf (.leaf .stringDouble name none :: .leaf .punctuation "," none :: ns) =
      .atom (.literal (.quoted name)) ("\"" ++ name ++ "\"") :: .comma :: Expr.itemsOf ns := by
    rw [Expr.itemsOf, Expr.readings, Expr.readings, joined_cons rfl, joined_cons rfl]
    show [Item.atom (.literal (.quoted (unescape name))) _] ++ ([Item.comma] ++ _) = _
    rw [unescape_of_plain h]
    rfl
  have hcall : Expr.ofNode (readCall function name ns) =
      .call function ((none, .literal (.quoted name)) :: Expr.arguments false (Expr.itemsOf ns))
        (readCall function name ns).print := by
    rw [← Expr.arguments_atom, ← hitems]
    rfl
  rw [← hcall]
  exact Expr.expression_atom _ _

/-- **The statement of a wrapped declaration** declares the same variable as a call. -/
theorem ofDeclaration_wrapped (function : String) {n : Node} {name : String} (h : Declares n name) :
    Stmt.ofDeclaration (readNode function n) = .declare name
      (.call function
        ((none, .literal (.quoted name)) :: Expr.arguments false (Expr.itemsOf (valueNodes n)))
        (readCall function name (valueNodes n)).print)
      ((flags n).contains "default") ((flags n).contains "global") := by
  obtain ⟨⟨cs, span, rfl⟩, hbound, ⟨v, hv⟩, hplain⟩ := h
  have hread : readNode function (.sequence .declaration cs span) =
      mapChildren (readValue function name) (.sequence .declaration cs span) := by
    rw [readNode, hbound]
  have hdeclared : declared? (mapChildren (readValue function name) (.sequence .declaration cs span)) =
      declared? (.sequence .declaration cs span) := by
    have hproperty : Kind.property ≠ .value := by decide
    rw [declared?, firstChild?_readValue function name cs span hproperty]
    rfl
  have hbound' : boundName? (mapChildren (readValue function name)
      (.sequence .declaration cs span)) = some name := by
    unfold boundName? at hbound ⊢
    rw [hdeclared]
    exact hbound
  have hvalue : valueNodes (mapChildren (readValue function name) (.sequence .declaration cs span)) =
      [readCall function name (valueNodes (.sequence .declaration cs span))] := by
    have hkind := is_of_firstChild? hv
    rw [valueNodes, firstChild?_mapChildren (is_readValue function name), valueNodes, hv]
    simp only [Option.map_some, Option.getD_some, readValue, if_pos hkind, Node.children]
  rw [hread, ofDeclaration_eq hbound', flags_readValue, hvalue, ofNodes_readCall function hplain]

/-- A node that binds no variable is read as it is. -/
theorem readNode_of_unbound (function : String) {n : Node} (h : boundName? n = none) :
    readNode function n = n := by
  rw [readNode, h]

/-- A declaration is read as a declaration. -/
theorem readNode_declaration (function : String) (cs : List Node) (span : Option Span) :
    ∃ cs' span', readNode function (.sequence .declaration cs span) =
      .sequence .declaration cs' span' := by
  unfold readNode
  split
  · exact ⟨_, _, rfl⟩
  · exact ⟨_, _, rfl⟩

/-- **The statements of a wrapped source**, if its text reads again. -/
theorem ofTree_wrapped {function source : String} {tree t : Node} (hf : isName function = true)
    (ht : parse source = .ok tree)
    (hprinted : parse (wrapDeclarations function tree).tree.print = .ok t) :
    Stmt.ofTree t = Stmt.ofNodes (tree.children.map (readNode function)) := by
  have hbare := bare_of_wrapped hf ht hprinted
  obtain ⟨ls, ns, hls, hstm, rfl⟩ := parse_iff.1 ht
  rw [← Stmt.ofTree_bare, hbare, Stmt.ofTree_bare]
  rfl

end Export
end Stylesheet
