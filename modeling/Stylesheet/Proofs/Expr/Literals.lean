import Stylesheet.Proofs.Builtin.Outcomes
import Stylesheet.Proofs.Expr.Elements
import Stylesheet.Proofs.Syntax.Numbers
import Stylesheet.Rule.OfNode

/-!
# Literals

The only values that stand in the code of a stylesheet are scalars: lists and maps are made when
their elements are evaluated. Where a value is missing in the code, that is not for a number that
cannot be read, if all numbers of the tree can.

* `Expr.Plain`, `Stmt.Plain`: code in which all literals are scalars, and no number is missing.
* `Stmt.plain_ofTree`: the statements that are read from a tree are such code.
-/

namespace Stylesheet

/-! ### Code without compound literals -/

/-- An expression in which all literals are scalars, and all numbers are read. -/
inductive Expr.Plain : Expr → Prop
  | literal {v : Value} : v.isScalar = true → Plain (.literal v)
  | invalid {f : Fault} : f.isUnread = false → Plain (.invalid f)
  | trailing {e : Expr} {f : Fault} : f.isUnread = false → Plain e → Plain (.trailing e f)
  | variable (name : String) : Plain (.variable name)
  | member (space name : String) : Plain (.member space name)
  | call {args : List (Option Name × Expr)} (name printed : String) :
      (∀ a ∈ args, Plain a.2) → Plain (.call name args printed)
  | memberCall {args : List (Option Name × Expr)} (space name : String) :
      (∀ a ∈ args, Plain a.2) → Plain (.memberCall space name args)
  | list {es : List Expr} (separator : Separator) : (∀ e ∈ es, Plain e) → Plain (.list es separator)
  | map {ps : List (Expr × Expr)} : (∀ p ∈ ps, Plain p.1) → (∀ p ∈ ps, Plain p.2) → Plain (.map ps)
  | interpolation {e : Expr} : Plain e → Plain (.interpolation e)
  | glued {a b : Expr} : Plain a → Plain b → Plain (.glued a b)
  | binary {a b : Expr} (op : Operator) : Plain a → Plain b → Plain (.binary op a b)
  | negative {e : Expr} : Plain e → Plain (.negative e)
  | positive {e : Expr} : Plain e → Plain (.positive e)
  | not {e : Expr} : Plain e → Plain (.not e)

def Parameter.Plain (p : Parameter) : Prop := ∀ e ∈ p.default, e.Plain

structure ForHeader.Plain (h : ForHeader) : Prop where
  first : h.first.Plain
  last : h.last.Plain

/-- A part of a rule that belongs to a family, or a fault that is none of a number. -/
abbrev Rule.Sound {α : Type} (P : α → Prop) (r : Except Fault α) : Prop :=
  Outcome (·.isUnread = false) P r

def LoadHeader.Plain (h : LoadHeader) : Prop :=
  ∀ c ∈ h.configuration, Rule.Sound (fun settings => ∀ x ∈ settings, x.2.Plain) c

/-- Statements in which all literals are scalars, and all numbers are read. -/
inductive Stmt.Plain : Stmt → Prop
  | inert : Plain .inert
  | declare {e : Expr} (name : String) (isDefault isGlobal : Bool) : e.Plain →
      Plain (.declare name e isDefault isGlobal)
  | rule {body : List Stmt} : (∀ s ∈ body, Plain s) → Plain (.rule body)
  | scoped {body : List Stmt} (keyword : String) : (∀ s ∈ body, Plain s) →
      Plain (.scoped keyword body)
  | choose {links : List (Expr × List Stmt)} {otherwise : List Stmt} :
      (∀ l ∈ links, l.1.Plain) → (∀ l ∈ links, ∀ s ∈ l.2, Plain s) → (∀ s ∈ otherwise, Plain s) →
      Plain (.choose links otherwise)
  | strayElse : Plain .strayElse
  | each {header : Except Fault EachHeader} {body : List Stmt} :
      Rule.Sound (·.list.Plain) header → (∀ s ∈ body, Plain s) → Plain (.each header body)
  | for {header : Except Fault ForHeader} {body : List Stmt} :
      Rule.Sound ForHeader.Plain header → (∀ s ∈ body, Plain s) → Plain (.for header body)
  | while {condition : Expr} {body : List Stmt} : condition.Plain → (∀ s ∈ body, Plain s) →
      Plain (.while condition body)
  | report {e : Expr} (what : Report) : e.Plain → Plain (.report what e)
  | return {e : Expr} : e.Plain → Plain (.return e)
  | function {signature : Except Fault Signature} {body : List Stmt} :
      Rule.Sound (∀ p ∈ ·.parameters, p.Plain) signature → (∀ s ∈ body, Plain s) →
      Plain (.function signature body)
  | imports (urls : List String) : Plain (.imports urls)
  | load {header : Except Fault LoadHeader} (what : Load) : Rule.Sound LoadHeader.Plain header →
      Plain (.load what header)
  | other (keyword : String) : Plain (.other keyword)

/-! ### Expressions of items -/

/-- An item in which all literals are scalars. -/
def Item.Plain : Item → Prop
  | .atom e _ | .member e _ => e.Plain
  | _ => True

namespace Expr

/-- What is read of items in which all literals are scalars: an expression and other such items. -/
def PlainReading (r : Expr × List Item) : Prop := r.1.Plain ∧ ∀ i ∈ r.2, i.Plain

theorem plain_skip {its : List Item} (h : ∀ i ∈ its, i.Plain) : ∀ i ∈ skip its, i.Plain := by
  induction its with
  | nil => exact h
  | cons i its ih =>
    rw [List.forall_mem_cons] at h
    cases i with
    | space => exact ih h.2
    | _ =>
      rw [skip, List.forall_mem_cons]
      · exact h
      · intro _ heq
        cases heq

/-- The items behind a mark. -/
theorem plain_behind {its behind : List Item} {mark : Item} (h : ∀ i ∈ its, i.Plain)
    (hs : skip its = mark :: behind) : ∀ i ∈ behind, i.Plain := by
  have hskip := plain_skip h
  rw [hs, List.forall_mem_cons] at hskip
  exact hskip.2

theorem plain_operand {its : List Item} (h : ∀ i ∈ its, i.Plain) : PlainReading (operand its) := by
  induction its with
  | nil => exact ⟨.invalid rfl, h⟩
  | cons i its ih =>
    rw [List.forall_mem_cons] at h
    obtain ⟨he, hrest⟩ := ih h.2
    unfold operand
    dsimp only
    split
    · exact ih h.2
    · exact ⟨.variable _, h.2⟩
    · exact ⟨h.1, h.2⟩
    · exact ⟨h.1, h.2⟩
    · exact ⟨.negative he, hrest⟩
    · exact ⟨.positive he, hrest⟩
    · exact ⟨.not he, hrest⟩
    · exact ⟨.invalid rfl, h.2⟩

theorem plain_operator? {its rest : List Item} {op : Operator} (h : ∀ i ∈ its, i.Plain)
    (ho : operator? its = some (op, rest)) : ∀ i ∈ rest, i.Plain := by
  unfold operator? at ho
  split at ho
  · next text r hs =>
    dsimp only at ho
    split at ho
    · cases ho
    · obtain ⟨o, -, ho⟩ := Option.map_eq_some_iff.1 ho
      cases ho
      exact plain_skip (plain_behind h hs)
  · cases ho

theorem plain_chain {its : List Item} (h : ∀ i ∈ its, i.Plain) :
    (∀ link ∈ (chain its).1, link.2.Plain) ∧ ∀ i ∈ (chain its).2, i.Plain := by
  fun_induction chain its with
  | case1 its _ => exact ⟨List.forall_mem_nil _, h⟩
  | case2 its op rest ho more left hchain ih =>
    have hoperand := plain_operand (plain_operator? h ho)
    obtain ⟨hmore, hleft⟩ := ih hoperand.2
    rw [hchain] at hmore hleft
    refine ⟨?_, hleft⟩
    rw [List.forall_mem_cons]
    exact ⟨hoperand.1, hmore⟩

/-! ### Precedence -/

theorem plain_cutAt (ops : List Operator) {links : Chain} (h : ∀ link ∈ links, link.2.Plain) :
    (∀ link ∈ (cutAt ops links).1, link.2.Plain) ∧
      ∀ part ∈ (cutAt ops links).2, part.2.1.Plain ∧ ∀ link ∈ part.2.2, link.2.Plain := by
  induction links with
  | nil => exact ⟨nofun, nofun⟩
  | cons link links ih =>
    rw [List.forall_mem_cons] at h
    obtain ⟨hfirst, hparts⟩ := ih h.2
    unfold cutAt
    dsimp only
    split
    · refine ⟨nofun, ?_⟩
      rw [List.forall_mem_cons]
      exact ⟨⟨h.1, hfirst⟩, hparts⟩
    · refine ⟨?_, hparts⟩
      rw [List.forall_mem_cons]
      exact ⟨h.1, hfirst⟩

theorem plain_group (levels : List (List Operator)) {e : Expr} {links : Chain} (he : e.Plain)
    (h : ∀ link ∈ links, link.2.Plain) : (group levels e links).Plain := by
  induction levels generalizing e links with
  | nil => exact he
  | cons ops tighter ih =>
    obtain ⟨hfirst, hparts⟩ := plain_cutAt ops h
    unfold group
    dsimp only
    -- the operands of one level are joined from left to right
    generalize (cutAt ops links).2 = parts at hparts
    have hleft : (group tighter e (cutAt ops links).1).Plain := ih he hfirst
    generalize group tighter e (cutAt ops links).1 = left at hleft
    induction parts generalizing left with
    | nil => exact hleft
    | cons part parts ihParts =>
      rw [List.forall_mem_cons] at hparts
      exact ihParts hparts.2 _ (.binary part.1 hleft (ih hparts.1.1 hparts.1.2))

theorem plain_operation {its : List Item} (h : ∀ i ∈ its, i.Plain) :
    PlainReading (operation its) := by
  have hoperand := plain_operand h
  obtain ⟨hmore, hleft⟩ := plain_chain hoperand.2
  exact ⟨plain_group levels hoperand.1 hmore, hleft⟩

/-! ### Lists -/

theorem plain_atom? {i : Item} {e : Expr} (h : i.Plain) (hi : i.atom? = some e) : e.Plain := by
  cases i with
  | «variable» name =>
    cases hi
    exact .variable name
  | atom e' printed =>
    cases hi
    exact h
  | _ => cases hi

theorem plain_elements {last : Expr} {its : List Item} (hl : last.Plain) (h : ∀ i ∈ its, i.Plain) :
    (∀ e ∈ (elements last its).1, e.Plain) ∧ ∀ i ∈ (elements last its).2, i.Plain := by
  fun_induction elements last its with
  | case1 last its _ => exact ⟨List.forall_mem_singleton.2 hl, h⟩
  | case5 last its i rest _ _ _ => exact ⟨List.forall_mem_singleton.2 hl, h⟩
  | case2 last its i rest hs e hi _ ih =>
    have hskip := plain_skip h
    rw [hs, List.forall_mem_cons] at hskip
    exact ih (.glued hl (plain_atom? hskip.1 hi)) hskip.2
  | case3 last its i rest hs e hi _ more left hm ih =>
    have hskip := plain_skip h
    rw [hs] at hskip
    have hnext := plain_operation hskip
    obtain ⟨hmore, hleft⟩ := ih hnext.1 hnext.2
    rw [hm] at hmore hleft
    exact ⟨List.forall_mem_cons.2 ⟨hl, hmore⟩, hleft⟩
  | case4 last its i rest hs hi _ more left hm ih =>
    have hskip := plain_skip h
    rw [hs] at hskip
    have hnext := plain_operation hskip
    obtain ⟨hmore, hleft⟩ := ih hnext.1 hnext.2
    rw [hm] at hmore hleft
    exact ⟨List.forall_mem_cons.2 ⟨hl, hmore⟩, hleft⟩

theorem plain_spaced {its : List Item} (h : ∀ i ∈ its, i.Plain) : PlainReading (spaced its) := by
  have hfirst := plain_operation h
  have helements := plain_elements hfirst.1 hfirst.2
  unfold spaced
  dsimp only
  split
  · next e rest he =>
    rw [he] at helements
    exact ⟨List.forall_mem_singleton.1 helements.1, helements.2⟩
  · next es rest _ he =>
    rw [he] at helements
    exact ⟨.list .space helements.1, helements.2⟩

theorem plain_commaElements {its : List Item} (h : ∀ i ∈ its, i.Plain) :
    (∀ e ∈ (commaElements its).1, e.Plain) ∧ ∀ i ∈ (commaElements its).2.2, i.Plain := by
  fun_induction commaElements its with
  | case1 its _ => exact ⟨List.forall_mem_nil _, List.forall_mem_nil _⟩
  | case2 its rest hs =>
    have hskip := plain_skip h
    rw [hs] at hskip
    exact ⟨List.forall_mem_nil _, hskip⟩
  | case3 its behind hcomma more comma left helements _ _ ih =>
    have hfirst := plain_spaced h
    obtain ⟨hmore, hleft⟩ := ih (plain_behind hfirst.2 hcomma)
    rw [helements] at hmore hleft
    exact ⟨List.forall_mem_cons.2 ⟨hfirst.1, hmore⟩, hleft⟩
  | case4 its _ _ _ =>
    have hfirst := plain_spaced h
    exact ⟨List.forall_mem_singleton.2 hfirst.1, plain_skip hfirst.2⟩

theorem plain_commaList {its : List Item} (h : ∀ i ∈ its, i.Plain) :
    PlainReading (commaList its) := by
  have helements := plain_commaElements h
  unfold commaList
  split
  · next e rest he =>
    rw [he] at helements
    exact ⟨List.forall_mem_singleton.1 helements.1, helements.2⟩
  · next es comma rest _ he =>
    rw [he] at helements
    exact ⟨.list _ helements.1, helements.2⟩

theorem plain_closed {r : Expr × List Item} (h : PlainReading r) : (closed r).Plain := by
  unfold closed
  split
  · exact h.1
  · exact .trailing rfl h.1

theorem plain_expression {its : List Item} (h : ∀ i ∈ its, i.Plain) : (expression its).Plain :=
  plain_closed (plain_commaList h)

/-! ### Maps and arguments -/

theorem plain_pairs {its : List Item} (h : ∀ i ∈ its, i.Plain) :
    (∀ p ∈ (pairs its).1, p.1.Plain ∧ p.2.Plain) ∧ ∀ i ∈ (pairs its).2, i.Plain := by
  fun_induction pairs its with
  | case1 its _ => exact ⟨nofun, nofun⟩
  | case2 its behind hcolon behind' hcomma more left hm _ ih =>
    have hkey := plain_spaced h
    have hvalue := plain_spaced (plain_behind hkey.2 hcolon)
    obtain ⟨hmore, hleft⟩ := ih (plain_behind hvalue.2 hcomma)
    rw [hm] at hmore hleft
    exact ⟨List.forall_mem_cons.2 ⟨⟨hkey.1, hvalue.1⟩, hmore⟩, hleft⟩
  | case3 its behind hcolon _ _ =>
    have hkey := plain_spaced h
    have hvalue := plain_spaced (plain_behind hkey.2 hcolon)
    exact ⟨List.forall_mem_singleton.2 ⟨hkey.1, hvalue.1⟩, plain_skip hvalue.2⟩
  | case4 its _ _ => exact ⟨List.forall_mem_singleton.2 ⟨(plain_spaced h).1, .invalid rfl⟩, nofun⟩

theorem plain_parenthesized {its : List Item} (h : ∀ i ∈ its, i.Plain) :
    (parenthesized its).Plain := by
  unfold parenthesized
  split
  · have hpairs := plain_pairs h
    exact plain_closed
      ⟨.map (fun p hp => (hpairs.1 p hp).1) fun p hp => (hpairs.1 p hp).2, hpairs.2⟩
  · exact plain_expression h

theorem plain_keyword {its : List Item} (h : ∀ i ∈ its, i.Plain) :
    ∀ i ∈ (keyword its).2, i.Plain := by
  unfold keyword
  split
  · next name rest hs =>
    split
    · next behind hs' => exact plain_behind (plain_behind h hs) hs'
    · exact h
  · exact h

theorem plain_arguments {keyworded : Bool} {its : List Item} (h : ∀ i ∈ its, i.Plain) :
    ∀ a ∈ arguments keyworded its, a.2.Plain := by
  fun_induction arguments keyworded its with
  | case1 => exact nofun
  | case2 => exact List.forall_mem_singleton.2 (.invalid rfl)
  | case3 keyworded its k value hk _ _ _ =>
    have hvalue := plain_keyword h
    rw [hk] at hvalue
    exact List.forall_mem_singleton.2 (plain_spaced hvalue).1
  | case4 keyworded its k value hk _ behind hcomma _ ih =>
    have hvalue := plain_keyword h
    have hrest := ih (plain_behind (plain_spaced hvalue).2 hcomma)
    rw [hk] at hvalue
    exact List.forall_mem_cons.2 ⟨(plain_spaced hvalue).1, hrest⟩
  | case5 keyworded its k value hk _ i rest _ _ _ =>
    have hvalue := plain_keyword h
    rw [hk] at hvalue
    exact List.forall_mem_cons.2
      ⟨(plain_spaced hvalue).1, List.forall_mem_singleton.2 (.invalid rfl)⟩

/-! ### Expressions of nodes -/

theorem isScalar_ofWord (word : String) : (Value.ofWord word).isScalar = true := by
  unfold Value.ofWord
  split
  · rfl
  · rfl
  · rfl
  · split <;> rfl

theorem isScalar_ofHash (digits : String) : (Value.ofHash digits).isScalar = true := by
  unfold Value.ofHash
  split <;> rfl

theorem plain_ofNumber {text : String} (h : (Number.literal? text).isSome = true) :
    (ofNumber text).Plain := by
  obtain ⟨x, hx⟩ := Option.isSome_iff_exists.1 h
  unfold ofNumber
  rw [hx]
  exact .literal rfl

theorem plain_ofLeaf {k : Kind} {text : String} {span : Option Span}
    (h : (Node.leaf k text span).Legible) : (ofLeaf k text).Plain := by
  unfold ofLeaf
  split
  · exact plain_ofNumber (h text span (List.mem_singleton_self _))
  · exact .literal rfl
  · exact .literal rfl
  · exact .literal (isScalar_ofWord text)
  · exact .literal (isScalar_ofHash text)
  · exact .variable text
  · exact .literal rfl

theorem plain_itemOfLeaf? {k : Kind} {text : String} {span : Option Span} {i : Item}
    (hk : (Node.leaf k text span).Legible) (h : itemOfLeaf? k text = some i) : i.Plain := by
  unfold itemOfLeaf? at h
  split at h
  · cases h
  · cases h
  · cases h
    trivial
  · split at h
    · cases h
      trivial
    · split at h
      · cases h
        trivial
      · cases h
        exact plain_ofLeaf hk
  · cases h
    trivial
  · split at h
    · cases h
      trivial
    · cases h
      exact plain_ofLeaf hk
  · cases h
    trivial
  · cases h
    exact plain_ofLeaf hk

/-- A node whose numbers are read, with its expression. -/
structure Reading.Plain (r : Reading) : Prop where
  node : r.node.Legible
  expr : r.expr.Plain

theorem Reading.plain_items {r : Reading} (h : r.Plain) : ∀ i ∈ r.items, i.Plain := by
  unfold Reading.items
  split
  · next hnode =>
    intro i hi
    rw [Option.mem_toList] at hi
    exact plain_itemOfLeaf? (hnode ▸ h.node) hi
  · exact List.forall_mem_singleton.2 h.expr

theorem plain_inNamespace {e : Expr} (space : String) (h : e.Plain) :
    (e.inNamespace space).Plain := by
  cases h with
  | «variable» name => exact .member space name
  | call name printed hargs => exact .memberCall space name hargs
  | literal hv => exact .literal hv
  | invalid hf => exact .invalid hf
  | trailing hf he => exact .trailing hf he
  | member space name => exact .member space name
  | memberCall space name hargs => exact .memberCall space name hargs
  | list separator hes => exact .list separator hes
  | map hk hv => exact .map hk hv
  | interpolation he => exact .interpolation he
  | glued ha hb => exact .glued ha hb
  | binary op ha hb => exact .binary op ha hb
  | negative he => exact .negative he
  | positive he => exact .positive he
  | not he => exact .not he

theorem plain_joined {rs : List Reading} (h : ∀ r ∈ rs, r.Plain) :
    ∀ i ∈ joined rs, i.Plain := by
  fun_induction joined rs with
  | case1 a b c rest _ ih =>
    simp only [List.forall_mem_cons] at h
    rw [List.forall_mem_cons]
    exact ⟨plain_inNamespace a.node.text h.2.2.1.expr, ih h.2.2.2⟩
  | case2 a b c rest _ ih =>
    rw [List.forall_mem_cons] at h
    rw [List.forall_mem_append]
    exact ⟨Reading.plain_items h.1, ih h.2⟩
  | case3 a b =>
    simp only [List.forall_mem_cons] at h
    rw [List.forall_mem_append]
    exact ⟨Reading.plain_items h.1, Reading.plain_items h.2.1⟩
  | case4 a => exact Reading.plain_items (h a List.mem_cons_self)
  | case5 => exact nofun

mutual

/-- **The expression of a node** has no literals but scalars, if all numbers can be read. -/
theorem plain_ofNode (n : Node) (h : n.Legible) : (ofNode n).Plain := by
  match n with
  | .leaf k text _ =>
    rw [ofNode]
    exact plain_ofLeaf h
  | .single k c s =>
    rw [ofNode]
    exact .literal rfl
  | .sequence k cs s =>
    have hcs : ∀ c ∈ cs, c.Legible := fun c hc => h.child hc
    rw [ofNode.eq_def]
    dsimp only
    split
    · exact .call _ _ (plain_arguments (plain_argumentItems cs hcs))
    · exact plain_parenthesized (plain_joined (plain_readings cs hcs))
    · exact .interpolation (plain_expression (plain_joined (plain_readings cs hcs)))
    · exact plain_expression (plain_joined (plain_readings cs hcs))
    · exact .literal rfl

theorem plain_readings (ns : List Node) (h : ∀ n ∈ ns, n.Legible) :
    ∀ r ∈ readings ns, r.Plain := by
  match ns with
  | [] => exact nofun
  | n :: ns =>
    rw [List.forall_mem_cons] at h
    rw [readings, List.forall_mem_cons]
    exact ⟨⟨h.1, plain_ofNode n h.1⟩, plain_readings ns h.2⟩

theorem plain_argumentItems (ns : List Node) (h : ∀ n ∈ ns, n.Legible) :
    ∀ i ∈ argumentItems ns, i.Plain := by
  match ns with
  | [] => exact nofun
  | [_] => exact nofun
  | _ :: .leaf _ _ _ :: _ => exact nofun
  | _ :: .single _ _ _ :: _ => exact nofun
  | _ :: .sequence k cs s :: _ =>
    have hcs : ∀ c ∈ cs, c.Legible := fun c hc => (h (.sequence k cs s) (by simp)).child hc
    rw [argumentItems]
    exact plain_joined (plain_readings cs hcs)

end

theorem plain_ofNodes {ns : List Node} (h : ∀ n ∈ ns, n.Legible) : (ofNodes ns).Plain :=
  plain_expression (plain_joined (plain_readings ns h))

end Expr

/-! ### Parts of rules -/

namespace Rule

theorem mem_of_mem_trim {n : Node} {ns : List Node} (h : n ∈ trim ns) : n ∈ ns := by
  rw [trim, List.mem_reverse] at h
  have hfront := List.mem_reverse.1 ((List.dropWhile_suffix _).mem h)
  exact (List.dropWhile_suffix _).mem hfront

theorem mem_of_mem_segments {n : Node} {ns s : List Node} (hs : s ∈ segments ns) (h : n ∈ s) :
    n ∈ ns := by
  induction ns generalizing s with
  | nil =>
    rw [segments, List.mem_singleton] at hs
    rw [hs] at h
    cases h
  | cons m ns ih =>
    unfold segments at hs
    split at hs
    · rcases List.mem_cons.1 hs with rfl | hs
      · cases h
      · exact List.mem_cons_of_mem _ (ih hs h)
    · split at hs
      · rw [List.mem_singleton] at hs
        rw [hs, List.mem_singleton] at h
        exact h ▸ List.mem_cons_self
      · next first rest hrest =>
        rcases List.mem_cons.1 hs with rfl | hs
        · rcases List.mem_cons.1 h with rfl | h
          · exact List.mem_cons_self
          · exact List.mem_cons_of_mem _ (ih (hrest ▸ List.mem_cons_self) h)
        · exact List.mem_cons_of_mem _ (ih (hrest ▸ List.mem_cons_of_mem _ hs) h)

theorem mem_of_mem_parts {n : Node} {ns s : List Node} (hs : s ∈ parts ns) (h : n ∈ s) :
    n ∈ ns := by
  obtain ⟨t, ht, rfl⟩ := List.mem_map.1 (List.mem_of_mem_filter hs)
  exact mem_of_mem_segments ht (mem_of_mem_trim h)

theorem mem_of_mem_parameters {n : Node} {cs : List Node} (h : n ∈ parameters cs) : n ∈ cs := by
  unfold parameters at h
  dsimp only at h
  split at h
  · split at h
    · exact List.mem_of_mem_drop ((List.dropLast_sublist _).mem h)
    · exact List.mem_of_mem_drop h
  · exact List.mem_of_mem_drop h

variable {params : List Node} (h : ∀ n ∈ params, n.Legible)
include h

theorem plain_each : Sound (·.list.Plain) (each params) := by
  unfold each
  split
  · rfl
  · dsimp only
    split
    · rfl
    · exact Expr.plain_ofNodes fun n hn => h n (List.mem_of_mem_drop hn)

theorem plain_for? : Sound ForHeader.Plain (for? params) := by
  unfold for?
  split
  · rfl
  · split
    · rfl
    · split
      · rfl
      · refine ⟨Expr.plain_ofNodes fun n hn => h n ?_, Expr.plain_ofNodes fun n hn => h n ?_⟩
        · exact List.mem_of_mem_take (List.mem_of_mem_drop hn)
        · exact List.mem_of_mem_drop hn

theorem plain_parameter (function : String) : Sound Parameter.Plain (parameter function params) := by
  unfold parameter
  split
  · next name _ rest =>
    have hrest : ∀ n ∈ trim rest, n.Legible := fun n hn =>
      h n (List.mem_cons_of_mem _ (mem_of_mem_trim hn))
    split
    · intro e he
      cases he
    · next mark rest' htrim =>
      rw [htrim, List.forall_mem_cons] at hrest
      split
      · split
        · rfl
        · intro e he
          cases he
          exact Expr.plain_ofNodes fun n hn => hrest.2 n (mem_of_mem_trim hn)
      · split
        · intro e he
          cases he
        · rfl
  · rfl

omit h in
/-- What holds of all that a reader yields holds of all that it yields along a list. -/
theorem sound_mapM {α β : Type} {P : β → Prop} {f : α → Except Fault β} {as : List α}
    (hf : ∀ a ∈ as, Sound P (f a)) : Sound (∀ b ∈ ·, P b) (as.mapM f) := by
  induction as with
  | nil => exact nofun
  | cons a as ih =>
    rw [List.forall_mem_cons] at hf
    rw [List.mapM_cons]
    exact hf.1.bind fun b hb => (ih hf.2).bind fun bs hbs => List.forall_mem_cons.2 ⟨hb, hbs⟩

theorem plain_signature : Sound (∀ p ∈ ·.parameters, p.Plain) (signature params) := by
  unfold signature
  split
  · rfl
  · next call hcall =>
    -- the parameters stand in the second child of the call
    have harguments : ∀ n ∈ (call.children[1]?.map Node.children).getD [], n.Legible := by
      intro n hn
      cases hsecond : call.children[1]? with
      | none =>
        rw [hsecond] at hn
        cases hn
      | some second =>
        rw [hsecond] at hn
        exact ((h call (List.mem_of_find?_eq_some hcall)).child (List.mem_of_getElem? hsecond)).child
          hn
    refine Outcome.bind (sound_mapM fun segment hs => plain_parameter ?_ _) fun parameters hps => ?_
    · exact fun n hn => harguments n (mem_of_mem_parts hs hn)
    · split
      · rfl
      · exact hps

theorem plain_configured : Sound (·.2.Plain) (configured params) := by
  unfold configured
  split
  · next name _ rest =>
    have hrest : ∀ n ∈ trim rest, n.Legible := fun n hn =>
      h n (List.mem_cons_of_mem _ (mem_of_mem_trim hn))
    split
    · next colon value htrim =>
      rw [htrim, List.forall_mem_cons] at hrest
      dsimp only
      split
      · refine Expr.plain_ofNodes fun n hn => hrest.2 n ?_
        have hvalue := List.mem_reverse.1 (mem_of_mem_trim hn)
        exact List.mem_reverse.1 ((List.dropWhile_suffix _).mem hvalue)
      · rfl
    · rfl
  · rfl

theorem plain_configuration :
    Sound (fun settings => ∀ x ∈ settings, x.2.Plain) (configuration params) :=
  sound_mapM fun _ hs => plain_configured fun n hn => h n (mem_of_mem_parts hs hn)

theorem plain_loadOptions (what : Load) {header : LoadHeader} (hheader : header.Plain) :
    Sound LoadHeader.Plain (loadOptions what header params) := by
  fun_induction loadOptions what header params with
  | case1 header => exact hheader
  | case3 header n _ target ns _ ih =>
    rw [List.forall_mem_cons, List.forall_mem_cons] at h
    exact ih h.2.2 hheader
  | case4 header n _ target _ _ front star ns _ ih =>
    rw [List.forall_mem_cons, List.forall_mem_cons, List.forall_mem_cons] at h
    exact ih h.2.2.2 hheader
  | case5 header n _ target _ _ front star ns _ ih =>
    rw [List.forall_mem_cons, List.forall_mem_cons] at h
    exact ih h.2.2 hheader
  | case6 header n _ target _ _ ih => exact ih nofun hheader
  | case8 header n _ _ map ns _ ih =>
    rw [List.forall_mem_cons, List.forall_mem_cons] at h
    refine ih h.2.2 fun c hc => ?_
    cases hc
    exact plain_configuration fun m hm => h.2.1.child hm
  | case11 header n ns _ _ _ ih =>
    rw [List.forall_mem_cons] at h
    refine ih h.2 fun c hc => ?_
    obtain ⟨map, hmap, rfl⟩ := Option.map_eq_some_iff.1 hc
    have hlegible : map.Legible := h.1.child (List.mem_of_getElem? hmap)
    exact plain_configuration fun m hm => hlegible.child hm
  | case12 header => exact hheader
  | _ => rfl

theorem plain_load (what : Load) : Sound LoadHeader.Plain (load what params) := by
  have hfilter : ∀ n ∈ params.filter (!·.isTrivia), n.Legible := fun n hn =>
    h n (List.mem_of_mem_filter hn)
  unfold load
  split
  · next n ns hns =>
    rw [hns, List.forall_mem_cons] at hfilter
    split
    · exact plain_loadOptions hfilter.2 what nofun
    · rfl
  · rfl

end Rule

/-! ### Statements -/

/-- A piece in which all literals are scalars, and all numbers are read. -/
def Piece.Plain : Piece → Prop
  | .stmt s => s.Plain
  | .ifLink c body | .elseIfLink c body => c.Plain ∧ ∀ s ∈ body, s.Plain
  | .elseLink body => ∀ s ∈ body, s.Plain

namespace Stmt

/-- Links in which all literals are scalars. -/
def PlainLinks (links : Links) : Prop := ∀ l ∈ links, l.1.Plain ∧ ∀ s ∈ l.2, s.Plain

theorem plain_choose {links : Links} {otherwise : List Stmt} (hl : PlainLinks links)
    (ho : ∀ s ∈ otherwise, s.Plain) : (Stmt.choose links.reverse otherwise).Plain :=
  .choose (fun l hm => (hl l (List.mem_reverse.1 hm)).1)
    (fun l hm => (hl l (List.mem_reverse.1 hm)).2) ho

theorem plain_ofLinks {links : Links} (hl : PlainLinks links) : ∀ s ∈ ofLinks links, s.Plain := by
  unfold ofLinks
  split
  · exact nofun
  · exact List.forall_mem_singleton.2 (plain_choose hl nofun)

theorem plain_assemble {links : Links} {ps : List Piece} (hl : PlainLinks links)
    (hp : ∀ p ∈ ps, p.Plain) : ∀ s ∈ assemble links ps, s.Plain := by
  fun_induction assemble links ps with
  | case1 links => exact plain_ofLinks hl
  | case2 links s rest ih =>
    rw [List.forall_mem_cons] at hp
    rw [List.forall_mem_append, List.forall_mem_cons]
    exact ⟨plain_ofLinks hl, hp.1, ih nofun hp.2⟩
  | case3 links c body rest ih =>
    rw [List.forall_mem_cons] at hp
    rw [List.forall_mem_append]
    exact ⟨plain_ofLinks hl, ih (List.forall_mem_singleton.2 hp.1) hp.2⟩
  | case4 links c body rest _ ih =>
    rw [List.forall_mem_cons] at hp
    rw [List.forall_mem_cons]
    exact ⟨.strayElse, ih nofun hp.2⟩
  | case5 links c body rest _ ih =>
    rw [List.forall_mem_cons] at hp
    exact ih (List.forall_mem_cons.2 ⟨hp.1, hl⟩) hp.2
  | case6 links body rest ih =>
    rw [List.forall_mem_cons] at hp
    rw [List.forall_mem_cons]
    refine ⟨?_, ih nofun hp.2⟩
    split
    · exact .strayElse
    · exact plain_choose hl hp.1

theorem plain_ofDeclaration {n : Node} (h : n.Legible) : (ofDeclaration n).Plain := by
  unfold ofDeclaration
  split
  · exact .inert
  · refine .declare _ _ _ (Expr.plain_ofNodes fun m hm => ?_)
    cases hvalue : n.firstChild? .value with
    | none =>
      rw [hvalue] at hm
      cases hm
    | some value =>
      rw [hvalue] at hm
      exact (h.child (List.mem_of_find?_eq_some hvalue)).child hm

theorem plain_elseIf? {params : List Node} {c : Expr} (hps : ∀ n ∈ params, n.Legible)
    (h : elseIf? params = some c) : c.Plain := by
  unfold elseIf? at h
  split at h
  · next n rest hrest =>
    split at h
    · cases h
      refine Expr.plain_ofNodes fun m hm => hps m ?_
      have hbehind : m ∈ params.dropWhile (·.is .space) := by
        rw [hrest]
        exact List.mem_cons_of_mem _ hm
      exact (List.dropWhile_suffix _).mem hbehind
    · cases h
  · cases h

theorem plain_ofAtRule (keyword : String) {params : List Node} {body : List Stmt}
    (hps : ∀ n ∈ params, n.Legible) (hb : ∀ s ∈ body, s.Plain) :
    (ofAtRule keyword params body).Plain := by
  have he : (Expr.ofNodes params).Plain := Expr.plain_ofNodes hps
  unfold ofAtRule
  split
  · exact ⟨he, hb⟩
  · split
    · next c hc => exact ⟨plain_elseIf? hps hc, hb⟩
    · exact hb
  · exact .imports _
  · exact .load .use (Rule.plain_load hps .use)
  · exact .load .forward (Rule.plain_load hps .forward)
  · exact .scoped _ hb
  · exact .scoped _ hb
  · exact .scoped _ hb
  · exact .return he
  · exact .each (Rule.plain_each hps) hb
  · exact .for (Rule.plain_for? hps) hb
  · exact .while he hb
  · exact .report _ he
  · exact .report _ he
  · exact .report _ he
  · exact .function (Rule.plain_signature hps) hb
  · exact .other _

mutual

theorem plain_piece? (n : Node) (hn : n.Legible) {p : Piece} (h : piece? n = some p) :
    p.Plain := by
  match n with
  | .leaf _ _ _ => cases h
  | .single _ _ _ => cases h
  | .sequence k cs s =>
    have hcs : ∀ c ∈ cs, c.Legible := fun c hc => hn.child hc
    rw [piece?.eq_def] at h
    dsimp only at h
    split at h
    · cases h
      exact plain_ofDeclaration hn
    · cases h
      exact .rule (plain_block cs hcs)
    · cases h
      exact plain_ofAtRule _ (fun c hc => hcs c (Rule.mem_of_mem_parameters hc)) (plain_block cs hcs)
    · cases h

theorem plain_block (ns : List Node) (h : ∀ n ∈ ns, n.Legible) : ∀ s ∈ block ns, s.Plain := by
  match ns with
  | [] =>
    rw [block]
    exact nofun
  | .leaf _ _ _ :: ns =>
    rw [block]
    · exact plain_block ns fun n hn => h n (List.mem_cons_of_mem _ hn)
    · exact nofun
  | .single _ _ _ :: ns =>
    rw [block]
    · exact plain_block ns fun n hn => h n (List.mem_cons_of_mem _ hn)
    · exact nofun
  | .sequence k cs s :: ns =>
    rw [List.forall_mem_cons] at h
    rw [block.eq_def]
    split
    · next hns => cases hns
    · next hns =>
      cases hns
      exact plain_assemble nofun (plain_pieces cs fun c hc => h.1.child hc)
    · next hns =>
      cases hns
      exact plain_block ns h.2

theorem plain_pieces (ns : List Node) (h : ∀ n ∈ ns, n.Legible) : ∀ p ∈ pieces ns, p.Plain := by
  match ns with
  | [] => exact nofun
  | n :: ns =>
    rw [List.forall_mem_cons] at h
    rw [pieces, List.forall_mem_append]
    exact ⟨fun p hp => plain_piece? n h.1 (Option.mem_toList.1 hp), plain_pieces ns h.2⟩

end

/-- **The statements of a tree** have no literals but scalars, if all numbers can be read. -/
theorem plain_ofTree {tree : Node} (h : tree.Legible) : ∀ s ∈ ofTree tree, s.Plain :=
  plain_assemble nofun (plain_pieces tree.children fun _ hc => h.child hc)

end Stmt
end Stylesheet
