import Stylesheet.Proofs.Expr.Commented
import Stylesheet.Proofs.Expr.Elements
import Stylesheet.Render.Eval

/-!
# Trees of operators

A tree of operators can be written as nodes that follow each other, with blanks around each operator
and parentheses where its place in the tree asks for them. Such nodes are read as the tree again.

* `Expr.Spine`: a tree along its left edge, as an operand and a chain.
* `Expr.group_append`: a chain is grouped at its last loosest operator.
* `OperatorTree.Written`: the nodes that a tree is written as.
* `OperatorTree.eval_written`: their value is that of the tree.
-/

namespace Stylesheet

namespace Operator

/-- How tight an operator is: the place of its level among all levels. -/
def level (op : Operator) : Nat := Expr.levels.findIdx (·.contains op)

/-- The kind of the node of an operator. Two operators are words. -/
def kind : Operator → Kind
  | or | and => .identifier
  | _ => .operator

theorem level_lt (op : Operator) : op.level < Expr.levels.length := by
  cases op <;> decide

/-- An operator is in its own level and in no other. -/
theorem contains_iff (op : Operator) {k : Nat} (hk : k < Expr.levels.length) :
    Expr.levels[k].contains op = true ↔ op.level = k := by
  have hall : ∀ (op : Operator) (k : Fin Expr.levels.length),
      (Expr.levels.get k).contains op = true ↔ op.level = k := by
    intro op
    cases op <;> decide
  exact hall op ⟨k, hk⟩

theorem ofText?_text (op : Operator) : ofText? op.text = some op := by
  cases op <;> decide

end Operator

namespace Expr

/-! ### Chains -/

theorem group_nil (tighter : List (List Operator)) (e : Expr) : group tighter e [] = e := by
  induction tighter with
  | nil => rfl
  | cons ops tighter ih => simp [group, cutAt, ih]

theorem cutAt_of_tighter {ops : List Operator} {links : Chain}
    (h : ∀ link ∈ links, ops.contains link.1 = false) : cutAt ops links = (links, []) := by
  induction links with
  | nil => rfl
  | cons link links ih =>
    have hlink := h link List.mem_cons_self
    simp only [cutAt, ih fun l hl => h l (List.mem_cons_of_mem _ hl), hlink, Bool.false_eq_true,
      if_false]

/-- A chain behind which another starts with an operator of the level is cut there too. -/
theorem cutAt_append (ops : List Operator) (links : Chain) {links' : Chain}
    {parts : List (Operator × Expr × Chain)} (h : cutAt ops links' = ([], parts)) :
    cutAt ops (links ++ links') = ((cutAt ops links).1, (cutAt ops links).2 ++ parts) := by
  induction links with
  | nil => exact h
  | cons link links ih =>
    simp only [List.cons_append, cutAt, ih]
    split <;> rfl

/-- **A chain is grouped** at its last operator of the loosest level: what comes before it is its
left side, and what comes behind it is bound more tightly. -/
theorem group_append {ops : List Operator} {tighter : List (List Operator)} {op : Operator}
    (hop : ops.contains op = true) {links links' : Chain}
    (htight : ∀ link ∈ links', ops.contains link.1 = false) (e e' : Expr) :
    group (ops :: tighter) e (links ++ (op, e') :: links') =
      .binary op (group (ops :: tighter) e links) (group tighter e' links') := by
  have hcut : cutAt ops ((op, e') :: links') = ([], [(op, e', links')]) := by
    simp only [cutAt, cutAt_of_tighter htight, hop, if_true]
  simp only [group, cutAt_append ops links hcut, List.foldl_append, List.foldl_cons,
    List.foldl_nil]

/-- A level none of whose operators occur is passed over. -/
theorem group_of_tighter {ops : List Operator} {tighter : List (List Operator)} {links : Chain}
    (h : ∀ link ∈ links, ops.contains link.1 = false) (e : Expr) :
    group (ops :: tighter) e links = group tighter e links := by
  simp only [group, cutAt_of_tighter h, List.foldl_nil]

/-- **A tree along its left edge**: no operator of the chain is looser than the level, and the chain
is grouped to the tree from that level on. -/
structure Spine (level : Nat) (e : Expr) (first : Expr) (links : Chain) : Prop where
  tight : ∀ link ∈ links, level ≤ link.1.level
  group_eq : group (levels.drop level) first links = e

namespace Spine

theorem single (level : Nat) (e : Expr) : Spine level e e [] := ⟨nofun, group_nil _ e⟩

/-- A looser level may come first. -/
theorem loosen_one {level : Nat} {e first : Expr} {links : Chain}
    (h : Spine (level + 1) e first links) (hlevel : level < levels.length) :
    Spine level e first links := by
  refine ⟨fun link hl => Nat.le_of_succ_le (h.tight link hl), ?_⟩
  rw [List.drop_eq_getElem_cons hlevel, group_of_tighter fun link hl => ?_, h.group_eq]
  rw [Bool.eq_false_iff]
  intro hc
  have heq := (link.1.contains_iff hlevel).1 hc
  have hle := h.tight link hl
  omega

theorem loosen {level looser : Nat} {e first : Expr} {links : Chain}
    (h : Spine level e first links) (hle : looser ≤ level) (hlevel : level ≤ levels.length) :
    Spine looser e first links := by
  obtain ⟨d, rfl⟩ := Nat.exists_eq_add_of_le hle
  induction d with
  | zero => exact h
  | succ d ih => exact ih (h.loosen_one hlevel) (Nat.le_add_right _ _) (Nat.le_of_succ_le hlevel)

/-- **An operator between two sides**, the right side bound more tightly. -/
theorem binary {op : Operator} {a b first first' : Expr} {links links' : Chain}
    (ha : Spine op.level a first links) (hb : Spine (op.level + 1) b first' links') :
    Spine op.level (.binary op a b) first (links ++ (op, first') :: links') := by
  have hlt := op.level_lt
  have htight : ∀ link ∈ links', levels[op.level].contains link.1 = false := fun link hl => by
    have := hb.tight link hl
    rw [Bool.eq_false_iff]
    intro hc
    have := (link.1.contains_iff hlt).1 hc
    omega
  have hgroup := ha.group_eq
  rw [List.drop_eq_getElem_cons hlt] at hgroup
  refine ⟨fun link hl => ?_, ?_⟩
  · rcases List.mem_append.1 hl with hl | hl
    · exact ha.tight link hl
    · rcases List.mem_cons.1 hl with rfl | hl
      · exact Nat.le_refl _
      · exact Nat.le_of_succ_le (hb.tight link hl)
  · rw [List.drop_eq_getElem_cons hlt, group_append ((op.contains_iff hlt).2 rfl) htight, hgroup,
      hb.group_eq]

end Spine

/-! ### Items -/

/-- **The items of a chain**: blanks on both sides of each operator, and an operand. -/
inductive Links : List Item → Chain → Prop
  | nil : Links [] []
  | cons {op : Operator} {i : Item} {e : Expr} {its : List Item} {links : Chain} (m n : Nat) :
      i.atom? = some e → Links its links →
        Links (List.replicate (m + 1) .space ++ .op op.text ::
          (List.replicate (n + 1) .space ++ i :: its)) ((op, e) :: links)

theorem Links.append {its its' : List Item} {links links' : Chain} (h : Links its links)
    (h' : Links its' links') : Links (its ++ its') (links ++ links') := by
  induction h with
  | nil => exact h'
  | cons m n hi _ ih =>
    simp only [List.append_assoc, List.cons_append]
    exact .cons m n hi ih

theorem skip_blanks (n : Nat) (its : List Item) :
    skip (List.replicate n .space ++ its) = skip its := by
  induction n with
  | zero => rfl
  | succ n ih => exact ih

theorem skip_of_atom {i : Item} {e : Expr} (h : i.atom? = some e) (its : List Item) :
    skip (i :: its) = i :: its := by
  cases i <;> first | rfl | cases h

theorem operand_of_atom {i : Item} {e : Expr} (h : i.atom? = some e) (its : List Item) :
    operand (i :: its) = (e, its) := by
  cases i <;> cases h <;> rfl

/-- An operator with blanks on both sides stands between two operands, whatever its sign. -/
theorem operator?_between (op : Operator) {m n : Nat} {i : Item} {e : Expr} (h : i.atom? = some e)
    (its : List Item) :
    operator? (List.replicate (m + 1) .space ++ .op op.text ::
      (List.replicate (n + 1) .space ++ i :: its)) = some (op, i :: its) := by
  have hskip (k : Nat) : skip (List.replicate k .space ++ i :: its) = i :: its := by
    rw [skip_blanks, skip_of_atom h]
  unfold operator?
  rw [skip_blanks]
  simp only [skip, hskip, op.ofText?_text, Option.map_some]
  simp [List.replicate_succ, Item.isSpace]

theorem chain_of_links {its : List Item} {links : Chain} (h : Links its links) :
    chain its = (links, []) := by
  induction h with
  | nil =>
    rw [chain]
    rfl
  | @cons op i e its links m n hi _ ih =>
    rw [chain]
    split
    · next hs =>
      rw [operator?_between op hi] at hs
      cases hs
    · next op' rest hs =>
      rw [operator?_between op hi] at hs
      cases hs
      simp only [operand_of_atom hi, ih]

/-- **An operand and a chain** are read as the tree whose left edge they are. -/
theorem expression_of_links {i : Item} {e first : Expr} {its : List Item} {links : Chain}
    (hi : i.atom? = some first) (hits : Links its links) (hspine : Spine 0 e first links) :
    expression (i :: its) = e := by
  have hoperation : operation (i :: its) = (e, []) := by
    rw [operation, operand_of_atom hi]
    simp only [chain_of_links hits]
    exact congrArg (·, []) hspine.group_eq
  have helements : elements e [] = ([e], []) := by
    rw [elements]
    simp [skip]
  have hspaced : spaced (i :: its) = (e, []) := by simp only [spaced, hoperation, helements]
  have hcomma : commaElements (i :: its) = ([e], false, []) := by
    rw [commaElements, skip_of_atom hi]
    cases i with
    | space | comma | colon | op text | member e printed => cases hi
    | «variable» name | atom e printed => simp [hspaced, skip]
  simp [expression, commaList, hcomma, closed, skip]

theorem Links.isColon {its : List Item} {links : Chain} (h : Links its links) :
    ∀ i ∈ its, i.isColon = false := by
  induction h with
  | nil => nofun
  | @cons op i e its links m n hi _ ih =>
    intro j hj
    simp only [List.mem_append, List.mem_cons, List.mem_replicate] at hj
    rcases hj with ⟨-, rfl⟩ | rfl | ⟨-, rfl⟩ | rfl | hj
    · rfl
    · rfl
    · rfl
    · cases j <;> first | rfl | cases hi
    · exact ih j hj

/-- What is read as an operand and a chain is read so in parentheses. -/
theorem parenthesized_of_links {i : Item} {e first : Expr} {its : List Item} {links : Chain}
    (hi : i.atom? = some first) (hits : Links its links) (hspine : Spine 0 e first links) :
    parenthesized (i :: its) = e := by
  rw [parenthesized, if_neg, expression_of_links hi hits hspine]
  simp only [List.any_cons, Bool.or_eq_true, List.any_eq_true, not_or, not_exists, not_and,
    Bool.not_eq_true]
  refine ⟨?_, hits.isColon⟩
  cases i <;> first | rfl | cases hi

end Expr

/-! ### Trees -/

/-- A tree of operators over operands. -/
inductive OperatorTree where
  | operand (n : Node)
  | operation (op : Operator) (left right : OperatorTree)

namespace OperatorTree

open Stylesheet.Expr

/-- The nodes that a tree has for operands: numbers, strings, variables, calls, and names that are
no operators. -/
def IsOperand : Node → Prop
  | .leaf .identifier text _ => text ∉ ["and", "or", "not"]
  | .leaf k _ _ => k = .number ∨ k = .stringDouble ∨ k = .stringSingle ∨ k = .variable
  | .sequence k _ _ => k = .function
  | .single _ _ _ => False

/-- The node of an operator. -/
def IsMark (op : Operator) (n : Node) : Prop := ∃ span, n = .leaf op.kind op.text span

/-- **The nodes that a tree is written as** in a place for operators of a level or tighter ones.
There are blanks on both sides of each operator. An operator that is too loose for its place stands
in parentheses, and any other may. -/
inductive Written : Nat → OperatorTree → List Node → Prop
  | operand {level : Nat} {n : Node} : IsOperand n → Written level (.operand n) [n]
  | bare {level : Nat} {op : Operator} {a b : OperatorTree} {as front bs behind : List Node}
      {mark : Node} :
      level ≤ op.level → Written op.level a as → Node.Gap front → IsMark op mark → Node.Gap behind →
        Written (op.level + 1) b bs →
          Written level (.operation op a b) (as ++ (front ++ mark :: (behind ++ bs)))
  | parentheses {level : Nat} {op : Operator} {a b : OperatorTree} {ns : List Node}
      {span : Option Span} :
      Written 0 (.operation op a b) ns →
        Written level (.operation op a b) [.sequence .parentheses ns span]

/-- The expression of a tree. -/
def expr : OperatorTree → Expr
  | operand n => ofNode n
  | operation op a b => .binary op a.expr b.expr

/-- **The value of a tree**: that of the left side, then that of the right side, then that of the
operator, up to the first error. -/
def eval {σ : Type} (host : Host σ) (caller : Caller σ) : OperatorTree → Render σ Value
  | operand n => (ofNode n).eval host caller
  | operation op a b => do
      let v ← a.eval host caller
      let w ← b.eval host caller
      Render.ofFault (Value.apply op v w)

theorem eval_expr {σ : Type} (host : Host σ) (caller : Caller σ) (t : OperatorTree) :
    t.expr.eval host caller = t.eval host caller := by
  induction t with
  | operand n => rfl
  | operation op a b iha ihb => rw [expr, Expr.eval, eval, iha, ihb]

/-- The item of an operand is not told apart from its expression. -/
theorem items_of_operand {n : Node} (h : IsOperand n) :
    ∃ i, Reading.items ⟨n, ofNode n⟩ = [i] ∧ i.atom? = some (ofNode n) := by
  cases n with
  | leaf k text s =>
    cases k with
    | identifier =>
      simp only [IsOperand, List.mem_cons, List.not_mem_nil, or_false, not_or] at h
      refine ⟨.atom (ofLeaf .identifier text) text, ?_, rfl⟩
      simp [Reading.items, itemOfLeaf?, h]
    | number | stringDouble | stringSingle | «variable» => exact ⟨_, rfl, rfl⟩
    | _ => simp [IsOperand] at h
  | single k c s => exact absurd h id
  | sequence k cs s =>
    obtain rfl : k = .function := h
    exact ⟨_, rfl, rfl⟩

theorem items_of_mark {op : Operator} {n : Node} (h : IsMark op n) (e : Expr) :
    Reading.items ⟨n, e⟩ = [.op op.text] := by
  obtain ⟨s, rfl⟩ := h
  cases op <;> rfl

/-- An operator before a gap is no member of a module, nor is anything else. -/
theorem memberIn_gap {gs : List Node} (h : Node.Gap gs) (a : Reading) (rs : List Reading) :
    memberIn a (readings gs ++ rs) = false := by
  refine Bool.eq_false_iff.2 fun hm => ?_
  obtain ⟨b, c, rest, hr, hm⟩ := exists_of_memberIn hm
  have htrivia := isTrivia_of_pause h.pause hr
  rw [isTrivia_of_isLeaf (startsMember hm).point] at htrivia
  cases htrivia

/-- Nothing comes next, or a gap. -/
def Parted (rs : List Reading) : Prop :=
  rs = [] ∨ ∃ gs rest, Node.Gap gs ∧ rs = readings gs ++ rest

theorem Parted.memberIn {rs : List Reading} (h : Parted rs) (a : Reading) :
    memberIn a rs = false := by
  rcases h with rfl | ⟨gs, rest, hgs, rfl⟩
  · rfl
  · exact memberIn_gap hgs a rest

/-- **What a tree is written as is read as the left edge of the tree**: an operand and a chain,
whatever comes next. -/
theorem Written.read {level : Nat} {t : OperatorTree} {ns : List Node} (h : Written level t ns) :
    ∃ i its first links, i.atom? = some first ∧ Links its links ∧ Spine level t.expr first links ∧
      ∀ rs, Parted rs → joined (readings ns ++ rs) = i :: its ++ joined rs := by
  -- a gap or the end has to come next: a name before a point would be read as a module
  induction h with
  | @operand level n hn =>
    obtain ⟨i, hitems, hi⟩ := items_of_operand hn
    refine ⟨i, [], _, [], hi, .nil, .single level _, fun rs hrs => ?_⟩
    show joined (⟨n, ofNode n⟩ :: rs) = _
    rw [joined_apart (hrs.memberIn _), hitems]
  | @bare level op a b as front bs behind mark hlevel _ hfront hmark hbehind _ iha ihb =>
    obtain ⟨i, its, first, links, hi, hits, hspine, hreada⟩ := iha
    obtain ⟨j, its', first', links', hj, hits', hspine', hreadb⟩ := ihb
    obtain ⟨m, hm⟩ := joined_gap hfront
    obtain ⟨n, hn⟩ := joined_gap hbehind
    refine ⟨i, _, first, _, hi, hits.append (.cons m n hj hits'),
      (hspine.binary hspine').loosen hlevel (Nat.le_of_lt op.level_lt), fun rs hrs => ?_⟩
    have hmarked (rest : List Reading) :
        joined (⟨mark, ofNode mark⟩ :: (readings behind ++ rest)) =
          .op op.text :: joined (readings behind ++ rest) := by
      rw [joined_apart (memberIn_gap hbehind _ rest), items_of_mark hmark]
      rfl
    simp only [readings_append, readings, List.append_assoc, List.cons_append]
    rw [hreada _ (.inr ⟨front, _, hfront, rfl⟩), hm, hmarked, hn, hreadb rs hrs]
    rfl
  | @parentheses level op a b ns span _ ih =>
    obtain ⟨i, its, first, links, hi, hits, hspine, hread⟩ := ih
    -- inside the parentheses all levels are allowed again, and outside they are one operand
    have hinside : ofNode (.sequence .parentheses ns span) = expr (.operation op a b) := by
      have hjoined := hread [] (.inl rfl)
      rw [List.append_nil, joined, List.append_nil] at hjoined
      rw [ofNode, hjoined]
      exact parenthesized_of_links hi hits hspine
    refine ⟨.atom (ofNode (.sequence .parentheses ns span))
      (Node.sequence .parentheses ns span).print, [], _, [], rfl, .nil,
      hinside ▸ .single level _, fun rs hrs => ?_⟩
    show joined (⟨.sequence .parentheses ns span, _⟩ :: rs) = _
    exact joined_apart (hrs.memberIn _)

/-- **A tree is read back** from the nodes that it is written as. -/
theorem ofNodes_written {t : OperatorTree} {ns : List Node} (h : Written 0 t ns) :
    ofNodes ns = t.expr := by
  obtain ⟨i, its, first, links, hi, hits, hspine, hread⟩ := h.read
  have hjoined := hread [] (.inl rfl)
  rw [List.append_nil, joined, List.append_nil] at hjoined
  rw [ofNodes, itemsOf, hjoined]
  exact expression_of_links hi hits hspine

/-- The operands of a tree, from left to right. -/
def operands : OperatorTree → List Node
  | operand n => [n]
  | operation _ a b => a.operands ++ b.operands

/-- A single blank. -/
def blank : Node := .leaf .space " " none

/-- A tree written with no more parentheses than its place asks for. -/
def write : OperatorTree → Nat → List Node
  | operand n, _ => [n]
  | operation op a b, level =>
      let bare := a.write op.level ++
        ([blank] ++ .leaf op.kind op.text none :: ([blank] ++ b.write (op.level + 1)))
      if level ≤ op.level then bare else [.sequence .parentheses bare none]

theorem gap_blank : Node.Gap [blank] :=
  ⟨fun _ hg => List.mem_singleton.1 hg ▸ ⟨rfl, _, _, _, rfl⟩, blank, List.mem_singleton_self _, rfl⟩

theorem written_write {t : OperatorTree} (h : ∀ n ∈ t.operands, IsOperand n) (level : Nat) :
    Written level t (t.write level) := by
  induction t generalizing level with
  | operand n => exact .operand (h n (List.mem_singleton_self n))
  | operation op a b iha ihb =>
    have hbare {looser : Nat} (hle : looser ≤ op.level) : Written looser (.operation op a b) _ :=
      .bare hle (iha (fun n hn => h n (List.mem_append_left _ hn)) op.level) gap_blank ⟨none, rfl⟩
        gap_blank (ihb (fun n hn => h n (List.mem_append_right _ hn)) (op.level + 1))
    rw [write]
    split
    · next hle => exact hbare hle
    · exact .parentheses (hbare (Nat.zero_le _))

/-- **Operators apply as their precedence has it.** A tree of operators can be written with
parentheses only where an operator is looser than the one above it, or as loose and on its right
side. Whatever other parentheses are put around its operations, evaluating what is written is
evaluating the tree: the same value or error, and the same calls in the same order. -/
theorem eval_written {σ : Type} (host : Host σ) (caller : Caller σ) {t : OperatorTree}
    (h : ∀ n ∈ t.operands, IsOperand n) :
    Written 0 t (t.write 0) ∧
      ∀ ns, Written 0 t ns → (Expr.ofNodes ns).eval host caller = t.eval host caller :=
  ⟨written_write h 0, fun ns hns => by rw [ofNodes_written hns, eval_expr]⟩

/-- Three calls that the host notes, two of them in parentheses. -/
theorem eval_written_sample :
    let note : HostFunction (List String) := fun args said =>
      (.ok (.bool true), (args.map Value.plainText).foldl (fun said t => t :: said) said)
    let host : Host (List String) :=
      ⟨fun _ _ => pure (.error ""), Registry.register .empty "note" note, fun _ => .error .notFound⟩
    let caller : Caller (List String) := fun name _ _ => throw (.undefinedVariable name)
    let call (text : String) : OperatorTree :=
      operand (.sequence .function [.leaf .identifier "note" none,
        .sequence .arguments [.leaf .stringDouble text none] none] none)
    let t := operation .and (operation .or (call "x") (call "y")) (call "z")
    (∀ n ∈ t.operands, IsOperand n) ∧
      (∀ ns, Written 0 t ns → (Expr.ofNodes ns).eval host caller = t.eval host caller) ∧
      Node.printAll (t.write 0) = "(note(\"x\") or note(\"y\")) and note(\"z\")" ∧
      ((t.eval host caller).run ⟨.start .empty none, .empty, []⟩).2.host = ["z", "y", "x"] := by
  intro note host caller call t
  have h : ∀ n ∈ t.operands, IsOperand n := by
    simp [t, operands, IsOperand, call]
  exact ⟨h, (eval_written host caller h).2, by decide +kernel, by decide +kernel⟩

end OperatorTree
end Stylesheet
