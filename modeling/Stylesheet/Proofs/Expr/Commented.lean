import Mathlib.Data.List.TakeWhile
import Stylesheet.Proofs.Expr.Settled
import Stylesheet.Expr.OfNode

/-!
# Comments between nodes

A blank that is marked may give way to blanks and comments, but in calls that are left to the browser.
There must be a blank among them where a blank shows. Expressions show nothing of that but in their
texts.

* `Expr.Spot.past`, `Expr.Spot.Spares`: what nodes tell of a blank, and where it does not show.
* `Node.Commented`: nodes with comments at marked blanks, also in brackets and calls.
* `Expr.Alike`: nodes that are read alike.
* `Expr.itemsOf_commented`: the items of commented nodes settle alike.
-/

namespace Stylesheet

/-! ### Where blanks show among nodes -/

namespace Node

/-- The words at which the parameters of rules are cut. -/
def cutWords : List String := ["in", "from", "through", "to", "if"]

/-- Whether the parameters of a rule may be cut at a node. -/
def cuts (n : Node) : Bool := cutWords.any (n.isLeaf .identifier)

/-- Whether no item comes of a node but a blank. -/
def isVoid : Node → Bool
  | .leaf k text _ => (Expr.itemOfLeaf? k text).all Item.isSpace
  | _ => false

/-- Whether a blank between an operand and a node may show. -/
def clings : Node → Bool
  | .leaf k text _ => (Expr.itemOfLeaf? k text).any Item.clings
  | _ => true

theorem isVoid_of_isTrivia {g : Node} (h : g.isTrivia = true ∧ ∃ k t s, g = .leaf k t s) :
    g.isVoid = true := by
  obtain ⟨htrivia, k, t, s, rfl⟩ := h
  simp only [isTrivia, is, kind, Bool.or_eq_true, beq_iff_eq] at htrivia
  rcases htrivia with (rfl | rfl) | rfl <;> rfl

end Node

namespace Expr
namespace Spot

/-- **The spot behind a node.** A bracket or call is an operand. Behind a word at which parameters are
cut nothing is known, as what follows may be read on its own. -/
def past (p : Spot) (n : Node) : Spot :=
  if n.cuts then unknown
  else
    match n with
    | .leaf k text _ => ((itemOfLeaf? k text).map p.next).getD p
    | n =>
        if n.is .parentheses || n.is .interpolation || n.is .function then p.operand else unknown

/-- **A blank does not show** at the spot and in front of the nodes: an operand is expected, or the
blank stands behind one and nothing clings to it. -/
def Spares (p : Spot) (ns : List Node) : Prop :=
  p = front ∨ p ≠ unknown ∧ ∀ n ∈ (ns.dropWhile Node.isVoid).head?, n.clings = false

instance (p : Spot) (ns : List Node) : Decidable (p.Spares ns) :=
  inferInstanceAs (Decidable (_ ∨ _ ∧ ∀ n ∈ (ns.dropWhile Node.isVoid).head?, n.clings = false))

/-- At the first spot no more is known than at the second. -/
def Within (p q : Spot) : Prop := p = q ∨ p = unknown ∨ p = beside ∧ q = behind

theorem within_refl (p : Spot) : p.Within p := .inl rfl

theorem unknown_within (p : Spot) : unknown.Within p := .inr (.inl rfl)

theorem Within.trans {p q r : Spot} (h : p.Within q) (h' : q.Within r) : p.Within r := by
  rcases h with rfl | rfl | ⟨rfl, rfl⟩
  · exact h'
  · exact unknown_within _
  · rcases h' with rfl | h | ⟨h, -⟩
    · exact .inr (.inr ⟨rfl, rfl⟩)
    · cases h
    · cases h

theorem Within.operand {p q : Spot} (h : p.Within q) : p.operand.Within q.operand := by
  rcases h with rfl | rfl | ⟨rfl, rfl⟩
  · exact within_refl _
  · cases q <;> simp [Spot.operand, Within]
  · exact within_refl _

theorem Within.next {p q : Spot} (h : p.Within q) (i : Item) : (p.next i).Within (q.next i) := by
  cases i with
  | space => exact h
  | «variable» | atom | member => exact h.operand
  | comma | colon =>
    rcases h with rfl | rfl | ⟨rfl, rfl⟩
    · exact within_refl _
    · exact unknown_within _
    · exact within_refl _
  | op text =>
    rcases h with rfl | rfl | ⟨rfl, rfl⟩
    · exact within_refl _
    · exact unknown_within _
    · exact unknown_within _

theorem Within.past {p q : Spot} (h : p.Within q) (n : Node) : (p.past n).Within (q.past n) := by
  unfold Spot.past
  split
  · exact within_refl _
  · cases n with
    | leaf k text s =>
      cases hi : itemOfLeaf? k text with
      | none => simpa [hi] using h
      | some i => simpa [hi] using h.next i
    | single k c s | sequence k cs s =>
      dsimp only
      split
      · exact h.operand
      · exact within_refl _

theorem Spares.mono {p q : Spot} {ns : List Node} (h : p.Spares ns) (hpq : p.Within q) :
    q.Spares ns := by
  rcases hpq with rfl | rfl | ⟨rfl, rfl⟩
  · exact h
  · rcases h with h | ⟨h, -⟩
    · cases h
    · exact absurd rfl h
  · rcases h with h | ⟨-, h⟩
    · cases h
    · exact .inr ⟨nofun, h⟩

/-- Nothing more clings if the nodes end sooner. -/
theorem Spares.left {p : Spot} {ns ms : List Node} (h : p.Spares (ns ++ ms)) : p.Spares ns := by
  refine h.imp_right fun ⟨hp, h⟩ => ⟨hp, fun n hn => h n ?_⟩
  rw [List.dropWhile_append]
  cases hd : ns.dropWhile Node.isVoid with
  | nil => rw [hd] at hn; cases hn
  | cons m ms' => rw [hd] at hn; exact hn

/-- Nothing clings to blanks and comments. -/
theorem Spares.append_trivia {p : Spot} {ns ts : List Node} (h : p.Spares ns)
    (ht : ∀ t ∈ ts, t.isTrivia = true ∧ ∃ k u s, t = .leaf k u s) : p.Spares (ns ++ ts) := by
  refine h.imp_right fun ⟨hp, h⟩ => ⟨hp, fun n hn => h n ?_⟩
  rw [List.dropWhile_append] at hn
  split at hn
  · rw [List.dropWhile_eq_nil_iff.2 fun t h => Node.isVoid_of_isTrivia (ht t h)] at hn
    cases hn
  · next hd =>
    cases hns : ns.dropWhile Node.isVoid with
    | nil => rw [hns] at hd; exact absurd rfl hd
    | cons m ms =>
      rw [hns] at hn
      exact hn

theorem cuts_sequence (k : Kind) (cs : List Node) (s : Option Span) :
    (Node.sequence k cs s).cuts = false := by
  simp [Node.cuts, Node.isLeaf, Node.text?]

theorem past_bracket (p : Spot) {k : Kind} (hk : k = .parentheses ∨ k = .interpolation)
    (cs : List Node) (s : Option Span) : p.past (.sequence k cs s) = p.operand := by
  unfold past
  rw [if_neg (by rw [cuts_sequence]; nofun)]
  rcases hk with rfl | rfl <;> rfl

theorem past_function (p : Spot) (cs : List Node) (s : Option Span) :
    p.past (.sequence .function cs s) = p.operand := by
  unfold past
  rw [if_neg (by rw [cuts_sequence]; nofun)]
  rfl

theorem past_of_isTrivia (p : Spot) {g : Node} (h : g.isTrivia = true ∧ ∃ k t s, g = .leaf k t s) :
    p.past g = p := by
  obtain ⟨htrivia, k, t, s, rfl⟩ := h
  simp only [Node.isTrivia, Node.is, Node.kind, Bool.or_eq_true, beq_iff_eq] at htrivia
  rcases htrivia with (rfl | rfl) | rfl <;> rfl

end Spot
end Expr

namespace Node

open Stylesheet.Expr (Spot)

/-! ### Commented nodes -/

/-- Blanks and comments, at least one of them. -/
structure Pause (gs : List Node) : Prop where
  ne_nil : gs ≠ []
  trivia : ∀ g ∈ gs, g.isTrivia = true ∧ ∃ k t s, g = .leaf k t s

/-- Blanks and comments with a blank among them. -/
structure Gap (gs : List Node) : Prop where
  trivia : ∀ g ∈ gs, g.isTrivia = true ∧ ∃ k t s, g = .leaf k t s
  blank : ∃ g ∈ gs, g.is .space = true

/-- A name with its arguments. -/
def call (name : Node) (arguments : List Node) (inside outside : Option Span) : Node :=
  .sequence .function [name, .sequence .arguments arguments inside] outside

/-- **Nodes with comments at marked blanks,** the first of them at the spot, also in brackets and in
calls that are not left to the browser. -/
inductive Commented (Marked : Node → Prop) : Spot → List Node → List Node → Prop
  | nil {p : Spot} : Commented Marked p [] []
  | keep {p : Spot} (n : Node) {ns ns' : List Node} :
      Commented Marked (p.past n) ns ns' → Commented Marked p (n :: ns) (n :: ns')
  | gap {p : Spot} {b : Node} {gs ns ns' : List Node} :
      Marked b → Gap [b] → Pause gs → (∃ g ∈ gs, g.is .space = true) ∨ p.Spares ns →
        Commented Marked p ns ns' → Commented Marked p (b :: ns) (gs ++ ns')
  | bracket {p : Spot} {k : Kind} {s : Option Span} {cs cs' ns ns' : List Node} :
      k = .parentheses ∨ k = .interpolation → Commented Marked .front cs cs' →
        Commented Marked p.operand ns ns' →
          Commented Marked p (.sequence k cs s :: ns) (.sequence k cs' s :: ns')
  | call {p : Spot} {name : Node} {s t : Option Span} {cs cs' ns ns' : List Node} :
      isBrowserName name.text = false → Commented Marked .front cs cs' →
        Commented Marked p.operand ns ns' →
          Commented Marked p (call name cs s t :: ns) (call name cs' s t :: ns')

/-- A node that is neither commented nor a comment itself. -/
def isFirm (n : Node) : Bool :=
  !n.isTrivia && !n.is .parentheses && !n.is .interpolation && !n.is .function

theorem Gap.pause {gs : List Node} (h : Gap gs) : Pause gs := by
  refine ⟨?_, h.trivia⟩
  rintro rfl
  obtain ⟨g, hg, -⟩ := h.blank
  cases hg

theorem isFirm_of_isTrivia {n : Node} (h : n.isTrivia = true) : n.isFirm = false := by
  simp [isFirm, h]

theorem mem_nodesAll_of_nodes {n m : Node} {ns : List Node} (h : m ∈ ns) (hn : n ∈ m.nodes) :
    n ∈ nodesAll ns := by
  induction ns with
  | nil => cases h
  | cons k ns ih =>
    rw [nodesAll, List.mem_append]
    rcases List.mem_cons.1 h with rfl | h
    · exact .inl hn
    · exact .inr (ih h)

theorem self_mem_nodes (n : Node) : n ∈ n.nodes := by
  cases n <;> simp [nodes]

theorem mem_nodes_of_children {n m : Node} (h : n ∈ nodesAll m.children) : n ∈ m.nodes := by
  cases m with
  | leaf k t s => cases h
  | single k c s =>
    have h : n ∈ c.nodes ++ [] := h
    rw [List.append_nil] at h
    exact List.mem_cons_of_mem _ h
  | sequence k cs s => exact List.mem_cons_of_mem _ h

namespace Commented

variable {Marked : Node → Prop} {p q : Spot} {ns ns' : List Node}

theorem refl (ns : List Node) : Commented Marked p ns ns := by
  induction ns generalizing p with
  | nil => exact .nil
  | cons n ns ih => exact .keep n ih

/-- Comments may stand wherever as much is known. -/
theorem mono (h : Commented Marked p ns ns') (hpq : p.Within q) : Commented Marked q ns ns' := by
  induction h generalizing q with
  | nil => exact .nil
  | keep n _ ih => exact .keep n (ih (hpq.past n))
  | gap hb hblank hgs hspares _ ih =>
    exact .gap hb hblank hgs (hspares.imp_right fun h => h.mono hpq) (ih hpq)
  | bracket hk hcs _ _ ih => exact .bracket hk hcs (ih hpq.operand)
  | call hname hcs _ _ ih => exact .call hname hcs (ih hpq.operand)

/-- Blanks and comments at the end change nothing. -/
theorem append_trivia (h : Commented Marked p ns ns') {ts : List Node}
    (ht : ∀ t ∈ ts, t.isTrivia = true ∧ ∃ k u s, t = .leaf k u s) :
    Commented Marked p (ns ++ ts) (ns' ++ ts) := by
  induction h with
  | nil => exact refl ts
  | keep n _ ih => exact .keep n ih
  | gap hb hblank hgs hspares _ ih =>
    rw [List.cons_append, List.append_assoc]
    exact .gap hb hblank hgs (hspares.imp_right fun h => h.append_trivia ht) ih
  | bracket hk hcs _ _ ih => exact .bracket hk hcs ih
  | call hname hcs _ _ ih => exact .call hname hcs ih

/-- Nodes are cut where they were cut before. -/
theorem of_append {ms : List Node} (h : Commented Marked p (ns ++ ms) ns') :
    ∃ ns₁ ns₂, ns' = ns₁ ++ ns₂ ∧ Commented Marked p ns ns₁ ∧
      Commented Marked (ns.foldl Spot.past p) ms ns₂ := by
  induction ns generalizing p ns' with
  | nil => exact ⟨[], ns', rfl, .nil, h⟩
  | cons n ns ih =>
    rw [List.foldl_cons]
    cases h with
    | keep _ h =>
      obtain ⟨ns₁, ns₂, rfl, h₁, h₂⟩ := ih h
      exact ⟨n :: ns₁, ns₂, rfl, .keep n h₁, h₂⟩
    | @gap _ _ gs _ _ hb hblank hgs hspares h =>
      obtain ⟨ns₁, ns₂, rfl, h₁, h₂⟩ := ih h
      rw [p.past_of_isTrivia (hblank.trivia _ (List.mem_singleton_self _))]
      exact ⟨gs ++ ns₁, ns₂, (List.append_assoc ..).symm,
        .gap hb hblank hgs (hspares.imp_right Spot.Spares.left) h₁, h₂⟩
    | bracket hk hcs h =>
      obtain ⟨ns₁, ns₂, rfl, h₁, h₂⟩ := ih h
      rw [p.past_bracket hk]
      exact ⟨_ :: ns₁, ns₂, rfl, .bracket hk hcs h₁, h₂⟩
    | call hname hcs h =>
      obtain ⟨ns₁, ns₂, rfl, h₁, h₂⟩ := ih h
      rw [show p.past (Node.call _ _ _ _) = p.operand from p.past_function ..]
      exact ⟨_ :: ns₁, ns₂, rfl, .call hname hcs h₁, h₂⟩

/-- Nothing is commented where nothing is marked. -/
theorem eq_of_unmarked (h : Commented Marked p ns ns') (hm : ∀ b ∈ nodesAll ns, ¬ Marked b) :
    ns' = ns := by
  induction h with
  | nil => rfl
  | keep n _ ih => rw [ih fun b hb => hm b (List.mem_append_right _ hb)]
  | @gap _ b gs ns ns' hb =>
    exact absurd hb (hm b (List.mem_append_left _ (self_mem_nodes b)))
  | @bracket _ k s cs cs' ns ns' hk _ _ ih ih' =>
    rw [ih fun b hb => hm b (List.mem_append_left _ (List.mem_cons_of_mem _ hb)),
      ih' fun b hb => hm b (List.mem_append_right _ hb)]
  | @call _ name s t cs cs' ns ns' _ _ _ ih ih' =>
    have hcs : ∀ b ∈ nodesAll cs, ¬ Marked b := fun b hb =>
      hm b (List.mem_append_left _ (by simp [Node.call, nodes, nodesAll, hb]))
    rw [ih hcs, ih' fun b hb => hm b (List.mem_append_right _ hb)]

/-- A firm node stays. -/
theorem of_cons {n : Node} (h : Commented Marked p (n :: ns) ns') (hn : n.isFirm = true) :
    ∃ ms, ns' = n :: ms ∧ Commented Marked (p.past n) ns ms := by
  cases h with
  | keep _ h => exact ⟨_, rfl, h⟩
  | gap _ hblank _ _ _ =>
    rw [isFirm_of_isTrivia (hblank.trivia _ (List.mem_singleton_self _)).1] at hn
    cases hn
  | bracket hk _ _ => rcases hk with rfl | rfl <;> cases hn
  | call _ _ _ => cases hn

/-- A firm node was there before. -/
theorem of_cons' {n : Node} (h : Commented Marked p ns (n :: ns')) (hn : n.isFirm = true) :
    ∃ ms, ns = n :: ms ∧ Commented Marked (p.past n) ms ns' := by
  generalize hall : n :: ns' = all at h
  cases h with
  | nil => cases hall
  | keep m h =>
    cases hall
    exact ⟨_, rfl, h⟩
  | @gap _ b gs ns ms _ _ hgs _ _ =>
    obtain ⟨g, gs', rfl⟩ := List.exists_cons_of_ne_nil hgs.ne_nil
    obtain ⟨rfl, -⟩ := List.cons.inj hall
    rw [isFirm_of_isTrivia (hgs.trivia _ List.mem_cons_self).1] at hn
    cases hn
  | bracket hk _ _ =>
    obtain ⟨rfl, -⟩ := List.cons.inj hall
    rcases hk with rfl | rfl <;> cases hn
  | call _ _ _ =>
    obtain ⟨rfl, -⟩ := List.cons.inj hall
    cases hn

theorem nil_left (h : Commented Marked p [] ns') : ns' = [] := by
  cases h
  rfl

theorem nil_right (h : Commented Marked p ns []) : ns = [] := by
  generalize hall : ([] : List Node) = all at h
  cases h with
  | nil => rfl
  | gap _ _ hgs _ _ => exact absurd (List.append_eq_nil_iff.1 hall.symm).1 hgs.ne_nil
  | _ => cases hall

end Commented

end Node

namespace Expr

open Node

/-! ### Nodes that are read alike -/

/-- **Readings that are alike:** the same firm node, or two with the same expression and a kind of
which there are no leaves. -/
structure Alike (r r' : Reading) : Prop where
  expr : r'.expr.mute = r.expr.mute
  node : r'.node = r.node ∨ ∃ k cs cs' s s', k ≠ .identifier ∧ k ≠ .punctuation ∧ k ≠ .variable ∧
    r.node = .sequence k cs s ∧ r'.node = .sequence k cs' s'

/-- Readings with comments at blanks, the first of them at the spot. -/
inductive AllAlike : Spot → List Reading → List Reading → Prop
  | nil {p : Spot} : AllAlike p [] []
  | cons {p : Spot} {r r' : Reading} {rs rs' : List Reading} :
      Alike r r' → AllAlike (p.past r.node) rs rs' → AllAlike p (r :: rs) (r' :: rs')
  | gap {p : Spot} {b : Node} {gs : List Node} {rs rs' : List Reading} :
      Gap [b] → Pause gs →
        (∃ g ∈ gs, g.is .space = true) ∨ p.Spares (rs.map Reading.node) → AllAlike p rs rs' →
          AllAlike p (⟨b, ofNode b⟩ :: rs) (readings gs ++ rs')

namespace Alike

variable {r r' : Reading}

theorem is_eq (h : Alike r r') (k : Kind) : r'.node.is k = r.node.is k := by
  rcases h.node with hn | ⟨l, cs, cs', s, s', -, -, -, hr, hr'⟩
  · rw [hn]
  · rw [hr, hr']
    rfl

theorem text_eq (h : Alike r r') : r'.node.text = r.node.text := by
  rcases h.node with hn | ⟨l, cs, cs', s, s', -, -, -, hr, hr'⟩
  · rw [hn]
  · rw [hr, hr']
    rfl

theorem isLeaf_eq (h : Alike r r') (k : Kind) (t : String) :
    r'.node.isLeaf k t = r.node.isLeaf k t := by
  rcases h.node with hn | ⟨l, cs, cs', s, s', -, -, -, hr, hr'⟩
  · rw [hn]
  · simp [hr, hr', isLeaf, text?]

theorem items (h : Alike r r') : r'.items.map Item.mute = r.items.map Item.mute := by
  obtain ⟨n, e⟩ := r
  obtain ⟨n', e'⟩ := r'
  obtain ⟨he, hn⟩ := h
  have he : e'.mute = e.mute := he
  rcases hn with hn | ⟨l, cs, cs', s, s', -, -, -, hr, hr'⟩
  · obtain rfl : n' = n := hn
    cases n' with
    | leaf k t s => rfl
    | single k c s => exact congrArg (fun e => [Item.atom e ""]) he
    | sequence k cs s => exact congrArg (fun e => [Item.atom e ""]) he
  · obtain rfl : n = _ := hr
    obtain rfl : n' = _ := hr'
    exact congrArg (fun e => [Item.atom e ""]) he

end Alike

/-- Three readings that are alike refer to a member together, or not. -/
theorem isMember_alike {a b c a' b' c' : Reading} (ha : Alike a a') (hb : Alike b b')
    (hc : Alike c c') :
    isMember a'.node b'.node c'.node = isMember a.node b.node c.node := by
  unfold isMember
  rw [ha.is_eq, ha.text_eq, hb.isLeaf_eq, hc.is_eq, hc.is_eq]

/-- What a member of a module is read from. -/
structure StartsMember (a b c : Reading) : Prop where
  space : a.node.is .identifier = true
  point : b.node.isLeaf .punctuation "." = true
  member : c.node.is .variable = true ∨ c.node.is .function = true

theorem startsMember {a b c : Reading} (h : isMember a.node b.node c.node = true) :
    StartsMember a b c := by
  simp only [isMember, Bool.and_eq_true, Bool.or_eq_true] at h
  obtain ⟨⟨⟨hspace, -⟩, hpoint⟩, hmember⟩ := h
  exact ⟨hspace, hpoint, hmember⟩

/-- The second and the third of the readings that refer to a member, if the first ones do. -/
def memberIn (a : Reading) : List Reading → Bool
  | b :: c :: _ => isMember a.node b.node c.node
  | _ => false

theorem exists_of_memberIn {a : Reading} {rs : List Reading} (h : memberIn a rs = true) :
    ∃ b c rest, rs = b :: c :: rest ∧ isMember a.node b.node c.node = true := by
  rcases rs with _ | ⟨b, _ | ⟨c, rest⟩⟩
  · cases h
  · cases h
  · exact ⟨b, c, rest, rfl, h⟩

theorem joined_member {a b c : Reading} {rs : List Reading}
    (h : isMember a.node b.node c.node = true) :
    joined (a :: b :: c :: rs) =
      .member (c.expr.inNamespace a.node.text) (a.node.text ++ "." ++ c.node.print) :: joined rs := by
  rw [joined, if_pos h]

theorem joined_apart {a : Reading} {rs : List Reading} (h : memberIn a rs = false) :
    joined (a :: rs) = a.items ++ joined rs := by
  rcases rs with _ | ⟨b, _ | ⟨c, rs⟩⟩
  · simp [joined]
  · simp [joined]
  · have h : isMember a.node b.node c.node = false := h
    rw [joined, if_neg (by simp [h])]

theorem memberIn_of_isTrivia {a : Reading} (h : a.node.isTrivia = true) (rs : List Reading) :
    memberIn a rs = false := by
  refine Bool.eq_false_iff.2 fun hm => ?_
  obtain ⟨b, c, rest, -, hm⟩ := exists_of_memberIn hm
  have hs := (startsMember hm).space
  simp only [isTrivia, is, Bool.or_eq_true, beq_iff_eq] at h hs
  simp [hs] at h

theorem isTrivia_of_isLeaf {n : Node} {t : String} (h : n.isLeaf .punctuation t = true) :
    n.isTrivia = false := by
  simp only [isLeaf, is, Bool.and_eq_true, beq_iff_eq] at h
  simp [isTrivia, is, h.1]

theorem isTrivia_of_member {n : Node} (h : n.is .variable = true ∨ n.is .function = true) :
    n.isTrivia = false := by
  rcases h with h | h <;>
    · simp only [is, beq_iff_eq] at h
      simp [isTrivia, is, h]

theorem readings_append (ms ns : List Node) : readings (ms ++ ns) = readings ms ++ readings ns := by
  induction ms with
  | nil => rfl
  | cons m ms ih => rw [List.cons_append, readings, readings, ih, List.cons_append]

/-- A blank or comment has a blank as its item, or none. -/
theorem items_of_isTrivia {g : Node} (h : g.isTrivia = true ∧ ∃ k t s, g = .leaf k t s) (e : Expr) :
    Reading.items ⟨g, e⟩ = if g.is .space then [.space] else [] := by
  obtain ⟨htrivia, k, t, s, rfl⟩ := h
  simp only [isTrivia, is, kind, Bool.or_eq_true, beq_iff_eq] at htrivia
  rcases htrivia with (rfl | rfl) | rfl <;> rfl

/-- The items of blanks and comments in front. -/
theorem joined_trivia {gs : List Node}
    (h : ∀ g ∈ gs, g.isTrivia = true ∧ ∃ k t s, g = .leaf k t s) (rs : List Reading) :
    joined (readings gs ++ rs) =
      List.replicate (gs.countP (·.is .space)) .space ++ joined rs := by
  induction gs with
  | nil => rfl
  | cons g gs ih =>
    have hg := h g List.mem_cons_self
    rw [readings, List.cons_append, joined_apart (memberIn_of_isTrivia hg.1 _), items_of_isTrivia hg,
      ih fun g hg => h g (List.mem_cons_of_mem _ hg), List.countP_cons]
    split
    · rw [List.replicate_succ]
      rfl
    · rfl

/-- The items of blanks and comments at the end. -/
theorem joined_behind {gs : List Node}
    (h : ∀ g ∈ gs, g.isTrivia = true ∧ ∃ k t s, g = .leaf k t s) (rs : List Reading) :
    joined (rs ++ readings gs) =
      joined rs ++ List.replicate (gs.countP (·.is .space)) .space := by
  have hreading : ∀ r ∈ readings gs, r.node.isTrivia = true := by
    clear rs
    induction gs with
    | nil => exact fun r hr => by cases hr
    | cons g gs ih =>
      intro r hr
      rcases List.mem_cons.1 hr with rfl | hr
      · exact (h g List.mem_cons_self).1
      · exact ih (fun g hg => h g (List.mem_cons_of_mem _ hg)) r hr
  -- nothing at the end belongs to a member
  have hmember (a : Reading) (rs : List Reading) :
      memberIn a (rs ++ readings gs) = memberIn a rs := by
    generalize readings gs = ts at hreading
    rcases rs with _ | ⟨b, _ | ⟨c, rs⟩⟩
    · rcases ts with _ | ⟨b, _ | ⟨c, ts⟩⟩
      · rfl
      · rfl
      · refine Bool.eq_false_iff.2 fun hm => ?_
        have := hreading b List.mem_cons_self
        rw [isTrivia_of_isLeaf (startsMember hm).point] at this
        cases this
    · rcases ts with _ | ⟨c, ts⟩
      · rfl
      · refine Bool.eq_false_iff.2 fun hm => ?_
        have := hreading c List.mem_cons_self
        rw [isTrivia_of_member (startsMember hm).member] at this
        cases this
    · rfl
  induction hn : rs.length using Nat.strongRecOn generalizing rs with
  | _ n ih =>
    subst hn
    cases rs with
    | nil =>
      have hall := joined_trivia h []
      rw [List.append_nil] at hall
      rw [List.nil_append, hall]
      exact List.append_nil _
    | cons a rs =>
      cases hm : memberIn a rs with
      | false =>
        rw [List.cons_append, joined_apart ((hmember a rs).trans hm), joined_apart hm,
          ih _ (Nat.lt_succ_self _) rs rfl, List.append_assoc]
      | true =>
        obtain ⟨b, c, rs, rfl, hm⟩ := exists_of_memberIn hm
        rw [List.cons_append, List.cons_append, List.cons_append, joined_member hm, joined_member hm,
          ih _ (by simp only [List.length_cons]; omega) rs rfl, List.cons_append]

/-- **The items of a gap** are blanks, and there is one. -/
theorem joined_gap {gs : List Node} (h : Gap gs) :
    ∃ n, ∀ rs, joined (readings gs ++ rs) = List.replicate (n + 1) .space ++ joined rs := by
  have hpos : 0 < gs.countP (·.is .space) := by
    obtain ⟨g, hg, hspace⟩ := h.blank
    exact List.countP_pos_iff.2 ⟨g, hg, hspace⟩
  refine ⟨gs.countP (·.is .space) - 1, fun rs => ?_⟩
  rw [joined_trivia h.trivia, Nat.sub_add_cancel hpos]

/-- Comments without a blank among them have no items. -/
theorem joined_comments {gs : List Node} (h : Pause gs) (hno : ¬ ∃ g ∈ gs, g.is .space = true)
    (rs : List Reading) : joined (readings gs ++ rs) = joined rs := by
  have hzero : gs.countP (·.is .space) = 0 :=
    List.countP_eq_zero.2 fun g hg hspace => hno ⟨g, hg, hspace⟩
  rw [joined_trivia h.trivia, hzero]
  rfl

/-- Blanks and comments are no second or third part of a member. -/
theorem isTrivia_of_pause {gs : List Node} (h : Pause gs) {r : Reading} {rs rs' : List Reading}
    (hr : readings gs ++ rs = r :: rs') : r.node.isTrivia = true := by
  obtain ⟨g, gs', rfl⟩ := List.exists_cons_of_ne_nil h.ne_nil
  obtain ⟨rfl, -⟩ := List.cons.inj hr
  exact (h.trivia g List.mem_cons_self).1

namespace AllAlike

variable {p q : Spot}

theorem mono {rs rs' : List Reading} (h : AllAlike p rs rs') (hpq : p.Within q) :
    AllAlike q rs rs' := by
  induction h generalizing q with
  | nil => exact .nil
  | cons hr _ ih => exact .cons hr (ih (hpq.past _))
  | gap hb hgs hspares _ ih =>
    exact .gap hb hgs (hspares.imp_right fun h => h.mono hpq) (ih hpq)

theorem of_cons {r : Reading} {rs rs' : List Reading} (h : AllAlike p (r :: rs) rs')
    (hr : r.node.isTrivia = false) :
    ∃ r' ts, rs' = r' :: ts ∧ Alike r r' ∧ AllAlike (p.past r.node) rs ts := by
  cases h with
  | cons hr' h => exact ⟨_, _, rfl, hr', h⟩
  | gap hb _ _ _ =>
    rw [(hb.trivia _ (List.mem_singleton_self _)).1] at hr
    cases hr

theorem of_cons' {r : Reading} {rs rs' : List Reading} (h : AllAlike p rs (r :: rs'))
    (hr : r.node.isTrivia = false) :
    ∃ r' ts, rs = r' :: ts ∧ Alike r' r ∧ AllAlike (p.past r'.node) ts rs' := by
  generalize hall : r :: rs' = all at h
  cases h with
  | nil => cases hall
  | cons hr' h =>
    cases hall
    exact ⟨_, _, rfl, hr', h⟩
  | gap _ hgs _ _ =>
    rw [isTrivia_of_pause hgs hall.symm] at hr
    cases hr

/-- The second and the third part of a member are no blanks, so they are read one by one. -/
theorem of_member {a b c : Reading} {rs rs' : List Reading} (h : AllAlike p (b :: c :: rs) rs')
    (hm : isMember a.node b.node c.node = true) :
    ∃ b' c' ts, rs' = b' :: c' :: ts ∧ Alike b b' ∧ Alike c c' ∧
      AllAlike ((p.past b.node).past c.node) rs ts := by
  have hstart := startsMember hm
  obtain ⟨b', ts, rfl, hb, h⟩ := h.of_cons (isTrivia_of_isLeaf hstart.point)
  obtain ⟨c', ts, rfl, hc, h⟩ := h.of_cons (isTrivia_of_member hstart.member)
  exact ⟨b', c', ts, rfl, hb, hc, h⟩

end AllAlike

/-- A member starts where one starts in readings that are alike. -/
theorem memberIn_alike {p : Spot} {a a' : Reading} {rs rs' : List Reading} (ha : Alike a a')
    (h : AllAlike p rs rs') : memberIn a' rs' = memberIn a rs := by
  rw [Bool.eq_iff_iff]
  constructor
  · intro hm
    obtain ⟨b', c', rest', rfl, hm⟩ := exists_of_memberIn hm
    have hstart := startsMember hm
    obtain ⟨b, ts, rfl, hb, h⟩ := h.of_cons' (isTrivia_of_isLeaf hstart.point)
    obtain ⟨c, ts, rfl, hc, -⟩ := h.of_cons' (isTrivia_of_member hstart.member)
    exact (isMember_alike ha hb hc).symm.trans hm
  · intro hm
    obtain ⟨b, c, rest, rfl, hm⟩ := exists_of_memberIn hm
    obtain ⟨b', c', ts, rfl, hb, hc, -⟩ := h.of_member hm
    exact (isMember_alike ha hb hc).trans hm

/-! ### Their items -/

/-- What nodes tell of a blank, their items tell as well. -/
theorem past_within (p : Spot) (r : Reading) :
    (p.past r.node).Within (r.items.foldl Spot.next p) := by
  obtain ⟨n, e⟩ := r
  unfold Spot.past
  split
  · exact Spot.unknown_within _
  · cases n with
    | leaf k text s =>
      show Spot.Within (((itemOfLeaf? k text).map p.next).getD p)
        ((itemOfLeaf? k text).toList.foldl Spot.next p)
      cases itemOfLeaf? k text with
      | none => exact Spot.within_refl _
      | some i => exact Spot.within_refl _
    | single k c s | sequence k cs s =>
      dsimp only
      split
      · exact Spot.within_refl _
      · exact Spot.unknown_within _

/-- The spot behind the point of a member. -/
theorem past_point {n : Node} (h : n.isLeaf .punctuation "." = true) (p : Spot) :
    p.past n = p.operand := by
  cases n with
  | leaf k text s =>
    simp only [isLeaf, is, kind, text?, Bool.and_eq_true, beq_iff_eq, Option.some.injEq] at h
    obtain ⟨rfl, rfl⟩ := h
    rfl
  | _ => simp [isLeaf, text?] at h

/-- The spot behind a variable or call. -/
theorem past_of_member {n : Node} (h : n.is .variable = true ∨ n.is .function = true) (p : Spot) :
    (p.past n).Within p.operand := by
  cases n with
  | leaf k text s =>
    simp only [is, kind, beq_iff_eq] at h
    rcases h with rfl | rfl <;> exact Spot.within_refl _
  | single k c s | sequence k cs s =>
    unfold Spot.past
    split
    · exact Spot.unknown_within _
    · dsimp only
      split
      · exact Spot.within_refl _
      · exact Spot.unknown_within _

/-- A name that may be that of a module is an operand by itself. -/
theorem itemOfLeaf?_space {k : Kind} {t : String} {s : Option Span} {b c : Node}
    (h : isMember (.leaf k t s) b c = true) :
    itemOfLeaf? k t = some (.atom (ofLeaf k t) t) := by
  simp only [isMember, is, kind, Node.text, text?, Option.getD_some, Bool.and_eq_true,
    beq_iff_eq] at h
  obtain ⟨⟨⟨rfl, hword⟩, -⟩, -⟩ := h
  simp only [List.contains_cons, List.contains_nil, Bool.or_false, Bool.not_eq_true',
    Bool.or_eq_false_iff, beq_eq_false_iff_ne] at hword
  simp [itemOfLeaf?, hword]

/-- Behind a member other operands may be glued to it, unless it comes first. -/
theorem past_member_within {a b c : Reading} (h : isMember a.node b.node c.node = true) (p : Spot) :
    (((p.past a.node).past b.node).past c.node).Within p.operand := by
  have hstart := startsMember h
  rw [past_point hstart.point]
  have hne : p.past a.node ≠ .front := by
    unfold Spot.past
    split
    · nofun
    · obtain ⟨n, e⟩ := a
      cases n with
      | leaf k t s =>
        simp only [itemOfLeaf?_space h, Option.map_some, Option.getD_some]
        exact p.operand_ne
      | single k c s | sequence k cs s =>
        dsimp only
        split
        · exact p.operand_ne
        · nofun
  have hbeside : (p.past a.node).operand.operand = .beside := by
    cases hp : p.past a.node with
    | front => exact absurd hp hne
    | _ => rfl
  have hlast := past_of_member hstart.member (p.past a.node).operand
  rw [hbeside] at hlast
  -- nothing is known behind operands side by side that is not known behind one operand
  have hall : Spot.Within .beside p.operand := by
    cases p <;> simp [Spot.operand, Spot.Within]
  exact hlast.trans hall

/-- Nothing clings to the items of nodes to which nothing clings. -/
theorem clings_of_nodes {rs : List Reading}
    (h : ∀ n ∈ ((rs.map Reading.node).dropWhile Node.isVoid).head?, n.clings = false) :
    ∀ i ∈ (skip (joined rs)).head?, i.clings = false := by
  induction rs with
  | nil => nofun
  | cons a rs ih =>
    obtain ⟨n, e⟩ := a
    cases n with
    | leaf k t s =>
      have hapart (hi : ∀ i ∈ itemOfLeaf? k t, i.clings = false) :
          joined (⟨.leaf k t s, e⟩ :: rs) = (itemOfLeaf? k t).toList ++ joined rs := by
        refine joined_apart (Bool.eq_false_iff.2 fun hm => ?_)
        obtain ⟨b, c, rest, -, hm⟩ := exists_of_memberIn hm
        cases hi _ (itemOfLeaf?_space hm)
      rw [List.map_cons, List.dropWhile_cons] at h
      split at h
      · next hvoid =>
        have hvoid : (itemOfLeaf? k t).all Item.isSpace = true := hvoid
        have ih := ih h
        cases hi : itemOfLeaf? k t with
        | none =>
          rw [hapart (by simp [hi]), hi]
          exact ih
        | some i =>
          rw [hi] at hvoid
          cases i with
          | space =>
            rw [hapart (by simp [hi, Item.clings, Item.atom?, Item.isSign]), hi]
            exact ih
          | _ => cases hvoid
      · next hvoid =>
        have hclings : (itemOfLeaf? k t).any Item.clings = false := h _ rfl
        have hvoid : ¬ (itemOfLeaf? k t).all Item.isSpace = true := hvoid
        cases hi : itemOfLeaf? k t with
        | none => exact absurd (by rw [hi]; rfl) hvoid
        | some i =>
          rw [hi] at hclings hvoid
          have hi' : i.clings = false := hclings
          have hspace : skip (i :: joined rs) = i :: joined rs := by
            cases i with
            | space => exact absurd rfl hvoid
            | _ => rfl
          rw [hapart (by simpa [hi] using hi'), hi]
          show ∀ j ∈ (skip (i :: joined rs)).head?, j.clings = false
          rw [hspace]
          simpa using hi'
    | _ => cases h _ rfl

/-- **Readings that are alike** have items that settle alike. -/
theorem joined_alike {p : Spot} {rs rs' : List Reading} (h : AllAlike p rs rs') :
    SettleAlike p (joined rs) (joined rs') := by
  induction hn : rs.length using Nat.strongRecOn generalizing p rs rs' with
  | _ n ih =>
    subst hn
    cases h with
    | nil => exact ⟨rfl, fun _ => rfl⟩
    | @gap _ b gs rs rs' hb hgs hspares h =>
      have hrest := ih _ (Nat.lt_succ_self _) h rfl
      obtain ⟨l, hl⟩ := joined_gap hb
      have hl : joined (⟨b, ofNode b⟩ :: rs) = List.replicate (l + 1) .space ++ joined rs := hl rs
      have hcons : SettleAlike p (.space :: joined rs) (.space :: joined rs') :=
        SettleAlike.cons rfl hrest
      rw [hl]
      by_cases hblank : ∃ g ∈ gs, g.is .space = true
      · obtain ⟨k, hk⟩ := joined_gap ⟨hgs.trivia, hblank⟩
        rw [hk]
        refine ⟨?_, fun _ => rfl⟩
        rw [settle_blanks, settle_blanks, hcons.settle]
      · have hspares := hspares.resolve_left hblank
        have hdrop : settle p (.space :: joined rs) = settle p (joined rs) :=
          settle_spared (hspares.imp_right fun ⟨_, h⟩ => clings_of_nodes h)
        rw [joined_comments hgs hblank]
        refine ⟨?_, fun hp => ?_⟩
        · rw [settle_blanks, hdrop, hrest.settle]
        · rcases hspares with hfront | ⟨hp', -⟩
          · rw [hp] at hfront
            cases hfront
          · exact absurd hp hp'
    | @cons _ a a' rs rs' ha h =>
      cases hm : memberIn a rs with
      | false =>
        have hm' : memberIn a' rs' = false := (memberIn_alike ha h).trans hm
        rw [joined_apart hm, joined_apart hm']
        exact (ih _ (Nat.lt_succ_self _) (h.mono (past_within p a)) rfl).append ha.items
      | true =>
        obtain ⟨b, c, rs, rfl, hm⟩ := exists_of_memberIn hm
        obtain ⟨b', c', ts, rfl, hb, hc, h⟩ := h.of_member hm
        rw [joined_member hm, joined_member ((isMember_alike ha hb hc).trans hm)]
        have hrest := ih _ (by simp only [List.length_cons]; omega)
          (h.mono (past_member_within hm p)) rfl
        refine SettleAlike.cons ?_ hrest
        simp only [Item.mute, ha.text_eq, inNamespace_mute hc.expr a.node.text]

/-! ### Commented nodes are read alike -/

theorem alike_refl (n : Node) : Alike ⟨n, ofNode n⟩ ⟨n, ofNode n⟩ := ⟨rfl, .inl rfl⟩

theorem map_node_readings (ns : List Node) : (readings ns).map Reading.node = ns := by
  induction ns with
  | nil => rfl
  | cons n ns ih => rw [readings, List.map_cons, ih]

/-- **Commented nodes are read alike.** -/
theorem readings_commented {Marked : Node → Prop} {p : Spot} {ns ns' : List Node}
    (h : Commented Marked p ns ns') : AllAlike p (readings ns) (readings ns') := by
  induction h with
  | nil => exact .nil
  | keep n _ ih => exact .cons (alike_refl n) ih
  | gap _ hblank hgs hspares _ ih =>
    rw [readings, readings_append]
    exact .gap hblank hgs (by rwa [map_node_readings]) ih
  | @bracket p k s cs cs' ns ns' hk _ _ ih ih' =>
    refine .cons ⟨?_, .inr ⟨k, cs, cs', s, s, ?_, ?_, ?_, rfl, rfl⟩⟩
      (p.past_bracket hk cs s ▸ ih')
    · have hin := (joined_alike ih).settle
      rcases hk with rfl | rfl
      · show (parenthesized (joined (readings cs'))).mute =
          (parenthesized (joined (readings cs))).mute
        rw [← parenthesized_settle, hin, parenthesized_settle]
      · show (interpolation (expression (joined (readings cs')))).mute =
          (interpolation (expression (joined (readings cs)))).mute
        rw [mute, mute, ← expression_settle, hin, expression_settle]
    all_goals rcases hk with rfl | rfl <;> simp
  | @call p name s t cs cs' ns ns' hname _ _ ih ih' =>
    refine .cons ⟨?_, .inr ⟨.function, _, _, t, t, by simp, by simp, by simp, rfl, rfl⟩⟩
      (p.past_function .. ▸ ih')
    have hin := (joined_alike ih).settle
    show (Expr.call name.text (arguments false (joined (readings cs'))) _).mute =
      (Expr.call name.text (arguments false (joined (readings cs))) _).mute
    rw [mute, mute, hname, ← arguments_settle Spot.opens_front, hin,
      arguments_settle Spot.opens_front]
    rfl

/-- **The items of commented nodes** settle alike. -/
theorem itemsOf_commented {Marked : Node → Prop} {p : Spot} {ns ns' : List Node}
    (h : Commented Marked p ns ns') : SettleAlike p (itemsOf ns) (itemsOf ns') :=
  joined_alike (readings_commented h)

/-- The expression of commented nodes. -/
theorem ofNodes_commented {Marked : Node → Prop} {ns ns' : List Node}
    (h : Commented Marked .front ns ns') : (ofNodes ns').mute = (ofNodes ns).mute := by
  unfold ofNodes
  rw [← expression_settle, (itemsOf_commented h).settle, expression_settle]

/-- Blanks and comments in front show in no expression. -/
theorem ofNodes_behind {gs : List Node}
    (h : ∀ g ∈ gs, g.isTrivia = true ∧ ∃ k t s, g = .leaf k t s) (ns : List Node) :
    ofNodes (gs ++ ns) = ofNodes ns := by
  have hskip (n : Nat) (its : List Item) : skip (List.replicate n .space ++ its) = skip its := by
    induction n with
    | zero => rfl
    | succ n ih => exact ih
  unfold ofNodes itemsOf
  rw [readings_append, joined_trivia h, ← expression_skip, hskip, expression_skip]

/-- Whether the last item of some nodes is a sign. -/
def endsWithSign (ns : List Node) : Bool := ((itemsOf ns).getLast?.map Item.isSign).getD false

/-- Blanks and comments at the end show in no expression, unless they stand behind a sign. -/
theorem ofNodes_before {gs ns : List Node}
    (h : ∀ g ∈ gs, g.isTrivia = true ∧ ∃ k t s, g = .leaf k t s) (hsign : endsWithSign ns = false) :
    (ofNodes (ns ++ gs)).mute = (ofNodes ns).mute := by
  have hlast : ∀ i ∈ (itemsOf ns).getLast?, i.isSign = false := by
    intro i hi
    rw [endsWithSign, hi] at hsign
    exact hsign
  have hsettle := settle_end (p := .front) hlast (gs.countP (·.is .space))
  unfold ofNodes
  rw [← expression_settle, ← expression_settle (itemsOf ns), ← hsettle]
  unfold itemsOf
  rw [readings_append, joined_behind h]

end Expr
end Stylesheet
