import Mathlib.Data.List.DropRight
import Mathlib.Data.List.Forall2
import Stylesheet.Proofs.Expr.Commented
import Stylesheet.Rule.Headers

/-!
# Looking for nodes among comments

Rules look for names, commas and calls, and leave blanks and comments aside. What they look for is
found again among commented nodes.

* `Node.Commented.induct`: commented nodes, part by part.
* `Node.Commented.findIdx?_firm`, `Node.Commented.find?_function`: the first name, the first call.
* `Node.Commented.trim`, `Node.Commented.parts`: nodes that are trimmed, and cut at commas.
-/

namespace Stylesheet
namespace Node

open Stylesheet.Expr (Spot)

/-! ### Tests -/

/-- A test that only firm nodes pass. -/
def FirmTest (p : Node → Bool) : Prop := ∀ n, p n = true → n.isFirm = true

theorem firmTest_is {k : Kind} (h : isFirm (.leaf k "" none) = true) : FirmTest (·.is k) := by
  intro n hn
  have hk : n.kind = k := by simpa [is] using hn
  simpa [isFirm, isTrivia, is, hk, show (leaf k "" none).kind = k from rfl] using h

theorem firmTest_isLeaf {k : Kind} (h : isFirm (.leaf k "" none) = true) (t : String) :
    FirmTest (·.isLeaf k t) := by
  intro n hn
  simp only [isLeaf, Bool.and_eq_true] at hn
  exact firmTest_is h n hn.1

theorem FirmTest.of_not {p : Node → Bool} (hp : FirmTest p) {n : Node} (hn : n.isFirm = false) :
    p n = false := by
  rw [Bool.eq_false_iff]
  intro h
  rw [hp n h] at hn
  cases hn

theorem FirmTest.of_pause {p : Node → Bool} (hp : FirmTest p) {gs : List Node} (h : Pause gs) :
    ∀ g ∈ gs, p g = false := fun g hg => hp.of_not (isFirm_of_isTrivia (h.trivia g hg).1)

/-- A test that blanks and comments pass, but no brackets and calls. -/
structure SkipTest (p : Node → Bool) : Prop where
  trivia : ∀ n, n.isTrivia = true → p n = true
  bracket : ∀ n, n.isTrivia = false → n.isFirm = false → p n = false

/-- A node that stays, a bracket or a call, and what becomes of it. -/
structure Resembles (Marked : Node → Prop) (n n' : Node) : Prop where
  kind : n'.kind = n.kind
  text : n'.text? = n.text?
  firm : n.isFirm = true → n' = n
  inside : n.is .parentheses = true → Commented Marked .front n.children n'.children
  name : n.is .function = true → n'.children.head? = n.children.head?
  arguments : n.is .function = true →
    Option.Rel (Commented Marked .front) (n.children[1]?.map children) (n'.children[1]?.map children)

/-- Two places at which nodes are cut, the nodes there left out. -/
structure CutAlike (Marked : Node → Prop) (p : Spot) (ns ns' : List Node) (i i' : Nat) : Prop where
  front : Commented Marked p (ns.take i) (ns'.take i')
  behind : Commented Marked .front (ns.drop (i + 1)) (ns'.drop (i' + 1))

namespace Resembles

variable {Marked : Node → Prop} {n n' : Node}

theorem refl (n : Node) : Resembles Marked n n where
  kind := rfl
  text := rfl
  firm _ := rfl
  inside _ := .refl _
  name _ := rfl
  arguments _ := by
    cases n.children[1]?.map children with
    | none => exact .none
    | some cs => exact .some (.refl cs)

theorem is_eq (h : Resembles Marked n n') (k : Kind) : n'.is k = n.is k := by
  rw [is, is, h.kind]

theorem isLeaf_eq (h : Resembles Marked n n') (k : Kind) (t : String) :
    n'.isLeaf k t = n.isLeaf k t := by
  rw [isLeaf, isLeaf, h.is_eq, h.text]

theorem text_eq (h : Resembles Marked n n') : n'.text = n.text := by
  rw [Node.text, Node.text, h.text]

theorem isTrivia_eq (h : Resembles Marked n n') : n'.isTrivia = n.isTrivia := by
  rw [isTrivia, isTrivia, h.is_eq, h.is_eq, h.is_eq]

theorem isFirm_eq (h : Resembles Marked n n') : n'.isFirm = n.isFirm := by
  rw [isFirm, isFirm, h.isTrivia_eq, h.is_eq, h.is_eq, h.is_eq]

end Resembles

namespace Commented

variable {Marked : Node → Prop} {p q : Spot} {ns ns' : List Node}

theorem bracket_resembles {k : Kind} (hk : k = .parentheses ∨ k = .interpolation)
    {cs cs' : List Node} (h : Commented Marked .front cs cs') (s : Option Span) :
    Resembles Marked (.sequence k cs s) (.sequence k cs' s) where
  kind := rfl
  text := rfl
  firm hfirm := by rcases hk with rfl | rfl <;> cases hfirm
  inside _ := h
  name hf := by rcases hk with rfl | rfl <;> cases hf
  arguments hf := by rcases hk with rfl | rfl <;> cases hf

theorem call_resembles {cs cs' : List Node} (h : Commented Marked .front cs cs') (name : Node)
    (s t : Option Span) : Resembles Marked (Node.call name cs s t) (Node.call name cs' s t) where
  kind := rfl
  text := rfl
  firm hfirm := by cases hfirm
  inside hin := by cases hin
  name _ := rfl
  arguments _ := .some h

/-- A node in front that is no blank or comment. -/
theorem of_cons_any {n : Node} (h : Commented Marked p (n :: ns) ns') (hn : n.isTrivia = false) :
    ∃ n' ms, ns' = n' :: ms ∧ Resembles Marked n n' ∧ Commented Marked (p.past n) ns ms := by
  cases h with
  | keep _ h => exact ⟨_, _, rfl, .refl n, h⟩
  | gap _ hblank _ _ _ =>
    rw [(hblank.trivia _ (List.mem_singleton_self _)).1] at hn
    cases hn
  | bracket hk hcs h =>
    exact ⟨_, _, rfl, bracket_resembles hk hcs _, p.past_bracket hk .. ▸ h⟩
  | call _ hcs h => exact ⟨_, _, rfl, call_resembles hcs _ _ _, p.past_function .. ▸ h⟩

/-- A bracket or call with comments in it, in front of other nodes than before. -/
structure Softens (Marked : Node → Prop) (n n' : Node) : Prop where
  resembles : Resembles Marked n n'
  soft : n.isFirm = false
  trivia : n.isTrivia = false
  cons : ∀ {p : Spot} {ns ns' : List Node}, Commented Marked (p.past n) ns ns' →
    Commented Marked p (n :: ns) (n' :: ns')

/-- **Commented nodes, part by part:** a node that stays, a pause, or a bracket or call. -/
theorem induct {motive : (p : Spot) → (ns ns' : List Node) → Commented Marked p ns ns' → Prop}
    (nil : ∀ p, motive p [] [] .nil)
    (keep : ∀ p n {ns ns'} (h : Commented Marked (p.past n) ns ns'), motive (p.past n) ns ns' h →
      motive p (n :: ns) (n :: ns') (.keep n h))
    (gap : ∀ p {b gs ns ns'} (hb : Marked b) (hblank : Gap [b]) (hgs : Pause gs)
      (hspares : (∃ g ∈ gs, g.is .space = true) ∨ p.Spares ns) (h : Commented Marked p ns ns'),
        motive p ns ns' h → motive p (b :: ns) (gs ++ ns') (.gap hb hblank hgs hspares h))
    (soft : ∀ p {n n' ns ns'} (hn : Softens Marked n n') (h : Commented Marked (p.past n) ns ns'),
      motive (p.past n) ns ns' h → motive p (n :: ns) (n' :: ns') (hn.cons h))
    {p : Spot} {ns ns' : List Node} (h : Commented Marked p ns ns') : motive p ns ns' h := by
  induction h with
  | nil => exact nil _
  | keep n h ih => exact keep _ n h ih
  | gap hb hblank hgs hspares h ih => exact gap _ hb hblank hgs hspares h ih
  | @bracket p k s cs cs' ns ns' hk hcs h _ ih =>
    have hn : Softens Marked (.sequence k cs s) (.sequence k cs' s) := {
      resembles := bracket_resembles hk hcs s
      soft := by rcases hk with rfl | rfl <;> rfl
      trivia := by rcases hk with rfl | rfl <;> rfl
      cons := fun {p _ _} h => .bracket hk hcs (p.past_bracket hk cs s ▸ h) }
    have hpast := p.past_bracket hk cs s
    exact soft p hn (hpast ▸ h) (by simpa only [hpast] using ih)
  | @call p name s t cs cs' ns ns' hname hcs h _ ih =>
    have hn : Softens Marked (Node.call name cs s t) (Node.call name cs' s t) := {
      resembles := call_resembles hcs name s t
      soft := rfl
      trivia := rfl
      cons := fun {p _ _} h => .call hname hcs (p.past_function .. ▸ h) }
    have hpast : p.past (Node.call name cs s t) = p.operand := p.past_function ..
    exact soft p hn (hpast ▸ h) (by simpa only [hpast] using ih)

/-- What is looked for among firm nodes is found again. -/
theorem filter_firm (h : Commented Marked p ns ns') {t : Node → Bool} (ht : FirmTest t) :
    ns'.filter t = ns.filter t := by
  induction h using Commented.induct with
  | nil => rfl
  | keep p n h ih => rw [List.filter_cons, List.filter_cons, ih]
  | gap p hb hblank hgs _ h ih =>
    have hnil {gs : List Node} (hgs : Pause gs) : gs.filter t = [] :=
      List.filter_eq_nil_iff.2 fun g hg => by simp [ht.of_pause hgs g hg]
    rw [List.filter_append, hnil hgs, ← List.singleton_append, List.filter_append,
      hnil hblank.pause, ih]
  | soft p hn h ih =>
    have hn' := ht.of_not (hn.resembles.isFirm_eq.trans hn.soft)
    rw [List.filter_cons_of_neg (by simp [hn']),
      List.filter_cons_of_neg (by simp [ht.of_not hn.soft]), ih]

theorem find?_firm (h : Commented Marked p ns ns') {t : Node → Bool} (ht : FirmTest t) :
    ns'.find? t = ns.find? t := by
  rw [← List.head?_filter, ← List.head?_filter, h.filter_firm ht]

/-- Where nodes are cut at the first that passes a test. -/
theorem findIdx?_append_cons {t : Node → Bool} {front behind : List Node} {n : Node}
    (hfront : ∀ m ∈ front, t m = false) (hn : t n = true) :
    (front ++ n :: behind).findIdx? t = some front.length := by
  rw [List.findIdx?_append, List.findIdx?_eq_none_iff.2 hfront, List.findIdx?_cons, if_pos hn]
  simp

/-- **The first node that passes a test** is found again, if parameters may be cut there. -/
theorem findIdx?_firm (h : Commented Marked p ns ns') {t : Node → Bool} (ht : FirmTest t)
    (hcuts : ∀ n, t n = true → n.cuts = true) :
    Option.Rel (CutAlike Marked p ns ns') (ns.findIdx? t) (ns'.findIdx? t) := by
  -- firm nodes are the same on both sides, so one of them passes there if one does here
  have hfilter := h.filter_firm ht
  cases hi : ns.findIdx? t with
  | none =>
    have hnone : ns'.findIdx? t = none := by
      rw [List.findIdx?_eq_none_iff] at hi ⊢
      have hnil : ns.filter t = [] := List.filter_eq_nil_iff.2 fun n hn => by simp [hi n hn]
      rw [hnil, List.filter_eq_nil_iff] at hfilter
      exact fun n hn => by simpa using hfilter n hn
    rw [hnone]
    exact .none
  | some i =>
    obtain ⟨hlt, hn, hfront⟩ := List.findIdx?_eq_some_iff_getElem.1 hi
    have hsplit : ns = ns.take i ++ ns[i] :: ns.drop (i + 1) := by
      rw [List.getElem_cons_drop, List.take_append_drop]
    rw [hsplit] at h
    obtain ⟨front, rest, rfl, hfront', hrest⟩ := h.of_append
    obtain ⟨behind, rfl, hbehind⟩ := hrest.of_cons (ht _ hn)
    -- no node in front passes on either side
    have hnone : ∀ m ∈ front, t m = false := by
      have hnil : (ns.take i).filter t = [] := by
        refine List.filter_eq_nil_iff.2 fun m hm => ?_
        obtain ⟨j, hj, rfl⟩ := List.mem_iff_getElem.1 hm
        rw [List.getElem_take]
        exact hfront j (by rw [List.length_take] at hj; omega)
      rw [← hfront'.filter_firm ht, List.filter_eq_nil_iff] at hnil
      exact fun m hm => by simpa using hnil m hm
    have hpast : Spot.past (List.foldl Spot.past p (ns.take i)) ns[i] = .unknown :=
      if_pos (hcuts _ hn)
    rw [hpast] at hbehind
    rw [findIdx?_append_cons hnone hn]
    refine .some ⟨?_, ?_⟩
    · simpa using hfront'
    · simpa using hbehind.mono (Spot.unknown_within _)

theorem is_function_of_isTrivia {g : Node} (h : g.isTrivia = true) : g.is .function = false := by
  simp only [isTrivia, is, Bool.or_eq_true, beq_iff_eq] at h
  rcases h with (h | h) | h <;> simp [is, h]

/-- Calls, one with comments and one without. -/
def CallAlike (Marked : Node → Prop) (n n' : Node) : Prop :=
  n.is .function = true ∧ Resembles Marked n n'

/-- The first call is found again. -/
theorem find?_function (h : Commented Marked p ns ns') :
    Option.Rel (CallAlike Marked) (ns.find? (·.is .function)) (ns'.find? (·.is .function)) := by
  have hcons {n n' : Node} {ns ns' : List Node} (hn : Resembles Marked n n')
      (ih : Option.Rel (CallAlike Marked) (ns.find? (·.is .function))
        (ns'.find? (·.is .function))) :
      Option.Rel (CallAlike Marked) ((n :: ns).find? (·.is .function))
        ((n' :: ns').find? (·.is .function)) := by
    rw [List.find?_cons, List.find?_cons, hn.is_eq]
    cases h : n.is .function with
    | true => exact .some ⟨h, hn⟩
    | false => exact ih
  induction h using Commented.induct with
  | nil => exact .none
  | keep p n h ih => exact hcons (.refl n) ih
  | gap p hb hblank hgs _ h ih =>
    have hnone {gs : List Node} (hgs : Pause gs) : gs.find? (·.is .function) = none :=
      List.find?_eq_none.2 fun g hg => by simp [is_function_of_isTrivia (hgs.trivia g hg).1]
    rw [List.find?_append, hnone hgs, ← List.singleton_append, List.find?_append,
      hnone hblank.pause, Option.none_or, Option.none_or]
    exact ih
  | soft p hn h ih => exact hcons hn.resembles ih

/-! ### Parts -/

/-- Behind a blank or comment as much is known as before it, or nothing. -/
theorem past_of_isTrivia_within {n : Node} (h : n.isTrivia = true) (p : Spot) :
    (p.past n).Within p := by
  cases n with
  | leaf k t s =>
    rw [p.past_of_isTrivia ⟨h, k, t, s, rfl⟩]
    exact Spot.within_refl p
  | single k c s | sequence k cs s =>
    unfold Spot.past
    split
    · exact Spot.unknown_within _
    · dsimp only
      rw [if_neg]
      · exact Spot.unknown_within _
      · simp only [isTrivia, is, kind, Bool.or_eq_true, beq_iff_eq] at h ⊢
        rcases h with (rfl | rfl) | rfl <;> simp

/-- Nodes are trimmed in front. -/
theorem trimFront (h : Commented Marked p ns ns') :
    Commented Marked p (ns.dropWhile isTrivia) (ns'.dropWhile isTrivia) := by
  induction h using Commented.induct with
  | nil => exact .nil
  | keep p n h ih =>
    rw [List.dropWhile_cons, List.dropWhile_cons]
    split
    · next hn => exact ih.mono (past_of_isTrivia_within hn p)
    · exact .keep n h
  | gap p hb hblank hgs hspares h ih =>
    rw [List.dropWhile_cons_of_pos (hblank.trivia _ (List.mem_singleton_self _)).1,
      List.dropWhile_append_of_pos fun g hg => (hgs.trivia g hg).1]
    exact ih
  | soft p hn h ih =>
    have hn' := hn.resembles.isTrivia_eq.trans hn.trivia
    rw [List.dropWhile_cons_of_neg (by simp [hn.trivia]),
      List.dropWhile_cons_of_neg (by simp [hn'])]
    exact hn.cons h

/-- What is dropped at the end, the first node apart. -/
theorem dropBack_cons (t : Node → Bool) (n : Node) (ns : List Node) :
    ((n :: ns).reverse.dropWhile t).reverse =
      if (ns.reverse.dropWhile t).isEmpty && t n then []
      else n :: (ns.reverse.dropWhile t).reverse := by
  rw [List.reverse_cons, List.dropWhile_append]
  cases hd : (ns.reverse.dropWhile t).isEmpty with
  | true =>
    rw [List.isEmpty_iff.1 hd]
    cases hn : t n <;> simp [hn]
  | false => simp

/-- What is dropped at the end, blanks and comments in front apart. -/
theorem dropBack_append {t : Node → Bool} {gs : List Node} (hgs : ∀ g ∈ gs, t g = true)
    (ns : List Node) : ((gs ++ ns).reverse.dropWhile t).reverse =
      if (ns.reverse.dropWhile t).isEmpty then [] else gs ++ (ns.reverse.dropWhile t).reverse := by
  have hnil : gs.reverse.dropWhile t = [] :=
    List.dropWhile_eq_nil_iff.2 fun g hg => hgs g (List.mem_reverse.1 hg)
  rw [List.reverse_append, List.dropWhile_append, hnil]
  split
  · rfl
  · rw [List.reverse_append, List.reverse_reverse]

theorem isEmpty_eq (h : Commented Marked p ns ns') : ns'.isEmpty = ns.isEmpty := by
  cases ns with
  | nil => rw [h.nil_left]
  | cons n ns =>
    cases ns' with
    | nil => cases h.nil_right
    | cons n' ns' => rfl

/-- Nodes are trimmed at the end. -/
theorem trimBack (h : Commented Marked p ns ns') {t : Node → Bool} (ht : SkipTest t) :
    Commented Marked p (ns.reverse.dropWhile t).reverse (ns'.reverse.dropWhile t).reverse := by
  -- whether everything is dropped behind a node is the same on both sides
  have hempty {p : Spot} {ns ns' : List Node}
      (h : Commented Marked p (ns.reverse.dropWhile t).reverse (ns'.reverse.dropWhile t).reverse) :
      (ns'.reverse.dropWhile t).isEmpty = (ns.reverse.dropWhile t).isEmpty := by
    simpa using h.isEmpty_eq
  induction h using Commented.induct with
  | nil => exact .nil
  | keep p n h ih =>
    rw [dropBack_cons, dropBack_cons, hempty ih]
    split
    · exact .nil
    · exact .keep n ih
  | @gap p b gs ns ns' hb hblank hgs hspares h ih =>
    have hb' : ∀ g ∈ [b], t g = true := fun g hg => ht.trivia g (hblank.trivia g hg).1
    have hfront : ((b :: ns).reverse.dropWhile t).reverse =
        if (ns.reverse.dropWhile t).isEmpty then [] else b :: (ns.reverse.dropWhile t).reverse :=
      dropBack_append hb' ns
    rw [hfront, dropBack_append (fun g hg => ht.trivia g (hgs.trivia g hg).1), hempty ih]
    split
    · exact .nil
    · obtain ⟨tail, hprefix⟩ := List.rdropWhile_prefix t (l := ns)
      refine .gap hb hblank hgs (hspares.imp_right fun hs => ?_) ih
      rw [← hprefix] at hs
      exact hs.left
  | soft p hn h ih =>
    have hn' := ht.bracket _ (hn.resembles.isTrivia_eq.trans hn.trivia)
      (hn.resembles.isFirm_eq.trans hn.soft)
    rw [dropBack_cons, dropBack_cons, ht.bracket _ hn.trivia hn.soft, hn', Bool.and_false,
      Bool.and_false]
    exact hn.cons ih

theorem skipTest_isTrivia : SkipTest isTrivia where
  trivia _ h := h
  bracket _ h _ := h

theorem trim (h : Commented Marked p ns ns') :
    Commented Marked p (Rule.trim ns) (Rule.trim ns') :=
  h.trimFront.trimBack skipTest_isTrivia

theorem segments_comma {n : Node} (h : n.isLeaf .punctuation "," = true) (ns : List Node) :
    Rule.segments (n :: ns) = [] :: Rule.segments ns := if_pos h

theorem segments_cons {n : Node} (h : n.isLeaf .punctuation "," = false) {ns s : List Node}
    {ss : List (List Node)} (hs : Rule.segments ns = s :: ss) :
    Rule.segments (n :: ns) = (n :: s) :: ss := by
  rw [Rule.segments, h, hs]
  rfl

theorem segments_of_not {ms ns s : List Node} {ss : List (List Node)}
    (hm : ∀ m ∈ ms, m.isLeaf .punctuation "," = false) (h : Rule.segments ns = s :: ss) :
    Rule.segments (ms ++ ns) = (ms ++ s) :: ss := by
  induction ms with
  | nil => exact h
  | cons m ms ih =>
    exact segments_cons (hm m List.mem_cons_self) (ih fun n hn => hm n (List.mem_cons_of_mem _ hn))

theorem exists_segments (ns : List Node) : ∃ s ss, Rule.segments ns = s :: ss := by
  induction ns with
  | nil => exact ⟨[], [], rfl⟩
  | cons n ns ih =>
    cases hn : n.isLeaf .punctuation "," with
    | true => exact ⟨[], _, segments_comma hn ns⟩
    | false =>
      obtain ⟨s, ss, hs⟩ := ih
      exact ⟨n :: s, ss, segments_cons hn hs⟩

/-- The first segment comes first. -/
theorem isPrefix_segments {ns s : List Node} {ss : List (List Node)}
    (h : Rule.segments ns = s :: ss) : s <+: ns := by
  induction ns generalizing s ss with
  | nil =>
    obtain ⟨rfl, -⟩ := List.cons.inj h
    exact List.prefix_refl _
  | cons n ns ih =>
    cases hn : n.isLeaf .punctuation "," with
    | true =>
      rw [segments_comma hn] at h
      obtain ⟨rfl, -⟩ := List.cons.inj h
      exact List.nil_prefix
    | false =>
      obtain ⟨s', ss', hs⟩ := exists_segments ns
      rw [segments_cons hn hs] at h
      obtain ⟨rfl, -⟩ := List.cons.inj h
      exact List.cons_prefix_cons.2 ⟨rfl, ih hs⟩

/-- Segments with comments and without: the first of them at the spot, the others behind commas. -/
inductive SegmentsAlike (Marked : Node → Prop) (p : Spot) :
    List (List Node) → List (List Node) → Prop
  | mk {s s' : List Node} {ss ss' : List (List Node)} : Commented Marked p s s' →
      List.Forall₂ (Commented Marked .front) ss ss' → SegmentsAlike Marked p (s :: ss) (s' :: ss')

/-- Nodes that are no commas may stand in front. -/
theorem SegmentsAlike.behind (h : SegmentsAlike Marked p (Rule.segments ns) (Rule.segments ns'))
    {ms ms' : List Node} (hms : ∀ m ∈ ms, m.isLeaf .punctuation "," = false)
    (hms' : ∀ m ∈ ms', m.isLeaf .punctuation "," = false)
    (hfirst : ∀ {s s'}, s <+: ns → Commented Marked p s s' →
      Commented Marked q (ms ++ s) (ms' ++ s')) :
    SegmentsAlike Marked q (Rule.segments (ms ++ ns)) (Rule.segments (ms' ++ ns')) := by
  obtain ⟨s, ss, hs⟩ := exists_segments ns
  obtain ⟨s', ss', hs'⟩ := exists_segments ns'
  rw [hs, hs'] at h
  cases h with
  | mk hone hrest =>
    rw [segments_of_not hms hs, segments_of_not hms' hs']
    exact .mk (hfirst (isPrefix_segments hs) hone) hrest

/-- Behind a comma an operand is expected, as far as is known. -/
theorem past_comma_within {n : Node} (h : n.isLeaf .punctuation "," = true) (p : Spot) :
    (p.past n).Within .front := by
  cases n with
  | leaf k t s =>
    simp only [isLeaf, is, kind, text?, Bool.and_eq_true, beq_iff_eq, Option.some.injEq] at h
    obtain ⟨rfl, rfl⟩ := h
    exact p.opens_mark.imp id fun hunknown => .inl hunknown
  | _ => simp [isLeaf, text?] at h

/-- Nodes are cut at the same commas. -/
theorem segmentsAlike (h : Commented Marked p ns ns') :
    SegmentsAlike Marked p (Rule.segments ns) (Rule.segments ns') := by
  have ht : FirmTest (·.isLeaf .punctuation ",") := firmTest_isLeaf rfl ","
  induction h using Commented.induct with
  | nil => exact .mk .nil .nil
  | keep p n h ih =>
    cases hn : n.isLeaf .punctuation "," with
    | true =>
      rw [segments_comma hn, segments_comma hn]
      refine .mk .nil ?_
      generalize Rule.segments _ = ss at ih ⊢
      generalize Rule.segments _ = ss' at ih ⊢
      cases ih with
      | mk hone hrest => exact .cons (hone.mono (past_comma_within hn p)) hrest
    | false =>
      have hn' : ∀ m ∈ [n], m.isLeaf .punctuation "," = false := by simpa using hn
      exact ih.behind hn' hn' fun _ hs => .keep n hs
  | gap p hb hblank hgs hspares h ih =>
    refine ih.behind (ht.of_pause hblank.pause) (ht.of_pause hgs) fun {s s'} hprefix hs => ?_
    obtain ⟨tail, rfl⟩ := hprefix
    exact .gap hb hblank hgs (hspares.imp_right Spot.Spares.left) hs
  | soft p hn h ih =>
    have hn' := ht.of_not (hn.resembles.isFirm_eq.trans hn.soft)
    have hno {n : Node} (h : n.isLeaf .punctuation "," = false) :
        ∀ m ∈ [n], m.isLeaf .punctuation "," = false := by simpa using h
    exact ih.behind (hno (ht.of_not hn.soft)) (hno hn') fun _ hs => hn.cons hs

theorem segments (h : Commented Marked .front ns ns') :
    List.Forall₂ (Commented Marked .front) (Rule.segments ns) (Rule.segments ns') := by
  have hsegments := h.segmentsAlike
  generalize Rule.segments ns = ss at hsegments
  generalize Rule.segments ns' = ss' at hsegments
  cases hsegments with
  | mk hone hrest => exact .cons hone hrest

/-- **The parts between commas** are found again. -/
theorem parts (h : Commented Marked .front ns ns') :
    List.Forall₂ (Commented Marked .front) (Rule.parts ns) (Rule.parts ns') := by
  unfold Rule.parts
  have hsegments := h.segments
  generalize Rule.segments ns = ss at hsegments
  generalize Rule.segments ns' = ss' at hsegments
  induction hsegments with
  | nil => exact .nil
  | cons hfirst _ ih =>
    rw [List.map_cons, List.map_cons, List.filter_cons, List.filter_cons, hfirst.trim.isEmpty_eq]
    split
    · exact .cons hfirst.trim ih
    · exact ih

/-- Without blanks and comments. -/
theorem filter_trivia (h : Commented Marked p ns ns') :
    Commented Marked p (ns.filter (!·.isTrivia)) (ns'.filter (!·.isTrivia)) := by
  induction h using Commented.induct with
  | nil => exact .nil
  | keep p n h ih =>
    rw [List.filter_cons, List.filter_cons]
    split
    · exact .keep n ih
    · next hn => exact ih.mono (past_of_isTrivia_within (by simpa using hn) p)
  | gap p hb hblank hgs hspares h ih =>
    have hnil {gs : List Node} (hgs : Pause gs) : gs.filter (!·.isTrivia) = [] :=
      List.filter_eq_nil_iff.2 fun g hg => by simp [(hgs.trivia g hg).1]
    rw [List.filter_append, hnil hgs, ← List.singleton_append, List.filter_append,
      hnil hblank.pause]
    exact ih
  | soft p hn h ih =>
    rw [List.filter_cons_of_pos (by simp [hn.trivia]),
      List.filter_cons_of_pos (by simp [hn.resembles.isTrivia_eq, hn.trivia])]
    exact hn.cons ih

/-- Where something is commented, blanks or what may hold some stand on both sides. -/
theorem eq_or_exists_soft (h : Commented Marked p ns ns') :
    ns' = ns ∨ (∃ n ∈ ns, n.isFirm = false) ∧ ∃ n ∈ ns', n.isFirm = false := by
  induction h using Commented.induct with
  | nil => exact .inl rfl
  | keep p n h ih =>
    refine ih.imp (congrArg (n :: ·)) fun ⟨⟨m, hm, hsoft⟩, m', hm', hsoft'⟩ => ?_
    exact ⟨⟨m, List.mem_cons_of_mem _ hm, hsoft⟩, m', List.mem_cons_of_mem _ hm', hsoft'⟩
  | gap p hb hblank hgs hspares h ih =>
    obtain ⟨g, hg⟩ := List.exists_mem_of_ne_nil _ hgs.ne_nil
    exact .inr ⟨⟨_, List.mem_cons_self,
        isFirm_of_isTrivia (hblank.trivia _ (List.mem_singleton_self _)).1⟩,
      g, List.mem_append_left _ hg, isFirm_of_isTrivia (hgs.trivia g hg).1⟩
  | soft p hn h ih =>
    exact .inr ⟨⟨_, List.mem_cons_self, hn.soft⟩, _, List.mem_cons_self,
      hn.resembles.isFirm_eq ▸ hn.soft⟩

/-- Nodes without blanks and comments at which nothing is commented. -/
theorem eq_of_all_firm (h : Commented Marked p ns ns')
    (hfirm : (∀ n ∈ ns, n.isFirm = true) ∨ ∀ n ∈ ns', n.isFirm = true) : ns' = ns := by
  refine h.eq_or_exists_soft.resolve_right fun ⟨⟨n, hn, hsoft⟩, n', hn', hsoft'⟩ => ?_
  rcases hfirm with hfirm | hfirm
  · rw [hfirm n hn] at hsoft
    cases hsoft
  · rw [hfirm n' hn'] at hsoft'
    cases hsoft'

theorem exists_cons {n : Node} (h : Commented Marked p (n :: ns) ns') :
    ∃ n' ms, ns' = n' :: ms := by
  cases ns' with
  | nil => cases h.nil_right
  | cons n' ms => exact ⟨n', ms, rfl⟩

/-- Both of the first nodes pass a test for firm nodes, or none. -/
theorem test_first {n n' : Node} (h : Commented Marked p (n :: ns) (n' :: ns')) {t : Node → Bool}
    (ht : FirmTest t) : t n' = t n := by
  rw [Bool.eq_iff_iff]
  constructor
  · intro hn
    obtain ⟨ms, hms, -⟩ := h.of_cons' (ht n' hn)
    rwa [(List.cons.inj hms).1]
  · intro hn
    obtain ⟨ms, hms, -⟩ := h.of_cons (ht n hn)
    rwa [(List.cons.inj hms).1]

/-- Nodes that start with a variable, or do not, before comments and with them. -/
theorem variable_cases (h : Commented Marked p ns ns') :
    (∃ name s ms ms', ns = .leaf .variable name s :: ms ∧ ns' = .leaf .variable name s :: ms' ∧
      Commented Marked p.operand ms ms') ∨
    ((∀ n ∈ ns.head?, ∀ name s, n ≠ .leaf .variable name s) ∧
      ∀ n ∈ ns'.head?, ∀ name s, n ≠ .leaf .variable name s) := by
  -- a variable is firm, so it comes first on both sides or on none
  by_cases hv : ∃ name s, ns.head? = some (.leaf .variable name s)
  · obtain ⟨name, s, hv⟩ := hv
    obtain ⟨ms, rfl⟩ := List.head?_eq_some_iff.1 hv
    obtain ⟨ms', rfl, hrest⟩ := h.of_cons rfl
    exact .inl ⟨name, s, ms, ms', rfl, rfl, hrest⟩
  · refine .inr ⟨fun n hn name s hname => hv ⟨name, s, by rw [← hname]; exact hn⟩,
      fun n hn name s hname => ?_⟩
    subst hname
    obtain ⟨ms', rfl⟩ := List.head?_eq_some_iff.1 hn
    obtain ⟨ms, rfl, -⟩ := h.of_cons' rfl
    exact hv ⟨name, s, rfl⟩

/-- Behind a colon that follows an operand another operand is expected. -/
theorem of_colon {n : Node} (h : Commented Marked p.operand (n :: ns) ns')
    (hn : n.isLeaf .punctuation ":" = true) :
    ∃ ms, ns' = n :: ms ∧ Commented Marked .front ns ms := by
  obtain ⟨ms, rfl, hms⟩ := h.of_cons (firmTest_isLeaf rfl ":" n hn)
  refine ⟨ms, rfl, ?_⟩
  have hpast : p.operand.past n = .front := by
    cases n with
    | leaf k t s =>
      simp only [isLeaf, is, kind, text?, Bool.and_eq_true, beq_iff_eq, Option.some.injEq] at hn
      obtain ⟨rfl, rfl⟩ := hn
      cases p <;> rfl
    | _ => simp [isLeaf, text?] at hn
  rwa [hpast] at hms

end Commented
end Node
end Stylesheet
