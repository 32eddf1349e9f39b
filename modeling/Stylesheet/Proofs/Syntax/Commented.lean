import Stylesheet.Proofs.Export.Reread
import Stylesheet.Proofs.Expr.Commented
import Stylesheet.Rule.Headers

/-!
# Values with comments

Wherever a value has a blank, it may have blanks and comments. The items that are read are commented
nodes, as long as no such blank stands in a call that is left to the browser, and there is a blank
among the comments where a blank shows.

* `Node.PartsNothing`: no blank of a kind shows among the nodes that a node holds.
* `Lexeme.Commented`: lexemes with comments at marked blanks.
* `Parse.Items.commented`: the items of a value.
* `Parse.Property.commented`, `Parse.Selector.commented`: the left side of a declaration, and what
  stands before a block.
-/

namespace Stylesheet

namespace Node

open Stylesheet.Expr (Spot)

/-- The name of the function that a node calls. -/
def callee (n : Node) : String := (n.children.head?.map text).getD ""

/-- **No marked blank stands in a call that is left to the browser.** -/
def Sheltered (Marked : Node → Prop) (n : Node) : Prop :=
  n.is .function = true → isBrowserName n.callee = true → ∀ b ∈ n.nodes, ¬ Marked b

/-- Whatever stands at the spot, no blank of a kind shows among the nodes behind it. -/
def Spared (Bare : Node → Prop) : Spot → List Node → Prop
  | _, [] => True
  | p, n :: ns => (Bare n → p.Spares ns) ∧ Spared Bare (p.past n) ns

/-- The nodes that a node holds and that are read together: what is in brackets, the arguments of a
call, the value of a declaration and the parameters of a rule. -/
def readTogether (n : Node) : List Node :=
  match n.kind with
  | .value | .arguments | .parentheses | .interpolation => n.children
  | .atRule => Rule.parameters n.children
  | _ => []

/-- **No blank of a kind shows** among the nodes that a node holds: it parts no two operands and stands
beside no sign. -/
def PartsNothing (Bare : Node → Prop) (n : Node) : Prop := Spared Bare .front n.readTogether

theorem Spared.mono {Bare Bare' : Node → Prop} (hbare : ∀ n, Bare' n → Bare n) {p : Spot}
    {ns : List Node} (h : Spared Bare p ns) : Spared Bare' p ns := by
  induction ns generalizing p with
  | nil => trivial
  | cons n ns ih => exact ⟨fun hn => h.1 (hbare n hn), ih h.2⟩

theorem PartsNothing.mono {Bare Bare' : Node → Prop} (hbare : ∀ n, Bare' n → Bare n) {n : Node}
    (h : n.PartsNothing Bare) : n.PartsNothing Bare' := Spared.mono hbare h

/-- Where there is no such blank none shows. -/
theorem partsNothing_of_none {Bare : Node → Prop} (hbare : ∀ n, ¬ Bare n) (n : Node) :
    n.PartsNothing Bare := by
  have hspared (p : Spot) (ns : List Node) : Spared (fun _ => False) p ns := by
    induction ns generalizing p with
    | nil => trivial
    | cons n ns ih => exact ⟨fun h => h.elim, ih _⟩
  exact (hspared .front n.readTogether).mono hbare

/-- **A node takes comments** at marked blanks, and at bare ones without another blank. -/
structure Takes (Marked Bare : Node → Prop) (n : Node) : Prop where
  sheltered : Sheltered Marked n
  parts : PartsNothing Bare n

end Node

namespace Lexeme

open Parse

/-- Blanks and comments, at least one of them. -/
structure Pause (gs : List Lexeme) : Prop where
  ne_nil : gs ≠ []
  trivia : ∀ g ∈ gs, g.token.isTrivia = true

/-- **Lexemes with comments at marked blanks,** with a blank among them unless it is a bare one. -/
inductive Commented (Marked Bare : Node → Prop) : List Lexeme → List Lexeme → Prop
  | nil : Commented Marked Bare [] []
  | keep (l : Lexeme) {ls ls' : List Lexeme} :
      Commented Marked Bare ls ls' → Commented Marked Bare (l :: ls) (l :: ls')
  | gap {b : Lexeme} {gs ls ls' : List Lexeme} :
      b.token = .space → Marked b.trivia → Pause gs →
        (∃ g ∈ gs, g.token = .space) ∨ Bare b.trivia → Commented Marked Bare ls ls' →
          Commented Marked Bare (b :: ls) (gs ++ ls')

/-- Blanks and comments are leaves of their own kind. -/
theorem trivia_spec {g : Lexeme} (h : g.token.isTrivia = true) :
    (g.trivia.isTrivia = true ∧ ∃ k t s, g.trivia = .leaf k t s) ∧
      (g.token = .space → g.trivia.is .space = true) := by
  obtain ⟨t, text, span⟩ := g
  cases t with
  | space => exact ⟨⟨rfl, _, _, _, rfl⟩, fun _ => rfl⟩
  | lineComment | blockComment => exact ⟨⟨rfl, _, _, _, rfl⟩, fun h => by cases h⟩
  | _ => cases h

theorem map_trivia {gs : List Lexeme} (h : ∀ g ∈ gs, g.token.isTrivia = true) :
    ∀ g ∈ gs.map Lexeme.trivia, g.isTrivia = true ∧ ∃ k t s, g = .leaf k t s := by
  intro g hg
  obtain ⟨l, hl, rfl⟩ := List.mem_map.1 hg
  exact (trivia_spec (h l hl)).1

theorem Pause.nodes {gs : List Lexeme} (h : Pause gs) : Node.Pause (gs.map Lexeme.trivia) :=
  ⟨by simpa using h.ne_nil, map_trivia h.trivia⟩

theorem exists_space {gs : List Lexeme} (h : ∃ g ∈ gs, g.token = .space) :
    ∃ g ∈ gs.map Lexeme.trivia, g.is .space = true := by
  obtain ⟨l, hl, ht⟩ := h
  exact ⟨l.trivia, List.mem_map_of_mem hl, (trivia_spec (by rw [ht]; rfl)).2 ht⟩

namespace Commented

variable {Marked Bare : Node → Prop} {ls ls' : List Lexeme}

theorem refl (ls : List Lexeme) : Commented Marked Bare ls ls := by
  induction ls with
  | nil => exact .nil
  | cons l ls ih => exact .keep l ih

theorem append {ms ms' : List Lexeme} (h : Commented Marked Bare ls ls')
    (hm : Commented Marked Bare ms ms') : Commented Marked Bare (ls ++ ms) (ls' ++ ms') := by
  induction h with
  | nil => exact hm
  | keep l _ ih => exact .keep l ih
  | gap hb hmark hgs hspace _ ih =>
    rw [List.cons_append, List.append_assoc]
    exact .gap hb hmark hgs hspace ih

theorem nil_left (h : Commented Marked Bare [] ls') : ls' = [] := by
  cases h
  rfl

/-- Blanks and comments stay such. -/
theorem trivia (h : Commented Marked Bare ls ls') (hls : ∀ l ∈ ls, l.token.isTrivia = true) :
    ∀ l ∈ ls', l.token.isTrivia = true := by
  induction h with
  | nil => exact hls
  | keep l _ ih =>
    exact List.forall_mem_cons.2
      ⟨hls l List.mem_cons_self, ih fun m hm => hls m (List.mem_cons_of_mem _ hm)⟩
  | gap _ _ hgs _ _ ih =>
    exact List.forall_mem_append.2
      ⟨hgs.trivia, ih fun m hm => hls m (List.mem_cons_of_mem _ hm)⟩

/-- Lexemes are cut where they were cut before. -/
theorem of_append {ms : List Lexeme} (h : Commented Marked Bare (ls ++ ms) ls') :
    ∃ ls₁ ls₂, ls' = ls₁ ++ ls₂ ∧ Commented Marked Bare ls ls₁ ∧ Commented Marked Bare ms ls₂ := by
  induction ls generalizing ls' with
  | nil => exact ⟨[], ls', rfl, .nil, h⟩
  | cons l ls ih =>
    cases h with
    | keep _ h =>
      obtain ⟨ls₁, ls₂, rfl, h₁, h₂⟩ := ih h
      exact ⟨l :: ls₁, ls₂, rfl, .keep l h₁, h₂⟩
    | @gap _ gs _ _ hb hmark hgs hspace h =>
      obtain ⟨ls₁, ls₂, rfl, h₁, h₂⟩ := ih h
      exact ⟨gs ++ ls₁, ls₂, (List.append_assoc ..).symm, .gap hb hmark hgs hspace h₁, h₂⟩

/-- A lexeme that is no blank stays. -/
theorem of_cons {l : Lexeme} (h : Commented Marked Bare (l :: ls) ls') (hl : l.token ≠ .space) :
    ∃ ms, ls' = l :: ms ∧ Commented Marked Bare ls ms := by
  cases h with
  | keep _ h => exact ⟨_, rfl, h⟩
  | gap hb => exact absurd hb hl

/-- Nothing is commented where no blank is marked. -/
theorem eq_of_unmarked (h : Commented Marked Bare ls ls')
    (hm : ∀ b ∈ ls, b.token = .space → ¬ Marked b.trivia) : ls' = ls := by
  induction h with
  | nil => rfl
  | keep l _ ih => rw [ih fun b hb => hm b (List.mem_cons_of_mem _ hb)]
  | gap hb hmark => exact absurd hmark (hm _ List.mem_cons_self hb)

/-- What comes first is a blank or comment, or was first before. -/
theorem first_eq (h : Commented Marked Bare ls ls') :
    Lexeme.first ls' = Lexeme.first ls ∨
      Lexeme.first ls = some .space ∧ ∃ t ∈ Lexeme.first ls', t.isTrivia = true := by
  cases h with
  | nil => exact .inl rfl
  | keep l _ => exact .inl rfl
  | @gap b gs ls ls' hb _ hgs _ _ =>
    obtain ⟨g, gs', rfl⟩ := List.exists_cons_of_ne_nil hgs.ne_nil
    exact .inr ⟨congrArg some hb, g.token, rfl, hgs.trivia g List.mem_cons_self⟩

/-- What comes first was first before, unless it is a blank or a comment. -/
theorem first_of {t : Token} (h : Commented Marked Bare ls ls') (hf : Lexeme.first ls' = some t)
    (ht : t.isTrivia = false) : Lexeme.first ls = some t := by
  rcases h.first_eq with heq | ⟨-, u, hu, htrivia⟩
  · rw [← heq, hf]
  · rw [hf] at hu
    obtain rfl : t = u := Option.some.inj hu
    rw [ht] at htrivia
    cases htrivia

/-- A first lexeme that is no blank stays. -/
theorem first_ne {t : Token} (h : Commented Marked Bare ls ls') (hf : Lexeme.first ls = some t)
    (ht : t ≠ .space) : Lexeme.first ls' = some t := by
  rcases h.first_eq with heq | ⟨hspace, -⟩
  · rw [heq, hf]
  · rw [hf] at hspace
    exact absurd (Option.some.inj hspace) ht

end Commented
end Lexeme

namespace Parse

open Lexeme Node
open Stylesheet.Expr (Spot)

variable {Marked Bare : Node → Prop}

/-! ### Values -/

theorem Stop.isAt_trivia (stop : Stop) {g : Lexeme} (h : g.token.isTrivia = true) :
    stop.isAt g.token = false := by
  cases ht : g.token <;> simp_all [Token.isTrivia] <;> cases stop <;> rfl

theorem item?_trivia {g : Lexeme} (h : g.token.isTrivia = true) : g.item? = some g.trivia := by
  cases ht : g.token <;> simp_all [Token.isTrivia, Lexeme.item?]

/-- Blanks and comments are items anywhere. -/
theorem Items.behind_trivia {stop : Stop} {gs ls : List Lexeme} {ns : List Node}
    (hgs : ∀ g ∈ gs, g.token.isTrivia = true) (h : Items stop ls ns) :
    Items stop (gs ++ ls) (gs.map Lexeme.trivia ++ ns) := by
  induction gs with
  | nil => exact h
  | cons g gs ih =>
    have hg := hgs g List.mem_cons_self
    refine .leaf (stop.isAt_trivia hg) (item?_trivia hg) (fun ht => ?_)
      (ih fun g hg => hgs g (List.mem_cons_of_mem _ hg))
    rw [ht] at hg
    cases hg

/-- Blanks and comments may stand behind any items. -/
theorem Items.before_trivia {stop : Stop} {ls gs : List Lexeme} {ns : List Node}
    (h : Items stop ls ns) (hgs : ∀ g ∈ gs, g.token.isTrivia = true) :
    Items stop (ls ++ gs) (ns ++ gs.map Lexeme.trivia) := by
  have hitems : Items stop gs (gs.map Lexeme.trivia) := by
    simpa using (Items.nil : Items stop [] []).behind_trivia hgs
  refine h.append hitems ?_
  cases gs with
  | nil => simp
  | cons g gs =>
    intro hfirst
    have hg := hgs g List.mem_cons_self
    rw [Option.some.inj hfirst] at hg
    cases hg

/-- Items that are blanks were read from blanks. -/
theorem Items.of_spaces {stop : Stop} {ls : List Lexeme} {ns : List Node} (h : Items stop ls ns)
    (hns : ∀ n ∈ ns, n.is .space = true) :
    (∀ l ∈ ls, l.token = .space) ∧ ns = ls.map Lexeme.trivia := by
  induction h with
  | nil => exact ⟨by simp, rfl⟩
  | @leaf stop l n ls ns _ hn _ _ ih =>
    obtain ⟨hls, rfl⟩ := ih fun m hm => hns m (List.mem_cons_of_mem _ hm)
    have hspace := hns n List.mem_cons_self
    have hl : l.token = .space := by
      obtain ⟨t, text, span⟩ := l
      cases t <;> simp only [item?, trivia, reduceCtorEq, Option.some.injEq] at hn <;> subst hn <;>
        first | rfl | cases hspace
    rw [item?_trivia (by rw [hl]; rfl)] at hn
    obtain rfl := Option.some.inj hn
    exact ⟨List.forall_mem_cons.2 ⟨hl, hls⟩, rfl⟩
  | @bracket stop o ms ls inside ns close _ _ _ _ _ _ =>
    have hspace := hns _ List.mem_cons_self
    cases o <;> cases hspace

theorem Opening.marks_ne_space {o : Opening} (h : o.Fits) : ∀ l ∈ o.marks, l.token ≠ .space := by
  cases o <;> simp_all [Opening.marks, Opening.Fits]

theorem Opening.closer_ne_space (o : Opening) : o.closer.1 ≠ .space := by
  cases o <;> simp [Opening.closer]

/-- The nodes inside a bracket are below it. -/
theorem Opening.inside_mem (o : Opening) {inside : List Node} {close : Lexeme} {n : Node}
    (h : n ∈ nodesAll inside) : n ∈ (o.node inside close).nodes := by
  cases o <;> simp [Opening.node, nodes, nodesAll, h]

/-- A blank among the lexemes of a value is a node of it. -/
theorem Items.trivia_mem {stop : Stop} {ls : List Lexeme} {ns : List Node} (h : Items stop ls ns)
    {b : Lexeme} (hb : b ∈ ls) (hspace : b.token = .space) : b.trivia ∈ nodesAll ns := by
  induction h with
  | nil => cases hb
  | @leaf stop l n ls ns _ hn _ _ ih =>
    rcases List.mem_cons.1 hb with rfl | hb
    · rw [item?_trivia (by rw [hspace]; rfl)] at hn
      obtain rfl := Option.some.inj hn
      exact List.mem_append_left _ (self_mem_nodes _)
    · exact List.mem_append_right _ (ih hb)
  | @bracket stop o ms ls inside ns close hfit _ hclose _ ih₁ ih₂ =>
    rcases List.mem_append.1 hb with hb | hb
    · exact absurd hspace (o.marks_ne_space hfit b hb)
    · rcases List.mem_append.1 hb with hb | hb
      · exact List.mem_append_left _ (o.inside_mem (ih₁ hb))
      · rcases List.mem_cons.1 hb with rfl | hb
        · rw [hclose] at hspace
          exact absurd hspace o.closer_ne_space
        · exact List.mem_append_right _ (ih₂ hb)

/-- The lexemes of a bracket. -/
theorem of_bracket {o : Opening} (hfit : o.Fits) {ms ls ls' : List Lexeme} {close : Lexeme}
    (hclose : close.token = o.closer.1)
    (h : Commented Marked Bare (o.marks ++ (ms ++ close :: ls)) ls') :
    ∃ ms' rest, ls' = o.marks ++ (ms' ++ close :: rest) ∧ Commented Marked Bare ms ms' ∧
      Commented Marked Bare ls rest := by
  obtain ⟨marks, ls₁, rfl, hmarks, h⟩ := h.of_append
  obtain ⟨ms', ls₂, rfl, hms, h⟩ := h.of_append
  obtain ⟨rest, rfl, hls⟩ := h.of_cons (by rw [hclose]; exact o.closer_ne_space)
  obtain rfl := hmarks.eq_of_unmarked fun b hb ht => absurd ht (o.marks_ne_space hfit b hb)
  exact ⟨ms', rest, rfl, hms, hls⟩

/-- What is read together in a bracket. -/
theorem Opening.spared {o : Opening} {inside : List Node} {close : Lexeme}
    (h : ∀ m ∈ (o.node inside close).nodes, m.PartsNothing Bare) : Spared Bare .front inside := by
  cases o with
  | parentheses mark | interpolation mark => exact h _ (self_mem_nodes _)
  | call name mark =>
    exact h (.sequence .arguments inside (some ⟨mark.span.start, close.span.stop⟩))
      (by simp [Opening.node, nodes, nodesAll])

/-- **The items of a value** with comments at marked blanks. -/
theorem Items.commented {p : Spot} {stop : Stop} {ls ls' : List Lexeme} {ns : List Node}
    (h : Items stop ls ns) (hc : Commented Marked Bare ls ls')
    (hs : ∀ n ∈ nodesAll ns, n.Takes Marked Bare) (hp : Spared Bare p ns) :
    ∃ ns', Items stop ls' ns' ∧ Node.Commented Marked p ns ns' := by
  induction h generalizing p ls' with
  | nil =>
    rw [hc.nil_left]
    exact ⟨[], .nil, .nil⟩
  | @leaf stop l n ls ns hat hn hfirst h ih =>
    have hrest : ∀ m ∈ nodesAll ns, m.Takes Marked Bare :=
      fun m hm => hs m (List.mem_append_right _ hm)
    obtain ⟨hbare, hp⟩ := hp
    cases hc with
    | keep _ hc =>
      obtain ⟨ns', hns, hcns⟩ := ih hc hrest hp
      exact ⟨n :: ns', .leaf hat hn (fun ht hf => hfirst ht (hc.first_of hf rfl)) hns,
        .keep n hcns⟩
    | @gap _ gs _ _ hb hmark hgs hspace hc =>
      have hb' : l.token.isTrivia = true := by rw [hb]; rfl
      obtain rfl : n = l.trivia := Option.some.inj (hn.symm.trans (item?_trivia hb'))
      rw [p.past_of_isTrivia (trivia_spec hb').1] at hp
      obtain ⟨ns', hns, hcns⟩ := ih hc hrest hp
      have hblank : Gap [l.trivia] :=
        ⟨by simpa using (trivia_spec hb').1, by simpa using (trivia_spec hb').2 hb⟩
      exact ⟨_, hns.behind_trivia hgs.trivia,
        .gap hmark hblank hgs.nodes (hspace.imp exists_space hbare) hcns⟩
  | @bracket stop o ms ls inside ns close hfit hin hclose h ih₁ ih₂ =>
    obtain ⟨ms', rest, rfl, hms, hrest⟩ := of_bracket hfit hclose hc
    obtain ⟨ns', hns, hcns⟩ := ih₂ hrest (fun m hm => hs m (List.mem_append_right _ hm)) hp.2
    have hbelow {m : Node} (hm : m ∈ (o.node inside close).nodes) : m.Takes Marked Bare :=
      hs m (List.mem_append_left _ hm)
    obtain ⟨inside', hin', hcin⟩ := ih₁ hms (fun m hm => hbelow (o.inside_mem hm))
      (Opening.spared fun m hm => (hbelow hm).parts)
    -- a bracket in which nothing is commented stays as it is
    have hkeep : ms' = ms → ∃ ns', Items stop (o.marks ++ (ms' ++ close :: rest)) ns' ∧
        Node.Commented Marked p (o.node inside close :: ns) ns' := by
      rintro rfl
      exact ⟨_, .bracket hfit hin hclose hns, .keep _ hcns⟩
    cases o with
    | parentheses mark =>
      exact ⟨_, .bracket hfit hin' hclose hns,
        .bracket (.inl rfl) hcin (p.past_bracket (.inl rfl) .. ▸ hcns)⟩
    | interpolation mark =>
      exact ⟨_, .bracket hfit hin' hclose hns,
        .bracket (.inr rfl) hcin (p.past_bracket (.inr rfl) .. ▸ hcns)⟩
    | call name mark =>
      cases hname : isBrowserName name.text with
      | false =>
        exact ⟨_, .bracket hfit hin' hclose hns,
          .call hname hcin (p.past_function .. ▸ hcns)⟩
      | true =>
        -- the text of such a call goes to the browser, so nothing is commented in it
        refine hkeep (hms.eq_of_unmarked fun b hb hspace => ?_)
        exact (hbelow (self_mem_nodes _)).sheltered rfl hname _
          (Opening.inside_mem _ (hin.trivia_mem hb hspace))

/-! ### The left side of a declaration -/

theorem PropertyParts.commented {ls ls' : List Lexeme} {ns : List Node} (h : PropertyParts ls ns)
    (hc : Commented Marked Bare ls ls') (hs : ∀ n ∈ nodesAll ns, n.Takes Marked Bare) :
    ∃ ns', PropertyParts ls' ns' ∧ (ns ≠ [] → ns' ≠ []) := by
  induction h generalizing ls' with
  | nil =>
    rw [hc.nil_left]
    exact ⟨[], .nil, fun h => h⟩
  | @word l ls ns ht _ ih =>
    obtain ⟨ms, rfl, hms⟩ := hc.of_cons (by rcases ht with ht | ht <;> simp [ht])
    obtain ⟨ns', hns, -⟩ := ih hms fun m hm => hs m (List.mem_append_right _ hm)
    exact ⟨_, .word ht hns, fun _ => List.cons_ne_nil _ _⟩
  | @interpolation mark close ms ls inside ns hmark hin hclose _ ih =>
    obtain ⟨ms', rest, rfl, hms, hrest⟩ :=
      of_bracket (o := .interpolation mark) hmark hclose hc
    obtain ⟨ns', hns, -⟩ := ih hrest fun m hm => hs m (List.mem_append_right _ hm)
    have hbelow {m : Node} (hm : m ∈ ((Opening.interpolation mark).node inside close).nodes) :
        m.Takes Marked Bare := hs m (List.mem_append_left _ hm)
    obtain ⟨inside', hin', -⟩ := hin.commented hms
      (fun m hm => hbelow ((Opening.interpolation mark).inside_mem hm))
      (Opening.spared fun m hm => (hbelow hm).parts)
    exact ⟨_, .interpolation hmark hin' hclose hns, fun _ => List.cons_ne_nil _ _⟩

/-- **The left side of a declaration** names the same variable, or none. -/
theorem Property.commented {ls ls' : List Lexeme} {n : Node} (h : Property ls n)
    (hc : Commented Marked Bare ls ls') (hs : ∀ m ∈ n.nodes, m.Takes Marked Bare) :
    ∃ n', Property ls' n' ∧ n'.firstChild? .variable = n.firstChild? .variable := by
  cases h with
  | @ofVariable l ht =>
    obtain ⟨ms, rfl, hms⟩ := hc.of_cons (by simp [ht])
    rw [hms.nil_left]
    exact ⟨_, .ofVariable ht, rfl⟩
  | @ofParts ls ns hp hne =>
    obtain ⟨ns', hns, hne'⟩ := hp.commented hc fun m hm => hs m (List.mem_cons_of_mem _ hm)
    -- a name with parts is no variable, with comments or without
    have hnone {ls : List Lexeme} {ns : List Node} (h : PropertyParts ls ns) :
        ns.find? (·.is .variable) = none :=
      List.find?_eq_none.2 fun n hn => by simp [h.kinds n hn]
    exact ⟨_, .ofParts hns (hne' hne), (hnone hns).trans (hnone hp).symm⟩

/-! ### What stands before a block -/

theorem Selector.behind_trivia {d : Nat} {gs ls : List Lexeme}
    (hgs : ∀ g ∈ gs, g.token.isTrivia = true) (h : Selector d ls) : Selector d (gs ++ ls) := by
  induction gs with
  | nil => exact h
  | cons g gs ih =>
    have hg := hgs g List.mem_cons_self
    refine .other ?_ ?_ ?_ ?_ (ih fun g hg => hgs g (List.mem_cons_of_mem _ hg)) <;>
      · intro ht
        rw [ht] at hg
        cases hg

theorem Selector.commented {d : Nat} {ls ls' : List Lexeme} (h : Selector d ls)
    (hc : Commented Marked Bare ls ls') : Selector d ls' := by
  induction h generalizing ls' with
  | nil =>
    rw [hc.nil_left]
    exact .nil
  | opens ht _ ih =>
    obtain ⟨ms, rfl, hms⟩ := hc.of_cons (by simp [ht])
    exact .opens ht (ih hms)
  | closes ht _ ih =>
    obtain ⟨ms, rfl, hms⟩ := hc.of_cons (by simp [ht])
    exact .closes ht (ih hms)
  | other h₁ h₂ h₃ h₄ _ ih =>
    cases hc with
    | keep _ hc => exact .other h₁ h₂ h₃ h₄ (ih hc)
    | gap _ _ hgs _ hc => exact (ih hc).behind_trivia hgs.trivia

end Parse
end Stylesheet
