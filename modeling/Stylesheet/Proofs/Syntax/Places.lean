import Stylesheet.Proofs.Syntax.Lexing
import Stylesheet.Proofs.Syntax.Statements

/-!
# Places do not matter

Lexemes with the same tokens and texts read as the same nodes, up to the places of the nodes.

* `Items.move`, `Pieces.Fits.move`, `Statements.move`: a derivation moves to lexemes elsewhere.
-/

namespace Stylesheet

open Lexeme Node

namespace Lexeme

theorem word_eq_iff {l m : Lexeme} : l.word = m.word ↔ l.token = m.token ∧ l.text = m.text := by
  simp [word, String.toList_inj]

theorem bare_leaf {l m : Lexeme} (h : l.word = m.word) (k : Kind) :
    (l.leaf k).bare = (m.leaf k).bare := by
  simp [leaf, bare, (word_eq_iff.1 h).2]

theorem bare_inner {l m : Lexeme} (h : l.word = m.word) (k : Kind) (front back : Nat) :
    (l.inner k front back).bare = (m.inner k front back).bare := by
  simp [inner, bare, (word_eq_iff.1 h).2]

theorem bare_trivia {l m : Lexeme} (h : l.word = m.word) : l.trivia.bare = m.trivia.bare := by
  unfold trivia
  rw [(word_eq_iff.1 h).1]
  split
  · exact bare_inner h _ _ _
  · exact bare_inner h _ _ _
  · exact bare_leaf h _

theorem item?_move {l m : Lexeme} (h : l.word = m.word) {n : Node} (hn : l.item? = some n) :
    ∃ n', m.item? = some n' ∧ n'.bare = n.bare := by
  have ht := (word_eq_iff.1 h).1
  unfold item? at hn ⊢
  rw [← ht]
  split at hn <;> cases hn
  · exact ⟨_, rfl, (bare_trivia h).symm⟩
  · exact ⟨_, rfl, (bare_trivia h).symm⟩
  · exact ⟨_, rfl, (bare_trivia h).symm⟩
  all_goals first
    | exact ⟨_, rfl, (bare_inner h _ _ _).symm⟩
    | exact ⟨_, rfl, (bare_leaf h _).symm⟩

theorem first_eq_of_words {ls ms : List Lexeme} (h : ls.map word = ms.map word) :
    first ls = first ms := by
  cases ls with
  | nil =>
    obtain rfl := List.map_eq_nil_iff.1 h.symm
    rfl
  | cons l ls =>
    obtain ⟨m, ms', rfl, hm, -⟩ := List.map_eq_cons_iff.1 h.symm
    simp [(word_eq_iff.1 hm).1]

end Lexeme

namespace Parse

/-- The bracket at other lexemes. -/
theorem Opening.move {o : Opening} (hfit : o.Fits) {marks : List Lexeme}
    (h : o.marks.map word = marks.map word) :
    ∃ o' : Opening, o'.marks = marks ∧ o'.Fits ∧ o'.stop = o.stop ∧ o'.closer = o.closer ∧
      ∀ inside inside' close close', bareAll inside' = bareAll inside →
        (o'.node inside' close').bare = (o.node inside close).bare := by
  cases o with
  | parentheses m =>
    obtain ⟨m', ms', rfl, hm, hms⟩ := List.map_eq_cons_iff.1 h.symm
    obtain rfl := List.map_eq_nil_iff.1 hms
    refine ⟨.parentheses m', rfl, (word_eq_iff.1 hm).1.trans hfit, rfl, rfl, ?_⟩
    intro inside inside' close close' hin
    simp [node, bare, hin]
  | interpolation m =>
    obtain ⟨m', ms', rfl, hm, hms⟩ := List.map_eq_cons_iff.1 h.symm
    obtain rfl := List.map_eq_nil_iff.1 hms
    refine ⟨.interpolation m', rfl, (word_eq_iff.1 hm).1.trans hfit, rfl, rfl, ?_⟩
    intro inside inside' close close' hin
    simp [node, bare, hin]
  | call n m =>
    obtain ⟨n', ms', rfl, hn, hms⟩ := List.map_eq_cons_iff.1 h.symm
    obtain ⟨m', ms', rfl, hm, hms⟩ := List.map_eq_cons_iff.1 hms
    obtain rfl := List.map_eq_nil_iff.1 hms
    refine ⟨.call n' m', rfl, ⟨(word_eq_iff.1 hn).1.trans hfit.1, (word_eq_iff.1 hm).1.trans hfit.2⟩,
      rfl, rfl, ?_⟩
    intro inside inside' close close' hin
    simp [node, bare, bareAll, hin, bare_leaf hn]

theorem Items.move {stop : Stop} {ls : List Lexeme} {ns : List Node} (h : Items stop ls ns)
    {ms : List Lexeme} (hw : ls.map word = ms.map word) :
    ∃ ns', Items stop ms ns' ∧ bareAll ns' = bareAll ns := by
  induction h generalizing ms with
  | nil =>
    obtain rfl := List.map_eq_nil_iff.1 hw.symm
    exact ⟨[], .nil, rfl⟩
  | @leaf stop l n ls ns hs hn hp _ ih =>
    obtain ⟨m, ms, rfl, hm, hms⟩ := List.map_eq_cons_iff.1 hw.symm
    obtain ⟨n', hn', hbare⟩ := item?_move hm.symm hn
    obtain ⟨ns', hns', hbares⟩ := ih hms.symm
    have ht := (word_eq_iff.1 hm).1
    refine ⟨n' :: ns', .leaf (by rw [ht]; exact hs) hn' ?_ hns', by simp [bareAll, hbare, hbares]⟩
    rw [ht, first_eq_of_words hms]
    exact hp
  | @bracket stop o qs ls inside ns close hfit _ hclose _ ih₁ ih₂ =>
    rw [List.map_append, List.map_append, List.map_cons] at hw
    obtain ⟨marks, ms, rfl, hmarks, hms⟩ := List.map_eq_append_iff.1 hw.symm
    obtain ⟨qs', ms, rfl, hqs, hms⟩ := List.map_eq_append_iff.1 hms
    obtain ⟨close', ms, rfl, hcl, hms⟩ := List.map_eq_cons_iff.1 hms
    obtain ⟨o', rfl, hfit', hstop, hcloser, hnode⟩ := Opening.move hfit hmarks.symm
    obtain ⟨inside', hin', hbare₁⟩ := ih₁ hqs.symm
    obtain ⟨ns', hns', hbare₂⟩ := ih₂ hms.symm
    refine ⟨o'.node inside' close' :: ns', .bracket hfit' (hstop ▸ hin') ?_ hns', ?_⟩
    · rw [hcloser, ← hclose]; exact (word_eq_iff.1 hcl).1
    · simp [bareAll, hnode _ _ close close' hbare₁, hbare₂]

theorem PropertyParts.move {ls : List Lexeme} {ns : List Node} (h : PropertyParts ls ns)
    {ms : List Lexeme} (hw : ls.map Lexeme.word = ms.map Lexeme.word) :
    ∃ ns', PropertyParts ms ns' ∧ bareAll ns' = bareAll ns := by
  induction h generalizing ms with
  | nil =>
    obtain rfl := List.map_eq_nil_iff.1 hw.symm
    exact ⟨[], .nil, rfl⟩
  | @word l ls ns ht _ ih =>
    obtain ⟨m, ms, rfl, hm, hms⟩ := List.map_eq_cons_iff.1 hw.symm
    obtain ⟨ns', hns', hbares⟩ := ih hms.symm
    refine ⟨_, .word (by rw [(word_eq_iff.1 hm).1]; exact ht) hns', ?_⟩
    simp [bareAll, bare_leaf hm, hbares]
  | @interpolation mark close qs ls inside ns hmark hi hclose _ ih =>
    rw [List.map_cons, List.map_append, List.map_cons] at hw
    obtain ⟨mark', ms, rfl, hm, hms⟩ := List.map_eq_cons_iff.1 hw.symm
    obtain ⟨qs', ms, rfl, hqs, hms⟩ := List.map_eq_append_iff.1 hms
    obtain ⟨close', ms, rfl, hcl, hms⟩ := List.map_eq_cons_iff.1 hms
    obtain ⟨inside', hin', hbare₁⟩ := hi.move hqs.symm
    obtain ⟨ns', hns', hbare₂⟩ := ih hms.symm
    refine ⟨_, .interpolation ((word_eq_iff.1 hm).1.trans hmark) hin'
      ((word_eq_iff.1 hcl).1.trans hclose) hns', ?_⟩
    simp [bareAll, Opening.node, bare, hbare₁, hbare₂]

theorem Property.move {ls : List Lexeme} {n : Node} (h : Property ls n) {ms : List Lexeme}
    (hw : ls.map word = ms.map word) : ∃ n', Property ms n' ∧ n'.bare = n.bare := by
  cases h with
  | ofVariable ht =>
    obtain ⟨m, ms, rfl, hm, hms⟩ := List.map_eq_cons_iff.1 hw.symm
    obtain rfl := List.map_eq_nil_iff.1 hms
    refine ⟨_, .ofVariable ((word_eq_iff.1 hm).1.trans ht), ?_⟩
    simp [bare, bare_inner hm]
  | ofParts hp hne =>
    obtain ⟨ns', hns', hbare⟩ := hp.move hw
    refine ⟨_, .ofParts hns' ?_, by simp [bare, hbare]⟩
    rintro rfl
    rw [bareAll_eq_map, bareAll_eq_map] at hbare
    exact hne (List.map_eq_nil_iff.1 hbare.symm)

theorem bareAll_map {f g : Lexeme → Node} (hfg : ∀ l m : Lexeme, l.word = m.word → (f l).bare = (g m).bare)
    {ls ms : List Lexeme} (hw : ls.map word = ms.map word) :
    bareAll (ls.map f) = bareAll (ms.map g) := by
  induction ls generalizing ms with
  | nil =>
    obtain rfl := List.map_eq_nil_iff.1 hw.symm
    rfl
  | cons l ls ih =>
    obtain ⟨m, ms, rfl, hm, hms⟩ := List.map_eq_cons_iff.1 hw.symm
    simp [bareAll, hfg l m hm.symm, ih hms.symm]

theorem bareAll_append (ms ns : List Node) : bareAll (ms ++ ns) = bareAll ms ++ bareAll ns := by
  simp [bareAll_eq_map]

/-- The blanks at the end of a value are told by the kinds of the nodes. -/
theorem Pieces.bareAll_value {p q : Pieces} (h : bareAll p.found = bareAll q.found) :
    bareAll p.value = bareAll q.value ∧ bareAll p.trailing = bareAll q.trailing := by
  have his : (fun n : Node => n.is .space) ∘ bare = fun n => n.is .space := by
    funext n
    simp [Node.is]
  have hkey (ns : List Node) :
      bareAll ((ns.reverse.dropWhile (·.is .space)).reverse) =
          (((bareAll ns).reverse.dropWhile (·.is .space)).reverse) ∧
        bareAll ((ns.reverse.takeWhile (·.is .space)).reverse) =
          (((bareAll ns).reverse.takeWhile (·.is .space)).reverse) := by
    simp only [bareAll_eq_map, ← List.map_reverse, List.dropWhile_map,
      List.takeWhile_map, his, and_self]
  simp only [Pieces.value, Pieces.trailing, hkey, h, and_self]

theorem Pieces.bare_node {p q : Pieces} (hproperty : p.property.bare = q.property.bare)
    (hblanks : p.blanks.map word = q.blanks.map word) (hcolon : p.colon.word = q.colon.word)
    (hblank : p.blank.map word = q.blank.map word) (hfound : bareAll p.found = bareAll q.found)
    (hflags : p.flags.map word = q.flags.map word)
    (hsemi : p.semicolon.map word = q.semicolon.map word) : p.node.bare = q.node.bare := by
  have hflag (l m : Lexeme) (h : l.word = m.word) : (flagOrBlank l).bare = (flagOrBlank m).bare := by
    unfold flagOrBlank
    rw [(word_eq_iff.1 h).1]
    split
    · exact bare_inner h _ _ _
    · exact bare_trivia h
  have htrivia (l m : Lexeme) (h : l.word = m.word) : l.trivia.bare = m.trivia.bare := bare_trivia h
  obtain ⟨hvalue, htrailing⟩ := Pieces.bareAll_value hfound
  have hparts : bareAll p.parts = bareAll q.parts := by
    simp only [Pieces.parts, bareAll_append, bareAll, bare, hproperty, bareAll_map htrivia hblanks,
      bareAll_map htrivia hblank, bareAll_map hflag hflags, bare_leaf hcolon, hvalue, htrailing]
  unfold Pieces.node
  cases hp : p.semicolon with
  | none =>
    have hq : q.semicolon = none := by simpa [hp] using hsemi.symm
    simp [hq, bare, hparts]
  | some l =>
    obtain ⟨m, hq, hm⟩ := Option.map_eq_some_iff.1 (hsemi.symm.trans (by rw [hp]; rfl))
    simp [hq, bare, bareAll_append, bareAll, hparts, bare_leaf hm]

theorem Pieces.Fits.move {p : Pieces} {name items : List Lexeme} (h : p.Fits name items)
    {ms : List Lexeme} (hw : (p.lexemes name items).map word = ms.map word) :
    ∃ (q : Pieces) (name' items' : List Lexeme), q.Fits name' items' ∧
      q.lexemes name' items' = ms ∧ q.node.bare = p.node.bare ∧
      (q.semicolon = none → p.semicolon = none) := by
  -- the other lexemes are cut into the same pieces
  simp only [Pieces.lexemes, Front.lexemes, List.map_append, List.map_cons, List.append_assoc,
    List.cons_append] at hw
  obtain ⟨name', ms, rfl, hname, hms⟩ := List.map_eq_append_iff.1 hw.symm
  obtain ⟨blanks, ms, rfl, hblanks, hms⟩ := List.map_eq_append_iff.1 hms
  obtain ⟨colon, ms, rfl, hcolon, hms⟩ := List.map_eq_cons_iff.1 hms
  obtain ⟨blank, ms, rfl, hblank, hms⟩ := List.map_eq_append_iff.1 hms
  obtain ⟨items', ms, rfl, hitems, hms⟩ := List.map_eq_append_iff.1 hms
  obtain ⟨flags, semi, rfl, hflags, hsemi⟩ := List.map_eq_append_iff.1 hms
  obtain ⟨semicolon, rfl⟩ : ∃ o : Option Lexeme, semi = o.toList := by
    cases hs : p.semicolon with
    | none => exact ⟨none, by simpa [hs] using hsemi⟩
    | some l =>
      rw [hs] at hsemi
      obtain ⟨m, ms, rfl, -, hms⟩ := List.map_eq_cons_iff.1 hsemi
      exact ⟨some m, by simpa using hms⟩
  have hsemi : semicolon.map word = p.semicolon.map word := by
    cases semicolon <;> cases hs : p.semicolon <;> simp_all
  obtain ⟨property, hproperty, hbare⟩ := h.property.move hname.symm
  obtain ⟨found, hfound, hbares⟩ := h.items.move hitems.symm
  have htokens {ls ms : List Lexeme} (hw : ms.map word = ls.map word) {P : Token → Prop}
      (hall : ∀ l ∈ ls, P l.token) : ∀ m ∈ ms, P m.token := by
    intro m hm
    obtain ⟨l, hl, hlm⟩ := List.mem_map.1 (hw ▸ List.mem_map_of_mem hm : m.word ∈ ls.map word)
    rw [← (word_eq_iff.1 hlm).1]
    exact hall l hl
  let q : Pieces := ⟨⟨(name'.head?.map (·.span.start)).getD 0, property, blanks, colon, blank⟩,
    found, flags, semicolon⟩
  have hnode : q.node.bare = p.node.bare :=
    Pieces.bare_node hbare hblanks hcolon hblank hbares hflags hsemi
  refine ⟨q, name', items', ⟨⟨?_, hproperty,
    htokens hblanks (P := fun t => t = .space) h.blanks, ?_, ?_⟩, hfound, ?_,
    htokens hflags (P := fun t => t = .flag ∨ t = .space) h.flags, ?_, ?_⟩, ?_, hnode, ?_⟩
  · intro l hl
    simp only [Option.mem_def] at hl
    simp [q, hl]
  · exact (word_eq_iff.1 hcolon).1.trans h.colon
  · rw [first_eq_of_words hitems]
    rcases h.blank with ⟨hb, hne⟩ | ⟨l, hb, hl⟩
    · rw [hb] at hblank
      exact .inl ⟨List.map_eq_nil_iff.1 hblank, hne⟩
    · rw [hb] at hblank
      obtain ⟨m, ms, hmb, hm, hms⟩ := List.map_eq_cons_iff.1 hblank
      obtain rfl := List.map_eq_nil_iff.1 hms
      exact .inr ⟨m, hmb, (word_eq_iff.1 hm).1.trans hl⟩
  · intro hnil
    have := (Pieces.bareAll_value (p := q) hbares).1
    rw [hnil, bareAll_eq_map, bareAll_eq_map] at this
    exact h.value (List.map_eq_nil_iff.1 this.symm)
  · rw [first_eq_of_words hflags]
    exact h.flag
  · intro l hl
    have hl : semicolon = some l := hl
    obtain ⟨m, hm, hml⟩ := Option.map_eq_some_iff.1 (hsemi.symm.trans (by rw [hl]; rfl))
    exact (word_eq_iff.1 hml).1.symm.trans (h.semicolon m hm)
  · simp only [Pieces.lexemes, Front.lexemes, q, List.append_assoc, List.cons_append]
  · intro hq
    simpa [show semicolon = none from hq] using hsemi.symm

theorem bare_blockless {k m : Lexeme} (h : k.word = m.word) {ns ns' : List Node}
    (hns : bareAll ns = bareAll ns') (stop stop' : Nat) :
    (blockless k ns stop).bare = (blockless m ns' stop').bare := by
  simp [blockless, bare, bareAll, bare_inner h, hns]

/-- Two lexemes of one token, or none. -/
def SameToken (next next' : Option Lexeme) : Prop := next.map Lexeme.token = next'.map Lexeme.token

theorem Whole.move {next next' : Option Lexeme} (hnext : SameToken next next') {ls : List Lexeme}
    {n : Node} (h : Whole next ls n) {ms : List Lexeme} (hw : ls.map word = ms.map word) :
    ∃ n', Whole next' ms n' ∧ n'.bare = n.bare := by
  cases h with
  | trivia ht =>
    obtain ⟨m, ms, rfl, hm, hms⟩ := List.map_eq_cons_iff.1 hw.symm
    obtain rfl := List.map_eq_nil_iff.1 hms
    exact ⟨_, .trivia (by rw [(word_eq_iff.1 hm).1]; exact ht), bare_trivia hm⟩
  | semicolon ht =>
    obtain ⟨m, ms, rfl, hm, hms⟩ := List.map_eq_cons_iff.1 hw.symm
    obtain rfl := List.map_eq_nil_iff.1 hms
    exact ⟨_, .semicolon ((word_eq_iff.1 hm).1.trans ht), bare_leaf hm _⟩
  | declaration hfit hcl =>
    obtain ⟨q, name', items', hfit', rfl, hbare, hsemi⟩ := hfit.move hw
    refine ⟨_, .declaration hfit' fun hq => ?_, hbare⟩
    rw [← hnext]
    exact hcl (hsemi hq)
  | atRule ht hps hsemi =>
    obtain ⟨m, ms, rfl, hm, hms⟩ := List.map_eq_cons_iff.1 hw.symm
    rw [List.map_append] at hms
    obtain ⟨ps', ms, rfl, hps', hms⟩ := List.map_eq_append_iff.1 hms
    obtain ⟨semi, ms, rfl, hs, hms⟩ := List.map_eq_cons_iff.1 hms
    obtain rfl := List.map_eq_nil_iff.1 hms
    obtain ⟨params', hparams, hbare⟩ := hps.move hps'.symm
    refine ⟨_, .atRule ((word_eq_iff.1 hm).1.trans ht) hparams ((word_eq_iff.1 hs).1.trans hsemi), ?_⟩
    exact bare_blockless hm (by simp [bareAll_append, hbare, bareAll, bare_leaf hs]) _ _
  | openAtRule ht hps hcl =>
    obtain ⟨m, ms, rfl, hm, hms⟩ := List.map_eq_cons_iff.1 hw.symm
    obtain ⟨params', hparams, hbare⟩ := hps.move hms.symm
    refine ⟨_, .openAtRule ((word_eq_iff.1 hm).1.trans ht) hparams ?_, bare_blockless hm hbare _ _⟩
    rw [← hnext]
    exact hcl

theorem Selector.move {d : Nat} {ls : List Lexeme} (h : Selector d ls) {ms : List Lexeme}
    (hw : ls.map Lexeme.word = ms.map Lexeme.word) : Selector d ms := by
  induction h generalizing ms with
  | nil =>
    obtain rfl := List.map_eq_nil_iff.1 hw.symm
    exact .nil
  | opens ht _ ih =>
    obtain ⟨m, ms, rfl, hm, hms⟩ := List.map_eq_cons_iff.1 hw.symm
    exact .opens ((word_eq_iff.1 hm).1.trans ht) (ih hms.symm)
  | closes ht _ ih =>
    obtain ⟨m, ms, rfl, hm, hms⟩ := List.map_eq_cons_iff.1 hw.symm
    exact .closes ((word_eq_iff.1 hm).1.trans ht) (ih hms.symm)
  | other h₁ h₂ h₃ h₄ _ ih =>
    obtain ⟨m, ms, rfl, hm, hms⟩ := List.map_eq_cons_iff.1 hw.symm
    have ht := (word_eq_iff.1 hm).1
    exact .other (ht ▸ h₁) (ht ▸ h₂) (ht ▸ h₃) (ht ▸ h₄) (ih hms.symm)

theorem bare_selectorNode {ls ms : List Lexeme} (hw : ls.map word = ms.map word) :
    (Head.selectorNode ls).bare = (Head.selectorNode ms).bare := by
  have htext (ls : List Lexeme) : (Head.selectorNode ls).bare =
      .leaf .selector (String.join (ls.map Lexeme.text)) none := by
    unfold Head.selectorNode
    split <;> rfl
  have htexts : ls.map Lexeme.text = ms.map Lexeme.text := by
    have hof (ls : List Lexeme) :
        ls.map Lexeme.text = (ls.map word).map fun w => String.ofList w.2 := by
      simp [word, Function.comp_def]
    rw [hof, hof, hw]
  rw [htext, htext, htexts]

theorem Headed.move {ls : List Lexeme} {head : Head} (h : Headed ls head) {ms : List Lexeme}
    (hw : ls.map word = ms.map word) :
    ∃ head', Headed ms head' ∧ ∀ inside inside' close close', bareAll inside' = bareAll inside →
      (head'.withBlock inside' close').bare = (head.withBlock inside close).bare := by
  cases h with
  | rule hsel hbrace hfirst =>
    rw [List.map_append] at hw
    obtain ⟨before, ms, rfl, hbefore, hms⟩ := List.map_eq_append_iff.1 hw.symm
    obtain ⟨brace, ms, rfl, hb, hms⟩ := List.map_eq_cons_iff.1 hms
    obtain rfl := List.map_eq_nil_iff.1 hms
    refine ⟨_, .rule (hsel.move hbefore.symm) ((word_eq_iff.1 hb).1.trans hbrace) ?_, ?_⟩
    · rw [first_eq_of_words hbefore]
      exact hfirst
    · intro inside inside' close close' hin
      simp [Head.withBlock, bare, bareAll, hin, bare_selectorNode hbefore]
  | atRule ht hps hbrace =>
    obtain ⟨keyword, ms, rfl, hk, hms⟩ := List.map_eq_cons_iff.1 hw.symm
    rw [List.map_append] at hms
    obtain ⟨ps', ms, rfl, hps', hms⟩ := List.map_eq_append_iff.1 hms
    obtain ⟨brace, ms, rfl, hb, hms⟩ := List.map_eq_cons_iff.1 hms
    obtain rfl := List.map_eq_nil_iff.1 hms
    obtain ⟨params', hparams, hbare⟩ := hps.move hps'.symm
    refine ⟨_, .atRule ((word_eq_iff.1 hk).1.trans ht) hparams ((word_eq_iff.1 hb).1.trans hbrace), ?_⟩
    intro inside inside' close close' hin
    simp [Head.withBlock, bare, bareAll, bareAll_append, hin, hbare, bare_inner hk]

/-- **Statements elsewhere** are the same statements up to their places. -/
theorem Statements.move {next next' : Option Lexeme} (hnext : SameToken next next')
    {ls : List Lexeme} {ns : List Node} (h : Statements next ls ns) {ms : List Lexeme}
    (hw : ls.map word = ms.map word) :
    ∃ ns', Statements next' ms ns' ∧ bareAll ns' = bareAll ns := by
  induction h generalizing next' ms with
  | nil =>
    obtain rfl := List.map_eq_nil_iff.1 hw.symm
    exact ⟨[], .nil, rfl⟩
  | @whole next read ls n ns hn _ ih =>
    rw [List.map_append] at hw
    obtain ⟨read', ms, rfl, hread, hms⟩ := List.map_eq_append_iff.1 hw.symm
    obtain ⟨ns', hns', hbares⟩ := ih hnext hms.symm
    have hnext' : SameToken (ls.head? <|> next) (ms.head? <|> next') := by
      cases ls with
      | nil =>
        obtain rfl := List.map_eq_nil_iff.1 hms
        exact hnext
      | cons l ls =>
        obtain ⟨m, ms, rfl, hm, -⟩ := List.map_eq_cons_iff.1 hms
        simp [SameToken, (word_eq_iff.1 hm).1]
    obtain ⟨n', hn', hbare⟩ := hn.move hnext' hread.symm
    exact ⟨n' :: ns', .whole hn' hns', by simp [bareAll, hbare, hbares]⟩
  | @block next read qs ls head inside ns close hh _ hclose _ ih₁ ih₂ =>
    rw [List.map_append, List.map_append, List.map_cons] at hw
    obtain ⟨read', ms, rfl, hread, hms⟩ := List.map_eq_append_iff.1 hw.symm
    obtain ⟨qs', ms, rfl, hqs, hms⟩ := List.map_eq_append_iff.1 hms
    obtain ⟨close', ms, rfl, hcl, hms⟩ := List.map_eq_cons_iff.1 hms
    obtain ⟨head', hh', hblock⟩ := hh.move hread.symm
    obtain ⟨inside', hin', hbare₁⟩ :=
      ih₁ (show SameToken (some close) (some close') by simp [SameToken, (word_eq_iff.1 hcl).1])
        hqs.symm
    obtain ⟨ns', hns', hbare₂⟩ := ih₂ hnext hms.symm
    refine ⟨_, .block hh' hin' ((word_eq_iff.1 hcl).1.trans hclose) hns', ?_⟩
    simp [bareAll, hblock _ _ close close' hbare₁, hbare₂]

end Parse
end Stylesheet
