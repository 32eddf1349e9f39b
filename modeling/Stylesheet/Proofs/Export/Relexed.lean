import Stylesheet.Export
import Stylesheet.Proofs.Syntax.Relexing

/-!
# The lexemes of a source with wrapped values

Where a value is wrapped, the lexemes of the call are put in, and all others stay what they are.
The one exception is a value that ends in a line comment: the closing parenthesis goes into the
comment.

* `Closed`: what becomes of the lexemes of a value.
* `Rewritten`: what becomes of the lexemes of a source.
* `Rewritten.cuts`: the new lexemes are the cut of their text.
-/

namespace Stylesheet

open Lexeme Token Pattern

namespace Lexeme

/-! ### Lexemes that stand by themselves -/

/-- No other token starts like these, and none is longer. -/
theorem munch_single {t : Token} {c : Char} (hp : t.pattern = char c)
    (hstarts : ∀ t' : Token, t'.pattern.starts [c] = true → t' = t) (rest : List Char) :
    munch start (c :: rest) = some (t, [c], rest) := by
  have htoken {u : List Char} {t' : Token} (h : t'.pattern.Matches (c :: u)) : t' = t ∧ u = [] := by
    obtain rfl := hstarts t' (starts_of_matches (s := [c]) (t := u) h)
    rw [hp, matches_char_iff] at h
    exact ⟨rfl, by simpa using h⟩
  refine munch_eq_some_iff.2 ⟨rfl, List.cons_ne_nil _ _, ?_, ?_⟩
  · cases ht : tokenAmong start [c] with
    | none =>
      refine absurd ?_ (tokenOf_eq_none_iff.1 ht t)
      rw [hp]
      exact matches_char_iff.2 rfl
    | some t' => rw [(htoken (matches_of_tokenOf ht)).1]
  · intro u v _ hu
    refine tokenOf_eq_none_iff.2 fun t' h => ?_
    exact hu (htoken h).2

theorem munch_colon (rest : List Char) :
    munch start (':' :: rest) = some (.colon, [':'], rest) :=
  munch_single rfl (by intro t; cases t <;> decide) rest

theorem munch_comma (rest : List Char) :
    munch start (',' :: rest) = some (.comma, [','], rest) :=
  munch_single rfl (by intro t; cases t <;> decide) rest

theorem munch_openParen (rest : List Char) :
    munch start ('(' :: rest) = some (.openParen, ['('], rest) :=
  munch_single rfl (by intro t; cases t <;> decide) rest

theorem munch_closeParen (rest : List Char) :
    munch start (')' :: rest) = some (.closeParen, [')'], rest) :=
  munch_single rfl (by intro t; cases t <;> decide) rest

/-- A quoted name is a string, whatever follows. -/
theorem munch_quotedName {mid : List Char} (hmid : ∀ c ∈ mid, c ≠ '"' ∧ c ≠ '\\' ∧ c ≠ '\n')
    (rest : List Char) :
    munch start ('"' :: (mid ++ '"' :: rest)) = some (.stringDouble, '"' :: (mid ++ ['"']), rest) := by
  have hm : stringDouble.pattern.Matches ('"' :: (mid ++ ['"'])) := by
    refine matches_inOrder_cons.2 ⟨['"'], _, rfl, matches_char_iff.2 rfl, ?_⟩
    refine matches_inOrder_cons.2 ⟨mid, _, rfl, ?_, matches_char_iff.2 rfl⟩
    clear rest
    induction mid with
    | nil => exact .done
    | cons c mid ih =>
      have hc := hmid c List.mem_cons_self
      refine matches_many_cons.2 ⟨[], mid, rfl, .left (.one ?_), ?_⟩
      · simp [hc]
      · exact ih fun d hd => hmid d (List.mem_cons_of_mem _ hd)
  have htoken {u : List Char} {t : Token} (h : t.pattern.Matches ('"' :: u)) : t = .stringDouble :=
    eq_of_starts.1 (starts_of_matches (s := ['"']) (t := u) h)
  refine munch_eq_some_iff.2 ⟨by simp, List.cons_ne_nil _ _, ?_, ?_⟩
  · cases ht : tokenAmong start ('"' :: (mid ++ ['"'])) with
    | none => exact absurd hm (tokenOf_eq_none_iff.1 ht .stringDouble)
    | some t => rw [htoken (matches_of_tokenOf ht)]
  · intro u v _ hu
    refine tokenOf_eq_none_iff.2 fun t h => ?_
    obtain rfl := htoken h
    exact hu (quoted_prefixFree '"' (by decide) _ _ hm h)

/-- A name ends before a parenthesis. -/
theorem munch_name {f : List Char} (hf : tokenOf f = some .ident) (rest : List Char) :
    munch start (f ++ '(' :: rest) = some (.ident, f, '(' :: rest) := by
  have hm : ident.pattern.Matches f := matches_of_tokenOf hf
  obtain ⟨x, y, rfl⟩ : ∃ x y, f = x :: y := by
    cases f with
    | nil => cases hf
    | cons x y => exact ⟨x, y, rfl⟩
  have hstarts : ident.pattern.starts [x] = true := starts_of_matches (s := [x]) (t := y) hm
  refine munch_eq_some_iff.2 ⟨rfl, List.cons_ne_nil _ _, hf, ?_⟩
  intro u v huv hu
  refine tokenOf_eq_none_iff.2 fun t h => ?_
  obtain ⟨d, u, rfl⟩ := List.exists_cons_of_ne_nil hu
  obtain rfl := (List.cons.inj huv).1
  have hallows : t.pattern.allows '(' = true := allows_of_mem h (by simp)
  have hone {c : Char} (h : (Pattern.char c).Matches (x :: y ++ '(' :: u)) : False := by
    simpa using congrArg List.length (matches_char_iff.1 h)
  have hfirst {c : Char} (h : x = c) (hc : ident.pattern.starts [c] = false) : False := by
    rw [h, hc] at hstarts
    cases hstarts
  cases t
  case openParen => exact hone h
  case stringDouble | stringSingle =>
    obtain ⟨a, b, hab, ha, -⟩ := matches_inOrder_cons.1 h
    rw [matches_char_iff.1 ha] at hab
    exact hfirst (List.cons.inj hab).1 (by decide)
  case lineComment =>
    obtain ⟨mid, hmid⟩ := matches_lineComment h
    exact hfirst (List.cons.inj hmid).1 (by decide)
  case blockComment =>
    obtain ⟨mid, hmid⟩ := matches_blockComment h
    exact hfirst (List.cons.inj hmid).1 (by decide)
  all_goals exact absurd hallows (by decide)

/-- A blank ends before a name. -/
theorem munch_blank {b f : List Char} (hb : tokenOf b = some .space) (hf : tokenOf f = some .ident)
    (rest : List Char) : munch start (b ++ (f ++ rest)) = some (.space, b, f ++ rest) := by
  have hm : space.pattern.Matches b := matches_of_tokenOf hb
  have hname : ident.pattern.Matches f := matches_of_tokenOf hf
  have hstarts {c : Char} (hc : isBlank c = true) :
      (∀ t : Token, t.pattern.starts [c] = true → t = .space) ∧ ident.pattern.starts [c] = false := by
    simp only [isBlank, Bool.or_eq_true, beq_iff_eq] at hc
    rcases hc with (((rfl | rfl) | rfl) | rfl) | rfl
    all_goals exact ⟨by intro t; cases t <;> decide, by decide⟩
  have hblank {s : List Char} (hs : space.pattern.Matches s) {c : Char} (hc : c ∈ s) :
      isBlank c = true := by
    simpa [pattern, oneOrMore, allows] using allows_of_mem hs hc
  obtain ⟨x, y, rfl⟩ : ∃ x y, b = x :: y := by
    cases b with
    | nil => cases hb
    | cons x y => exact ⟨x, y, rfl⟩
  obtain ⟨e, g, rfl⟩ : ∃ e g, f = e :: g := by
    cases f with
    | nil => cases hf
    | cons e g => exact ⟨e, g, rfl⟩
  refine munch_eq_some_iff.2 ⟨rfl, List.cons_ne_nil _ _, hb, ?_⟩
  intro u v huv hu
  refine tokenOf_eq_none_iff.2 fun t h => ?_
  obtain ⟨d, u, rfl⟩ := List.exists_cons_of_ne_nil hu
  obtain rfl := (List.cons.inj huv).1
  obtain rfl := (hstarts (hblank hm List.mem_cons_self)).1 t
    (starts_of_matches (s := [x]) (t := y ++ e :: u) h)
  have he : isBlank e = true := hblank h (by simp)
  have := starts_of_matches (s := [e]) (t := g) hname
  rw [(hstarts he).2] at this
  cases this

/-- A line comment takes a parenthesis in, and ends where it ended. -/
theorem munch_swallowed {text rest rest' : List Char}
    (h : munch start (text ++ rest) = some (.lineComment, text, rest))
    (hrest : rest'.head? = rest.head?) :
    munch start (text ++ [')'] ++ rest') = some (.lineComment, text ++ [')'], rest') := by
  obtain ⟨-, -, htok, hlong⟩ := munch_eq_some_iff.1 h
  obtain ⟨mid, rfl⟩ := matches_lineComment (matches_of_tokenOf htok)
  have hmid := matches_lineComment_iff.1 (matches_of_tokenOf htok)
  have htoken {u : List Char} {t : Token} (h : t.pattern.Matches ('/' :: '/' :: u)) :
      t = .lineComment := eq_of_starts.2.2.1 (starts_of_matches (s := ['/', '/']) (t := u) h)
  have hm : lineComment.pattern.Matches ('/' :: '/' :: mid ++ [')']) := by
    refine matches_lineComment_iff.2 fun c hc => ?_
    rcases List.mem_append.1 hc with hc | hc
    · exact hmid c hc
    · rw [List.mem_singleton.1 hc]
      decide
  refine munch_eq_some_iff.2 ⟨rfl, by simp, ?_, ?_⟩
  · cases ht : tokenAmong start ('/' :: '/' :: mid ++ [')']) with
    | none => exact absurd hm (tokenOf_eq_none_iff.1 ht .lineComment)
    | some t => rw [htoken (matches_of_tokenOf ht)]
  · intro u v huv hu
    refine tokenOf_eq_none_iff.2 fun t h => ?_
    obtain ⟨c, u, rfl⟩ := List.exists_cons_of_ne_nil hu
    obtain rfl := htoken h
    have hc := matches_lineComment_iff.1 h c (by simp)
    obtain ⟨r, rfl⟩ : ∃ r, rest = c :: r := by
      rw [huv] at hrest
      cases rest with
      | nil => cases hrest
      | cons d r => exact ⟨r, by rw [Option.some.inj hrest]⟩
    refine tokenOf_eq_none_iff.1 (hlong [c] r rfl (List.cons_ne_nil _ _)) .lineComment ?_
    refine matches_lineComment_iff.2 fun d hd => ?_
    rcases List.mem_append.1 hd with hd | hd
    · exact hmid d hd
    · rw [List.mem_singleton.1 hd]
      exact hc

end Lexeme

namespace Export

/-! ### The new lexemes -/

/-- The lexemes of a value with the parenthesis behind it, which goes into a line comment at the
end. -/
inductive Closed : List Lexeme → List Lexeme → Prop
  | paren {value : List Lexeme} {close : Lexeme} :
      (∀ l ∈ value.getLast?, l.token ≠ .lineComment) → close.word = (.closeParen, [')']) →
        Closed value (value ++ [close])
  | swallowed {value : List Lexeme} {comment longer : Lexeme} :
      comment.token = .lineComment → longer.word = (.lineComment, comment.text.toList ++ [')']) →
        Closed (value ++ [comment]) (value ++ [longer])

/-- The lexemes before a wrapped value. -/
structure Opens (function : List Char) (marks : List Lexeme) : Prop where
  words : ∃ name, (∀ c ∈ name, c ≠ '"' ∧ c ≠ '\\' ∧ c ≠ '\n' ∧ c ≠ '*' ∧ c ≠ '/') ∧
    marks.map word = [(.ident, function), (.openParen, ['(']),
      (.stringDouble, '"' :: (name ++ ['"'])), (.comma, [','])]

/-- The lexemes of a source once values are wrapped. -/
inductive Rewritten (function : List Char) : List Lexeme → List Lexeme → Prop
  | nil : Rewritten function [] []
  | keep {ls ls' : List Lexeme} (l : Lexeme) :
      Rewritten function ls ls' → Rewritten function (l :: ls) (l :: ls')
  | wrap {colon : Lexeme} {blank marks value value' ls ls' : List Lexeme} :
      colon.token = .colon → (blank = [] ∨ ∃ b, blank = [b] ∧ b.token = .space) →
        Opens function marks → Closed value value' → Rewritten function ls ls' →
          Rewritten function (colon :: (blank ++ (value ++ ls)))
            (colon :: (blank ++ (marks ++ (value' ++ ls'))))

variable {function : List Char}

theorem Rewritten.keep_all {ls ls' : List Lexeme} (h : Rewritten function ls ls')
    (ms : List Lexeme) : Rewritten function (ms ++ ls) (ms ++ ls') := by
  induction ms with
  | nil => exact h
  | cons m ms ih => exact .keep m ih

theorem Closed.texts {value value' : List Lexeme} (h : Closed value value') :
    texts value' = texts value ++ [')'] := by
  cases h with
  | @paren _ close _ hclose =>
    have hc : close.text.toList = [')'] := (Prod.mk.inj hclose).2
    simp [hc]
  | @swallowed _ comment longer _ hlonger =>
    have hl : longer.text.toList = comment.text.toList ++ [')'] := (Prod.mk.inj hlonger).2
    simp [hl]

theorem Opens.texts {marks : List Lexeme} (h : Opens function marks) :
    ∃ name, (∀ c ∈ name, c ≠ '"' ∧ c ≠ '\\' ∧ c ≠ '\n' ∧ c ≠ '*' ∧ c ≠ '/') ∧
      texts marks = function ++ '(' :: ('"' :: (name ++ '"' :: [','])) := by
  obtain ⟨name, hname, hwords⟩ := h.words
  exact ⟨name, hname, by simp [Lexeme.texts, hwords, spell]⟩

/-- A name holds no mark of a comment. -/
theorem name_sown (hf : tokenOf function = some .ident) : ∀ c ∈ function, c ≠ '*' ∧ c ≠ '/' := by
  intro c hc
  have hallows := allows_of_mem (matches_of_tokenOf hf) hc
  constructor
  · rintro rfl
    exact absurd hallows (by decide)
  · rintro rfl
    exact absurd hallows (by decide)

theorem Opens.sown (hf : tokenOf function = some .ident) {marks : List Lexeme}
    (h : Opens function marks) : ∀ c ∈ Lexeme.texts marks, c ≠ '*' ∧ c ≠ '/' := by
  obtain ⟨name, hname, htexts⟩ := h.texts
  intro c hc
  rw [htexts] at hc
  simp only [List.mem_append, List.mem_cons, List.not_mem_nil, or_false] at hc
  rcases hc with hc | rfl | rfl | hc | rfl | rfl
  · exact name_sown hf c hc
  · decide
  · decide
  · exact ⟨(hname c hc).2.2.2.1, (hname c hc).2.2.2.2⟩
  · decide
  · decide

theorem Closed.sown (hf : tokenOf function = some .ident) {marks value value' ls ls' : List Lexeme}
    (hclosed : Closed value value') (hopens : Opens function marks)
    (h : Sown (Lexeme.texts ls) (Lexeme.texts ls')) :
    Sown (Lexeme.texts (value ++ ls)) (Lexeme.texts (marks ++ (value' ++ ls'))) := by
  simp only [texts_append, hclosed.texts, List.append_assoc]
  refine Sown.sow_all (hopens.sown hf) (Sown.append_left (Sown.sow_all ?_ h) _)
  intro c hc
  rw [List.mem_singleton.1 hc]
  decide

theorem Rewritten.sown (hf : tokenOf function = some .ident) {ls ls' : List Lexeme}
    (h : Rewritten function ls ls') : Sown (texts ls) (texts ls') := by
  induction h with
  | nil => exact .nil
  | keep l _ ih => exact ih.append_left _
  | @wrap colon blank _ _ _ _ _ _ _ hopens hclosed _ ih =>
    have := ((hclosed.sown hf hopens ih).append_left (texts blank)).append_left colon.text.toList
    simpa only [texts_cons, texts_append] using this

/-- The new text starts like the old one. -/
theorem Rewritten.head? {ls ls' : List Lexeme} (h : Rewritten function ls ls') :
    ls'.head? = ls.head? := by
  cases h <;> rfl

/-- The first difference lies behind a colon. -/
theorem Rewritten.split (hf : tokenOf function = some .ident) {ls ls' : List Lexeme}
    (h : Rewritten function ls ls') (hg : ∀ l ∈ ls, l.Genuine) :
    ls = ls' ∨ ∃ c s s', texts ls = c ++ s ∧ texts ls' = c ++ s' ∧ ':' ∈ c ∧ Sown s s' := by
  induction h with
  | nil => exact .inl rfl
  | @keep ls ls' l h ih =>
    rcases ih fun m hm => hg m (List.mem_cons_of_mem _ hm) with rfl | ⟨c, s, s', h₁, h₂, hc, hs⟩
    · exact .inl rfl
    · refine .inr ⟨l.text.toList ++ c, s, s', ?_, ?_, List.mem_append_right _ hc, hs⟩
      · rw [texts_cons, h₁, List.append_assoc]
      · rw [texts_cons, h₂, List.append_assoc]
  | @wrap colon blank marks value value' ls ls' hcolon hblank hopens hclosed h ih =>
    have htext : colon.text.toList = [':'] := by
      have := hg colon List.mem_cons_self
      rw [Genuine, hcolon] at this
      exact matches_char_iff.1 this
    refine .inr ⟨[':'], texts (blank ++ (value ++ ls)), texts (blank ++ (marks ++ (value' ++ ls'))),
      by rw [texts_cons, htext], by rw [texts_cons, htext], List.mem_singleton.2 rfl, ?_⟩
    rw [texts_append blank (value ++ ls), texts_append blank (marks ++ (value' ++ ls'))]
    exact (hclosed.sown hf hopens (h.sown hf)).append_left _

/-- Lexemes in front of a parenthesis that is put in are still the longest matches, unless the
parenthesis goes into a line comment. -/
theorem cuts_append {ls : List Lexeme} {ws ws' : List (Token × List Char)} {c s r : List Char}
    (hcuts : Cuts (ls.map word ++ ws)) (hspell : spell ws = c ++ s) (hcuts' : Cuts ws')
    (hspell' : spell ws' = c ++ ')' :: r)
    (hline : c = [] → ∀ l ∈ ls.getLast?, l.token ≠ .lineComment) (hs : Sown s (')' :: r)) :
    Cuts (ls.map word ++ ws') := by
  induction ls with
  | nil => exact hcuts'
  | cons l ls ih =>
    rw [List.map_cons, List.cons_append, cuts_cons] at hcuts ⊢
    obtain ⟨hm, hcuts⟩ := hcuts
    have hrest : Cuts (ls.map word ++ ws') := by
      refine ih hcuts fun hc m hm => hline hc m ?_
      cases ls with
      | nil => cases hm
      | cons d ls => simpa [List.getLast?_cons] using hm
    refine ⟨?_, hrest⟩
    rw [spell_append, hspell, ← List.append_assoc (spell _) c s] at hm
    rw [spell_append, hspell', ← List.append_assoc (spell _) c _]
    refine munch_barrier hm (.inr ⟨r, rfl⟩) ?_ hs
    intro ht hnil
    obtain ⟨hls, hc⟩ := List.append_eq_nil_iff.1 hnil
    cases ls with
    | nil => exact hline hc l rfl ht
    | cons d ls => exact munch_ne_nil hcuts.1 (List.append_eq_nil_iff.1 hls).1

theorem Closed.cuts {value value' ls ls' : List Lexeme} (hclosed : Closed value value')
    (hcuts : Cuts (value.map word ++ ls.map word)) (hcuts' : Cuts (ls'.map word))
    (hs : Sown (Lexeme.texts ls) (Lexeme.texts ls')) (hhead : ls'.head? = ls.head?) :
    Cuts (value'.map word ++ ls'.map word) := by
  have hparen : Sown (Lexeme.texts ls) (')' :: Lexeme.texts ls') :=
    .sow (by decide) (by decide) hs
  cases hclosed with
  | @paren _ close hline hclose =>
    rw [List.map_append, List.append_assoc, List.map_singleton, List.singleton_append, hclose]
    refine cuts_append (c := []) hcuts rfl ?_ rfl (fun _ => hline) hparen
    exact ⟨munch_closeParen _, hcuts'⟩
  | @swallowed value comment longer hcomment hlonger =>
    rw [List.map_append, List.append_assoc, List.map_singleton, List.singleton_append] at hcuts ⊢
    have hm := (cuts_cons.1 hcuts.of_append).1
    have hlast : Cuts (longer.word :: ls'.map word) := by
      rw [cuts_cons, hlonger]
      rw [show comment.word = (.lineComment, comment.text.toList) by simp [word, hcomment]] at hm
      refine ⟨munch_swallowed hm ?_, hcuts'⟩
      · cases ls with
        | nil =>
          obtain rfl := List.head?_eq_none_iff.1 hhead
          rfl
        | cons l ls =>
          obtain ⟨tail, rfl⟩ := List.head?_eq_some_iff.1 hhead
          obtain ⟨d, text, hd⟩ := List.exists_cons_of_ne_nil (munch_ne_nil hcuts'.1)
          simp [spell_cons, hd]
    refine cuts_append (c := comment.text.toList) hcuts rfl hlast ?_ ?_ hparen
    · simp [spell_cons, hlonger, Lexeme.texts]
    · intro hnil
      exact absurd hnil (munch_ne_nil hm)

theorem Opens.cuts (hf : tokenOf function = some .ident) {marks : List Lexeme}
    (h : Opens function marks) {ws : List (Token × List Char)} (hcuts : Cuts ws) :
    Cuts (marks.map word ++ ws) := by
  obtain ⟨name, hname, hwords⟩ := h.words
  rw [hwords]
  refine ⟨munch_name hf _, munch_openParen _, ?_, munch_comma _, hcuts⟩
  have := munch_quotedName (fun c hc => ⟨(hname c hc).1, (hname c hc).2.1, (hname c hc).2.2.1⟩)
    (',' :: spell ws)
  simpa [spell_cons] using this

/-- **The new lexemes are the cut of their text.** -/
theorem Rewritten.cuts (hf : tokenOf function = some .ident) {ls ls' : List Lexeme}
    (h : Rewritten function ls ls') (hcuts : Cuts (ls.map word)) : Cuts (ls'.map word) := by
  induction h with
  | nil => exact hcuts
  | @keep ls ls' l h ih =>
    obtain ⟨hm, hcuts⟩ := hcuts
    refine ⟨?_, ih hcuts⟩
    have hg : ∀ l ∈ ls, l.Genuine := fun l hl => hcuts.matches l.word (List.mem_map_of_mem hl)
    -- what follows is the same, or differs behind a colon, which no lexeme reaches beyond
    rcases h.split hf hg with rfl | ⟨c, s, s', h₁, h₂, hc, hs⟩
    · exact hm
    · have h₁ : spell (ls.map word) = c ++ s := h₁
      have h₂ : spell (ls'.map word) = c ++ s' := h₂
      rw [h₁] at hm
      rw [h₂]
      refine munch_barrier hm (.inl hc) (fun _ hnil => ?_) hs
      simp [hnil] at hc
  | @wrap colon blank marks value value' ls ls' hcolon hblank hopens hclosed h ih =>
    have hg := hcuts.matches
    have htext : colon.text.toList = [':'] := by
      have := hg colon.word List.mem_cons_self
      rw [show colon.word.1 = Token.colon from hcolon] at this
      exact matches_char_iff.1 this
    rw [List.map_cons, List.map_append, List.map_append, cuts_cons] at hcuts
    have hvalue : Cuts (value.map word ++ ls.map word) := hcuts.2.of_append
    have hnew : Cuts (value'.map word ++ ls'.map word) :=
      hclosed.cuts hvalue (ih hvalue.of_append) (h.sown hf) h.head?
    have hmarks : Cuts (marks.map word ++ (value'.map word ++ ls'.map word)) :=
      hopens.cuts hf hnew
    rw [List.map_cons, List.map_append, List.map_append, List.map_append, cuts_cons]
    refine ⟨by rw [show colon.word = (.colon, [':']) by simp [word, hcolon, htext]]; exact munch_colon _, ?_⟩
    rcases hblank with rfl | ⟨b, rfl, hb⟩
    · exact hmarks
    · rw [List.map_singleton, List.singleton_append, cuts_cons]
      refine ⟨?_, hmarks⟩
      obtain ⟨name, -, hwords⟩ := hopens.words
      have hspace : tokenOf b.text.toList = some .space := by
        have := (munch_eq_some_iff.1 hcuts.2.1).2.2.1
        rwa [show b.word.1 = Token.space from hb] at this
      rw [show b.word = (.space, b.text.toList) by simp [word, hb], hwords]
      exact munch_blank hspace hf _

end Export
end Stylesheet
