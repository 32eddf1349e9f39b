import Stylesheet.Proofs.Syntax.Grammar

/-!
# The grammar of statements

Statements as relations between lexemes and nodes, on top of the grammar of declarations.

* `selector?_sound`, `selector?_complete`: what stands before the opening brace of a block.
* `statement_iff`: one statement, whole or up to its block.
* `statements_iff`: statements up to the end of the source or of a block.
* `parse_iff`: the tree of a source.
-/

namespace Stylesheet

open Lexeme

namespace Parse

/-! ### Selectors -/

/-- Lexemes inside so many interpolations in which no block opens and none ends. -/
inductive Selector : Nat → List Lexeme → Prop
  | nil {d : Nat} : Selector d []
  | opens {d : Nat} {l : Lexeme} {ls : List Lexeme} :
      l.token = .interpolationStart → Selector (d + 1) ls → Selector d (l :: ls)
  | closes {d : Nat} {l : Lexeme} {ls : List Lexeme} :
      l.token = .closeBrace → Selector d ls → Selector (d + 1) (l :: ls)
  | other {d : Nat} {l : Lexeme} {ls : List Lexeme} :
      l.token ≠ .openBrace → l.token ≠ .interpolationStart → l.token ≠ .closeBrace →
        l.token ≠ .semicolon → Selector d ls → Selector d (l :: ls)

/-- How many interpolations are open behind a lexeme that opens no block; none if the search for a
block ends there. -/
def openBehind? (d : Nat) : Token → Option Nat
  | .interpolationStart => some (d + 1)
  | .closeBrace => if d = 0 then none else some (d - 1)
  | .semicolon => none
  | _ => some d

theorem selector?_brace {l : Lexeme} (h : l.token = .openBrace) (d : Nat) (ls : List Lexeme) :
    selector? d (l :: ls) = some ([], l, ⟨ls, Nat.lt_succ_self _⟩) := by
  obtain ⟨t, text, span⟩ := l
  obtain rfl : t = .openBrace := h
  rfl

/-- **One step of the search** for a block. -/
theorem selector?_cons {l : Lexeme} (h : l.token ≠ .openBrace) (d : Nat) (ls : List Lexeme) :
    selector? d (l :: ls) = (openBehind? d l.token).bind fun e =>
      (selector? e ls).map fun found =>
        (l :: found.1, found.2.1, ⟨found.2.2.1, Nat.lt_succ_of_lt found.2.2.2⟩) := by
  obtain ⟨t, text, span⟩ := l
  cases t with
  | openBrace => exact absurd rfl h
  | closeBrace => cases d <;> rfl
  | _ => rfl

/-- The search goes on where a part of a selector stands. -/
theorem Selector.step {d e : Nat} {l : Lexeme} {ls : List Lexeme} (h : l.token ≠ .openBrace)
    (he : openBehind? d l.token = some e) (hs : Selector e ls) : Selector d (l :: ls) := by
  -- the kind of the lexeme says how many interpolations are open behind it
  by_cases hopens : l.token = .interpolationStart
  · rw [hopens] at he
    obtain rfl := Option.some.inj he
    exact .opens hopens hs
  by_cases hcloses : l.token = .closeBrace
  · rw [hcloses] at he
    cases d with
    | zero => cases he
    | succ d =>
      obtain rfl : d = e := Option.some.inj he
      exact .closes hcloses hs
  by_cases hends : l.token = .semicolon
  · rw [hends] at he
    cases he
  have hsame : openBehind? d l.token = some d := by
    obtain ⟨t, text, span⟩ := l
    cases t <;> first | rfl | contradiction
  obtain rfl : d = e := Option.some.inj (hsame.symm.trans he)
  exact .other h hopens hcloses hends hs

/-- A part of a selector is passed on the way to a block. -/
theorem Selector.exists_step {d : Nat} {l : Lexeme} {ls : List Lexeme} (h : Selector d (l :: ls)) :
    l.token ≠ .openBrace ∧ ∃ e, openBehind? d l.token = some e ∧ Selector e ls := by
  cases h with
  | opens ht hs => exact ⟨by simp [ht], _, by rw [ht]; rfl, hs⟩
  | closes ht hs => exact ⟨by simp [ht], _, by rw [ht]; rfl, hs⟩
  | other h₁ h₂ h₃ h₄ hs =>
    refine ⟨h₁, d, ?_, hs⟩
    obtain ⟨t, text, span⟩ := l
    cases t <;> first | rfl | contradiction

theorem selector?_sound {d : Nat} {ls before : List Lexeme} {brace : Lexeme}
    {r : { rest : List Lexeme // rest.length < ls.length }}
    (h : selector? d ls = some (before, brace, r)) :
    ls = before ++ brace :: r.1 ∧ brace.token = .openBrace ∧ Selector d before := by
  induction ls generalizing d before with
  | nil => cases h
  | cons l ls ih =>
    by_cases ht : l.token = .openBrace
    · rw [selector?_brace ht] at h
      cases h
      exact ⟨rfl, ht, .nil⟩
    · rw [selector?_cons ht] at h
      obtain ⟨e, he, h⟩ := Option.bind_eq_some_iff.1 h
      obtain ⟨⟨tail, brace', rest, hlt⟩, hs, heq⟩ := Option.map_eq_some_iff.1 h
      cases heq
      obtain ⟨hls, hbrace, hsel⟩ := ih hs
      exact ⟨congrArg (l :: ·) hls, hbrace, hsel.step ht he⟩

theorem selector?_complete {d : Nat} {before : List Lexeme} {brace : Lexeme}
    (h : Selector d before) (hbrace : brace.token = .openBrace) {ls rest : List Lexeme}
    (hls : ls = before ++ brace :: rest) :
    ∃ hlt, selector? d ls = some (before, brace, ⟨rest, hlt⟩) := by
  subst hls
  refine ⟨by simp only [List.length_append, List.length_cons]; omega, ?_⟩
  induction before generalizing d with
  | nil => exact selector?_brace hbrace d rest
  | cons l before ih =>
    obtain ⟨ht, e, he, hs⟩ := h.exists_step
    have hstep := selector?_cons ht d (before ++ brace :: rest)
    rw [he, Option.bind_some, ih hs] at hstep
    exact hstep

/-- No block opens before a semicolon, a closing brace or the end. -/
def Blockless (d : Nat) (ls : List Lexeme) : Prop := selector? d ls = none

theorem Blockless.step {d : Nat} {l : Lexeme} {ls : List Lexeme} (h : l.token ≠ .openBrace)
    (hs : ∀ e ∈ openBehind? d l.token, Blockless e ls) : Blockless d (l :: ls) := by
  rw [Blockless, selector?_cons h]
  cases he : openBehind? d l.token with
  | none => rfl
  | some e => rw [Option.bind_some, show selector? e ls = none from hs e he, Option.map_none]

theorem blockless_opens {d : Nat} {l : Lexeme} {ls : List Lexeme}
    (hl : l.token = .interpolationStart) (h : Blockless (d + 1) ls) : Blockless d (l :: ls) := by
  refine .step (by simp [hl]) fun e he => ?_
  rw [hl] at he
  obtain rfl := Option.some.inj he
  exact h

theorem blockless_closes {d : Nat} {l : Lexeme} {ls : List Lexeme} (hl : l.token = .closeBrace)
    (h : Blockless d ls) : Blockless (d + 1) (l :: ls) := by
  refine .step (by simp [hl]) fun e he => ?_
  rw [hl] at he
  obtain rfl : d = e := Option.some.inj he
  exact h

theorem blockless_cons {d : Nat} {l : Lexeme} {ls : List Lexeme} (h₁ : l.token ≠ .openBrace)
    (h₂ : l.token ≠ .interpolationStart) (h₃ : l.token ≠ .closeBrace) (h : Blockless d ls) :
    Blockless d (l :: ls) := by
  refine .step h₁ fun e he => ?_
  have hsame : openBehind? d l.token = none ∨ openBehind? d l.token = some d := by
    obtain ⟨t, text, span⟩ := l
    cases t <;> first | exact .inl rfl | exact .inr rfl | contradiction
  rcases hsame with hnone | hsame
  · rw [hnone] at he
    cases he
  · rw [hsame] at he
    obtain rfl := Option.some.inj he
    exact h

/-- Where no block can open the search ends. -/
theorem blockless_ends {l : Lexeme} (hl : l.token = .semicolon ∨ l.token = .closeBrace)
    (ls : List Lexeme) : Blockless 0 (l :: ls) := by
  refine .step (by rcases hl with hl | hl <;> simp [hl]) fun e he => ?_
  rcases hl with hl | hl <;>
    · rw [hl] at he
      cases he

/-- Items of a value are passed over on the way to a block. -/
theorem Items.blockless {stop : Stop} {read : List Lexeme} {ns : List Node} (h : Items stop read ns)
    {d : Nat} {rest : List Lexeme} (hrest : Blockless d rest) : Blockless d (read ++ rest) := by
  induction h generalizing d rest with
  | nil => exact hrest
  | @leaf stop l n ls ns _ hn _ _ ih =>
    refine blockless_cons ?_ ?_ ?_ (ih hrest) <;>
      · intro ht
        simp [Lexeme.item?, ht] at hn
  | @bracket stop o ms ls inside ns close hfit _ hclose _ ih₁ ih₂ =>
    simp only [List.append_assoc, List.cons_append]
    cases o with
    | parentheses m =>
      have hm : m.token = .openParen := hfit
      refine blockless_cons ?_ ?_ ?_ (ih₁ (blockless_cons ?_ ?_ ?_ (ih₂ hrest))) <;>
        simp_all [Opening.closer]
    | call n m =>
      have hm : n.token = .ident ∧ m.token = .openParen := hfit
      refine blockless_cons ?_ ?_ ?_ (blockless_cons ?_ ?_ ?_
        (ih₁ (blockless_cons ?_ ?_ ?_ (ih₂ hrest)))) <;> simp_all [Opening.closer]
    | interpolation m =>
      have hm : m.token = .interpolationStart := hfit
      have hc : close.token = .closeBrace := hclose
      exact blockless_opens hm (ih₁ (blockless_closes hc (ih₂ hrest)))

theorem blockless_append {d : Nat} {ls rest : List Lexeme}
    (h : ∀ l ∈ ls, l.token ≠ .openBrace ∧ l.token ≠ .interpolationStart ∧ l.token ≠ .closeBrace)
    (hrest : Blockless d rest) : Blockless d (ls ++ rest) := by
  induction ls with
  | nil => exact hrest
  | cons l ls ih =>
    obtain ⟨h₁, h₂, h₃⟩ := h l List.mem_cons_self
    exact blockless_cons h₁ h₂ h₃ (ih fun m hm => h m (List.mem_cons_of_mem _ hm))

theorem PropertyParts.blockless {ls : List Lexeme} {ns : List Node} (h : PropertyParts ls ns)
    {d : Nat} {rest : List Lexeme} (hrest : Blockless d rest) : Blockless d (ls ++ rest) := by
  induction h with
  | nil => exact hrest
  | word ht _ ih =>
    refine blockless_cons ?_ ?_ ?_ ih <;> rcases ht with ht | ht <;> simp [ht]
  | @interpolation mark close ms ls inside ns hmark hi hclose _ ih =>
    rw [List.cons_append, List.append_assoc, List.cons_append]
    exact blockless_opens hmark (hi.blockless (blockless_closes hclose ih))

/-- **A declaration is not taken for a rule**, whatever comes after it. -/
theorem Pieces.Fits.blockless {p : Pieces} {name items : List Lexeme} (h : p.Fits name items)
    {rest : List Lexeme} (hcl : p.semicolon = none → Closes (first rest)) :
    Blockless 0 (p.lexemes name items ++ rest) := by
  have hend : Blockless 0 (p.semicolon.toList ++ rest) := by
    cases hs : p.semicolon with
    | some l => exact blockless_ends (.inl (h.semicolon l hs)) rest
    | none =>
      cases rest with
      | nil => rfl
      | cons l rest => exact blockless_ends (.inr (hcl hs l.token rfl)) rest
  have hflags : Blockless 0 (p.flags ++ (p.semicolon.toList ++ rest)) := by
    refine blockless_append (fun l hl => ?_) hend
    rcases h.flags l hl with ht | ht <;> simp [ht]
  have hcolon : Blockless 0 (p.colon :: (p.blank ++ (items ++ (p.flags ++
      (p.semicolon.toList ++ rest))))) := by
    refine blockless_cons ?_ ?_ ?_ (blockless_append (fun l hl => ?_) (h.items.blockless hflags))
    any_goals simp [h.colon]
    rcases h.blank with ⟨hb, -⟩ | ⟨m, hb, hm⟩
    · simp [hb] at hl
    · obtain rfl : l = m := by simpa [hb] using hl
      simp [hm]
  have hblanks : Blockless 0 (p.blanks ++ p.colon :: (p.blank ++ (items ++ (p.flags ++
      (p.semicolon.toList ++ rest))))) :=
    blockless_append (fun l hl => by simp [h.blanks l hl]) hcolon
  simp only [Pieces.lexemes, Front.lexemes, List.append_assoc, List.cons_append]
  have hname := h.property
  generalize p.property = n at hname
  cases hname with
  | ofVariable ht => exact blockless_cons (by simp [ht]) (by simp [ht]) (by simp [ht]) hblanks
  | ofParts hp _ => exact hp.blockless hblanks

/-! ### Statements -/

/-- A statement without a block, with the lexeme after it. -/
inductive Whole (next : Option Lexeme) : List Lexeme → Node → Prop
  | trivia {l : Lexeme} : l.token.isTrivia = true → Whole next [l] l.trivia
  | semicolon {l : Lexeme} : l.token = .semicolon → Whole next [l] (l.leaf .punctuation)
  | declaration {p : Pieces} {name items : List Lexeme} :
      p.Fits name items → (p.semicolon = none → Closes (next.map Lexeme.token)) →
        Whole next (p.lexemes name items) p.node
  | atRule {keyword semicolon : Lexeme} {ps : List Lexeme} {params : List Node} :
      keyword.token = .atKeyword → Items .atRule ps params → semicolon.token = .semicolon →
        Whole next (keyword :: (ps ++ [semicolon]))
          (blockless keyword (params ++ [semicolon.leaf .punctuation]) semicolon.span.stop)
  | openAtRule {keyword : Lexeme} {ps : List Lexeme} {params : List Node} :
      keyword.token = .atKeyword → Items .atRule ps params → Closes (next.map Lexeme.token) →
        Whole next (keyword :: ps) (blockless keyword params (openStop keyword params next))

/-- The tokens at which no rule starts. -/
def startsOther (t : Token) : Bool :=
  t.isTrivia || t == .semicolon || t == .atKeyword || t == .variable

/-- What stands before a block, with the brace. -/
inductive Headed : List Lexeme → Head → Prop
  | rule {before : List Lexeme} {brace : Lexeme} :
      Selector 0 before → brace.token = .openBrace → (∀ t ∈ first before, startsOther t = false) →
        Headed (before ++ [brace]) (.rule before brace)
  | atRule {keyword brace : Lexeme} {ps : List Lexeme} {params : List Node} :
      keyword.token = .atKeyword → Items .atRule ps params → brace.token = .openBrace →
        Headed (keyword :: (ps ++ [brace])) (.atRule keyword params brace)

/-- One statement, or what stands before its block. -/
def Statement (next : Option Lexeme) (read : List Lexeme) : Head → Prop
  | .whole n => Whole next read n
  | head => Headed read head

theorem atRule_sound {keyword : Lexeme} (hk : keyword.token = .atKeyword) {ls : List Lexeme}
    {head : Head} {r : { rest : List Lexeme // rest.length ≤ ls.length }}
    (h : atRule keyword ls = .ok (head, r)) :
    ∃ read, keyword :: ls = read ++ r.1 ∧ Statement r.1.head? read head := by
  simp only [atRule] at h
  split at h
  · cases h
  rename_i params rest hle hitems
  obtain ⟨ps, hls, hps, hends⟩ := items_sound hitems
  simp only at hls hends
  cases rest with
  | nil =>
    cases h
    refine ⟨keyword :: ps, by simp [hls], .openAtRule hk hps fun t ht => ?_⟩
    cases ht
  | cons l rest =>
    simp only at h
    split at h
    · rename_i hl
      cases h
      exact ⟨keyword :: (ps ++ [l]), by simp [hls], .atRule hk hps hl⟩
    · rename_i hopen
      split at h
      · rename_i hl
        cases h
        exact ⟨keyword :: (ps ++ [l]), by simp [hls], .atRule hk hps hl⟩
      · rename_i hsemi
        cases h
        refine ⟨keyword :: ps, by simp [hls], .openAtRule hk hps ?_⟩
        intro t ht
        simp only [List.head?_cons, Option.map_some, Option.mem_def, Option.some.injEq] at ht
        subst ht
        simpa [Stop.Ends, Stop.isAt, hopen, hsemi] using hends

theorem atRule_complete (keyword : Lexeme) {ps : List Lexeme} {params : List Node}
    (hps : Items .atRule ps params) {ls rest : List Lexeme} (hls : ls = ps ++ rest)
    (hends : Stop.Ends .atRule rest) :
    (∀ l ms, rest = l :: ms → l.token = .openBrace →
      ∃ hle, atRule keyword ls = .ok (.atRule keyword params l, ⟨ms, hle⟩)) ∧
    (∀ l ms, rest = l :: ms → l.token = .semicolon →
      ∃ hle, atRule keyword ls =
        .ok (.whole (blockless keyword (params ++ [l.leaf .punctuation]) l.span.stop), ⟨ms, hle⟩)) ∧
    (Closes (first rest) → ∃ hle, atRule keyword ls =
      .ok (.whole (blockless keyword params (openStop keyword params rest.head?)), ⟨rest, hle⟩)) := by
  obtain ⟨hle, hitems⟩ := items_complete hps hls hends
  refine ⟨?_, ?_, ?_⟩
  · rintro l ms rfl hl
    exact ⟨Nat.le_of_succ_le hle, by simp only [atRule, hitems, hl, if_true]⟩
  · rintro l ms rfl hl
    exact ⟨Nat.le_of_succ_le hle, by simp [atRule, hitems, hl]⟩
  · intro hcl
    refine ⟨hle, ?_⟩
    cases rest with
    | nil => simp [atRule, hitems]
    | cons l ms => simp [atRule, hitems, hcl l.token rfl]

theorem statement_sound {l : Lexeme} {ls : List Lexeme} {head : Head}
    {r : { rest : List Lexeme // rest.length < (l :: ls).length }}
    (h : statement l ls = .ok (head, r)) :
    ∃ read, l :: ls = read ++ r.1 ∧ Statement r.1.head? read head := by
  have hplain {head : Head} {r : { rest : List Lexeme // rest.length < (l :: ls).length }}
      (h : plainDeclaration (l :: ls) = .ok (head, r)) :
      ∃ read, l :: ls = read ++ r.1 ∧ Statement r.1.head? read head := by
    simp only [plainDeclaration] at h
    split at h
    · cases h
    · rename_i n rest hd
      cases h
      obtain ⟨p, name, items, hfit, rfl, hls, hcl⟩ := declaration_iff.1 hd
      exact ⟨_, hls, .declaration hfit hcl⟩
  simp only [statement] at h
  split at h
  case h_1 ht | h_2 ht | h_3 ht =>
    cases h
    exact ⟨[l], rfl, .trivia (by simp [ht, Token.isTrivia])⟩
  case h_4 ht =>
    cases h
    exact ⟨[l], rfl, .semicolon ht⟩
  case h_5 ht =>
    split at h
    · cases h
    · rename_i head rest hle ha
      cases h
      exact atRule_sound ht ha
  case h_6 ht => exact hplain h
  case h_7 h₁ h₂ h₃ h₄ h₅ h₆ =>
    split at h
    · rename_i before brace rest hs
      cases h
      obtain ⟨hls, hbrace, hsel⟩ := selector?_sound hs
      refine ⟨before ++ [brace], by simp [hls], .rule hsel hbrace fun t ht => ?_⟩
      have : t = l.token := by
        cases before with
        | nil => cases ht
        | cons m before =>
          rw [List.cons_append, List.cons.injEq] at hls
          rw [hls.1]
          exact (Option.some.inj ht).symm
      subst this
      cases ht : l.token <;> simp_all [startsOther, Token.isTrivia]
    · exact hplain h

/-- The first lexeme of a property that is not a variable names a property. -/
theorem Property.first_eq {ls : List Lexeme} {n : Node} (h : Property ls n) :
    ∃ l ms, ls = l :: ms ∧ (l.token = .variable ∨ l.token = .ident ∨ l.token = .operator ∨
      l.token = .interpolationStart) := by
  cases h with
  | ofVariable ht => exact ⟨_, _, rfl, .inl ht⟩
  | ofParts hp hne =>
    obtain ⟨l, ms, rfl, ht⟩ := hp.first_ne hne
    exact ⟨l, ms, rfl, .inr ht⟩

theorem statement_declaration {p : Pieces} {name items : List Lexeme} (h : p.Fits name items)
    {l : Lexeme} {ls rest : List Lexeme} (hls : l :: ls = p.lexemes name items ++ rest)
    (hcl : p.semicolon = none → Closes (first rest)) :
    ∃ hlt, statement l ls = .ok (.whole p.node, ⟨rest, hlt⟩) := by
  obtain ⟨hlt, hd⟩ := declaration_complete h hls hcl
  refine ⟨hlt, ?_⟩
  have hplain : plainDeclaration (l :: ls) = .ok (.whole p.node, ⟨rest, hlt⟩) := by
    rw [plainDeclaration, hd]
  have hsel : selector? 0 (l :: ls) = none := by
    rw [hls]; exact h.blockless hcl
  obtain ⟨m, ms, hname, ht⟩ := h.property.first_eq
  obtain rfl : l = m := by
    rw [Pieces.lexemes, Front.lexemes, hname] at hls
    exact (List.cons.inj hls).1
  rcases ht with ht | ht | ht | ht <;> simp only [statement, ht, hplain, hsel]

theorem statement_complete {head : Head} {l : Lexeme} {read ls rest : List Lexeme}
    (h : Statement rest.head? read head) (hls : l :: ls = read ++ rest) :
    ∃ hlt, statement l ls = .ok (head, ⟨rest, hlt⟩) := by
  have hatRule {keyword : Lexeme} {o : Head} (ht : keyword.token = .atKeyword)
      (hk : l = keyword) {hle : rest.length ≤ ls.length}
      (ha : atRule keyword ls = .ok (o, ⟨rest, hle⟩)) :
      ∃ hlt, statement l ls = .ok (o, ⟨rest, hlt⟩) := by
    subst hk
    exact ⟨Nat.lt_succ_of_le hle, by simp only [statement, ht, ha]⟩
  cases head with
  | whole n =>
    have h : Whole rest.head? read n := h
    generalize hnext : rest.head? = next at h
    cases h with
    | trivia ht =>
      obtain ⟨rfl, rfl⟩ := List.cons.inj hls
      refine ⟨Nat.lt_succ_self _, ?_⟩
      cases hl : l.token <;> simp_all [Token.isTrivia, statement]
    | semicolon ht =>
      obtain ⟨rfl, rfl⟩ := List.cons.inj hls
      exact ⟨Nat.lt_succ_self _, by simp only [statement, ht]⟩
    | declaration hfit hcl =>
      refine statement_declaration hfit hls fun hs => ?_
      subst hnext; exact hcl hs
    | @atRule keyword semi ps params ht hps hsemi =>
      obtain ⟨hk, hls⟩ := List.cons.inj hls
      obtain ⟨-, ha, -⟩ := atRule_complete keyword hps
        (show ls = ps ++ semi :: rest by simpa using hls) (by simp [Stop.Ends, Stop.isAt, hsemi])
      obtain ⟨hle, ha⟩ := ha semi rest rfl hsemi
      exact hatRule ht hk ha
    | @openAtRule keyword ps params ht hps hcl =>
      obtain ⟨hk, hls⟩ := List.cons.inj hls
      have hends : Stop.Ends .atRule rest := by
        cases rest with
        | nil => rfl
        | cons m ms => simp [Stop.Ends, Stop.isAt, hcl m.token (by simp [← hnext])]
      obtain ⟨-, -, ha⟩ := atRule_complete keyword hps hls hends
      obtain ⟨hle, ha⟩ := ha (by rw [← hnext] at hcl; exact hcl)
      rw [hnext] at ha
      exact hatRule ht hk ha
  | rule before brace =>
    cases (h : Headed read _) with
    | rule hsel hbrace hfirst =>
      -- the look ahead finds this brace, as nothing in the selector stops it
      rw [List.append_assoc, List.singleton_append] at hls
      obtain ⟨hlt, hs⟩ := selector?_complete hsel hbrace hls
      refine ⟨hlt, ?_⟩
      cases before with
      | nil =>
        obtain ⟨rfl, rfl⟩ := List.cons.inj hls
        simp only [statement, hbrace, hs]
      | cons m before =>
        obtain ⟨rfl, -⟩ := List.cons.inj hls
        have := hfirst l.token rfl
        cases ht : l.token <;> simp_all [startsOther, Token.isTrivia, statement]
  | atRule keyword params brace =>
    cases (h : Headed read _) with
    | @atRule _ _ ps _ ht hps hbrace =>
      obtain ⟨hk, hls⟩ := List.cons.inj hls
      obtain ⟨ha, -, -⟩ := atRule_complete keyword hps
        (show ls = ps ++ brace :: rest by simpa using hls)
        (by simp [Stop.Ends, Stop.isAt, hbrace])
      obtain ⟨hle, ha⟩ := ha brace rest rfl hbrace
      exact hatRule ht hk ha

/-- **One statement** is what the grammar says, with a look at the lexeme after it. -/
theorem statement_iff {l : Lexeme} {ls : List Lexeme} {head : Head}
    {r : { rest : List Lexeme // rest.length < (l :: ls).length }} :
    statement l ls = .ok (head, r) ↔
      ∃ read, l :: ls = read ++ r.1 ∧ Statement r.1.head? read head :=
  ⟨statement_sound, fun ⟨_, hls, hread⟩ => (statement_complete hread hls).2⟩

/-- A statement starts with a lexeme of its own, which closes no block. -/
theorem Statement.first_ne {next : Option Lexeme} {read : List Lexeme} {head : Head}
    (h : Statement next read head) : ∃ l ms, read = l :: ms ∧ l.token ≠ .closeBrace := by
  cases head with
  | whole n =>
    cases (h : Whole next read n) with
    | trivia ht => exact ⟨_, _, rfl, fun hc => by simp [hc, Token.isTrivia] at ht⟩
    | semicolon ht => exact ⟨_, _, rfl, by simp [ht]⟩
    | declaration hfit _ =>
      obtain ⟨l, ms, hname, ht⟩ := hfit.property.first_eq
      refine ⟨l, _, by rw [Pieces.lexemes, Front.lexemes, hname, List.cons_append, List.cons_append], ?_⟩
      rcases ht with ht | ht | ht | ht <;> simp [ht]
    | atRule ht _ _ | openAtRule ht _ _ => exact ⟨_, _, rfl, by simp [ht]⟩
  | rule before brace =>
    cases (h : Headed read _) with
    | rule hsel hbrace _ =>
      cases hsel with
      | nil => exact ⟨_, _, rfl, by simp [hbrace]⟩
      | opens ht _ => exact ⟨_, _, rfl, by simp [ht]⟩
      | other _ _ ht _ _ => exact ⟨_, _, rfl, ht⟩
  | atRule keyword params brace =>
    cases (h : Headed read _) with
    | atRule ht _ _ => exact ⟨_, _, rfl, by simp [ht]⟩

/-- Statements one after the other, with the lexeme after the last. -/
inductive Statements : Option Lexeme → List Lexeme → List Node → Prop
  | nil {next : Option Lexeme} : Statements next [] []
  | whole {next : Option Lexeme} {read ls : List Lexeme} {n : Node} {ns : List Node} :
      Whole (ls.head? <|> next) read n → Statements next ls ns → Statements next (read ++ ls) (n :: ns)
  | block {next : Option Lexeme} {read ms ls : List Lexeme} {head : Head} {inside ns : List Node}
      {close : Lexeme} :
      Headed read head → Statements (some close) ms inside → close.token = .closeBrace →
        Statements next ls ns →
          Statements next (read ++ (ms ++ close :: ls)) (head.withBlock inside close :: ns)

/-- What stands before a block is read alike whatever comes next. -/
theorem Headed.statement {next : Option Lexeme} {read : List Lexeme} {head : Head}
    (h : Headed read head) : Statement next read head := by
  cases h with
  | rule h₁ h₂ h₃ => exact .rule h₁ h₂ h₃
  | atRule h₁ h₂ h₃ => exact .atRule h₁ h₂ h₃

theorem Headed.ne_whole {read : List Lexeme} {head : Head} (h : Headed read head) (n : Node) :
    head ≠ .whole n := by
  rintro rfl
  cases h

/-- The lexeme after some others is the first behind them. -/
theorem head?_append (ls rest : List Lexeme) :
    (ls ++ rest).head? = (ls.head? <|> rest.head?) := by
  cases ls <;> simp

/-- What may stand behind the statements of a block, or of a source. -/
def EndsBlock (inBlock : Bool) (rest : List Lexeme) : Prop :=
  if inBlock then first rest = some .closeBrace else rest = []

theorem statements_sound {inBlock : Bool} {ls : List Lexeme} {ns : List Node}
    {r : { rest : List Lexeme // rest.length ≤ ls.length }}
    (h : statements inBlock ls = .ok (ns, r)) :
    ∃ read, ls = read ++ r.1 ∧ Statements r.1.head? read ns ∧ EndsBlock inBlock r.1 := by
  fun_induction statements inBlock ls generalizing ns with
  | case1 => cases h
  | case2 inBlock hb =>
    cases h
    exact ⟨[], rfl, .nil, by simp [EndsBlock, hb]⟩
  | case3 l ls ht =>
    cases h
    exact ⟨[], rfl, .nil, by simp [EndsBlock, ht]⟩
  | case4 => cases h
  | case5 => cases h
  | case6 => cases h
  | case7 inBlock l ls ht n ls₁ h₁ hs more rest hle hmore ih =>
    cases h
    obtain ⟨read₁, hls, hread₁⟩ := statement_sound hs
    obtain ⟨read₂, hls₁, hread₂, hend⟩ := ih hmore
    simp only at hls hls₁
    have hsplit : l :: ls = read₁ ++ read₂ ++ rest := by rw [hls, hls₁, List.append_assoc]
    have hread₁ : Statement ls₁.head? read₁ (.whole n) := hread₁
    rw [hls₁, head?_append] at hread₁
    exact ⟨read₁ ++ read₂, hsplit, .whole hread₁ hread₂, hend⟩
  | case8 => cases h
  | case9 => cases h
  | case10 => cases h
  | case11 inBlock l ls ht head ls₁ h₁ hne hs inside ls₂ h₂ hi close ls₃ h₃ hc more rest hle hmore
      ih₁ ih₂ =>
    cases h
    obtain ⟨read₁, hls, hread₁⟩ := statement_sound hs
    obtain ⟨read₂, hls₁, hread₂, -⟩ := ih₁ hi
    obtain ⟨hls₂, hclose⟩ := expect_iff.1 hc
    obtain ⟨read₃, hls₃, hread₃, hend⟩ := ih₂ hmore
    simp only at hls hls₁ hls₂ hls₃
    have hhead : Headed read₁ head := by
      cases head with
      | whole n => exact absurd rfl (hne n)
      | rule _ _ | atRule _ _ _ => exact hread₁
    have hsplit : l :: ls = read₁ ++ (read₂ ++ close :: read₃) ++ rest := by
      rw [hls, hls₁, hls₂, hls₃]
      simp only [List.append_assoc, List.cons_append]
    refine ⟨read₁ ++ (read₂ ++ close :: read₃), hsplit, .block hhead ?_ hclose hread₃, hend⟩
    simpa [hls₂] using hread₂

theorem statements_complete {inBlock : Bool} {next : Option Lexeme} {read : List Lexeme}
    {ns : List Node} (h : Statements next read ns) {ls rest : List Lexeme}
    (hls : ls = read ++ rest) (hnext : rest.head? = next) (hend : EndsBlock inBlock rest) :
    ∃ hle, statements inBlock ls = .ok (ns, ⟨rest, hle⟩) := by
  induction h generalizing inBlock ls rest with
  | nil =>
    subst hls
    refine ⟨Nat.le_refl _, ?_⟩
    cases inBlock with
    | false =>
      obtain rfl : ls = [] := by simpa [EndsBlock] using hend
      simp [statements]
    | true =>
      cases ls with
      | nil => simp [EndsBlock] at hend
      | cons l ls =>
        have ht : l.token = .closeBrace := by simpa [EndsBlock] using hend
        simp [statements, ht]
  | @whole next read₁ read₂ n ns hw _ ih =>
    obtain ⟨l, ms, hread, ht⟩ := Statement.first_ne (show Statement _ _ (.whole n) from hw)
    obtain ⟨hle, hrest⟩ := ih rfl hnext hend
    have hw' : Statement (read₂ ++ rest).head? read₁ (.whole n) := by
      rw [head?_append, hnext]
      exact hw
    subst hread
    obtain ⟨hlt, hs⟩ := statement_complete hw'
      (show l :: (ms ++ (read₂ ++ rest)) = l :: ms ++ (read₂ ++ rest) from rfl)
    obtain rfl : ls = l :: (ms ++ (read₂ ++ rest)) := by simp [hls]
    refine ⟨by simp only [List.length_cons, List.length_append] at hle ⊢; omega, ?_⟩
    rw [statements, if_neg ht]
    simp only [hs, hrest]
  | @block next read₁ ms read₂ head inside ns close hh _ hclose _ ih₁ ih₂ =>
    have hstm : Statement (ms ++ close :: (read₂ ++ rest)).head? read₁ head := hh.statement
    obtain ⟨l, tail, hread, ht⟩ := hstm.first_ne
    -- the inside ends at the closing brace, and the rest where all statements end
    obtain ⟨hle₁, hin⟩ := ih₁
      (rfl : ms ++ close :: (read₂ ++ rest) = _) rfl
      (show EndsBlock true _ by simp [EndsBlock, hclose])
    obtain ⟨hle₂, hrest⟩ := ih₂ rfl hnext hend
    have hc := expect_ok (t := (.closeBrace, .closeBrace)) hclose (read₂ ++ rest)
    subst hread
    obtain ⟨hlt, hs⟩ := statement_complete hstm (rfl :
      l :: (tail ++ (ms ++ close :: (read₂ ++ rest))) = l :: tail ++ (ms ++ close :: (read₂ ++ rest)))
    obtain rfl : ls = l :: (tail ++ (ms ++ close :: (read₂ ++ rest))) := by simp [hls]
    refine ⟨by simp only [List.length_cons, List.length_append] at hle₂ ⊢; omega, ?_⟩
    rw [statements, if_neg ht]
    cases head with
    | whole n => exact absurd rfl (hh.ne_whole n)
    | rule _ _ | atRule _ _ _ => simp only [hs, hin, hc, hrest]

/-- **Statements** are what the grammar says, up to the end of the source or of the block. -/
theorem statements_iff {inBlock : Bool} {ls : List Lexeme} {ns : List Node}
    {r : { rest : List Lexeme // rest.length ≤ ls.length }} :
    statements inBlock ls = .ok (ns, r) ↔
      ∃ read, ls = read ++ r.1 ∧ Statements r.1.head? read ns ∧ EndsBlock inBlock r.1 :=
  ⟨statements_sound, fun ⟨_, hls, hread, hend⟩ => (statements_complete hread hls rfl hend).2⟩

end Parse

/-- **The tree of a source** consists of the statements that its lexemes are. -/
theorem parse_iff {source : String} {t : Node} :
    parse source = .ok t ↔ ∃ ls ns, tokenize source = .ok ls ∧ Parse.Statements none ls ns ∧
      t = .sequence .stylesheet ns (some ⟨0, byteLength source⟩) := by
  unfold parse
  constructor
  · intro h
    split at h
    · cases h
    rename_i ls hls
    split at h
    · cases h
    rename_i ns r hns
    cases h
    obtain ⟨read, hread, hstm, hend⟩ := Parse.statements_sound hns
    have hr : r.1 = [] := by simpa [Parse.EndsBlock] using hend
    rw [hr, List.append_nil] at hread
    rw [hr] at hstm
    exact ⟨ls, ns, hls, hread ▸ hstm, rfl⟩
  · rintro ⟨ls, ns, hls, hstm, rfl⟩
    obtain ⟨hle, hns⟩ := Parse.statements_complete hstm (List.append_nil ls).symm rfl
      (show Parse.EndsBlock false [] from rfl)
    simp only [hls, hns]

end Stylesheet
