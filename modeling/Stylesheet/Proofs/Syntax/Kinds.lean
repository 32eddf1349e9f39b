import Stylesheet.Syntax.Token

/-!
# One kind for each text

No text is of two kinds of token. The first character settles the kind, but for six characters
that start texts of several kinds, where the next one does: a slash, a point, an equals sign, a
dash, a hash sign and an exclamation mark.

* `first`: whether a text of a pattern may start with a character.
* `kindOf`: the only kind that a text can be of, by its first two characters.
* `eq_of_matches`: no text is of two kinds.
-/

namespace Stylesheet

namespace Pattern

/-- Whether a text of the pattern may start with the character. -/
def first (c : Char) : Pattern → Bool
  | never | blank => false
  | one p => p c
  | seq p q => p.first c || (p.matchesEmpty && q.first c)
  | either p q => p.first c || q.first c
  | many p => p.first c

theorem first_of_matches {p : Pattern} {c : Char} {s : List Char} (h : Matches p (c :: s)) :
    p.first c = true := by
  induction p generalizing s with
  | never => exact absurd h not_matches_never
  | blank => cases matches_blank_iff.1 h
  | one p =>
    obtain ⟨d, hd, hp⟩ := matches_one_iff.1 h
    obtain ⟨rfl, -⟩ := List.cons.inj hd
    exact hp
  | seq p q ihp ihq =>
    obtain ⟨a, b, hab, ha, hb⟩ := matches_seq_iff.1 h
    rw [first, Bool.or_eq_true, Bool.and_eq_true]
    cases a with
    | nil =>
      rw [List.nil_append] at hab
      exact .inr ⟨(matchesEmpty_iff p).2 ha, ihq (hab ▸ hb)⟩
    | cons d a =>
      obtain ⟨rfl, -⟩ := List.cons.inj hab
      exact .inl (ihp ha)
  | either p q ihp ihq =>
    rw [first, Bool.or_eq_true]
    exact (matches_either_iff.1 h).imp ihp ihq
  | many p ih =>
    obtain ⟨a, -, -, ha, -⟩ := matches_many_cons.1 h
    exact ih ha

/-- A text ends behind its first character, or its second starts what may follow the first. -/
theorem second_of_matches {p : Pattern} {c : Char} {s : List Char} (h : Matches p (c :: s)) :
    (s = [] ∧ (p.after c).matchesEmpty = true) ∨
      ∃ d s', s = d :: s' ∧ (p.after c).first d = true := by
  have hafter := (matches_after c p s).2 h
  cases s with
  | nil => exact .inl ⟨rfl, (matchesEmpty_iff _).2 hafter⟩
  | cons d s => exact .inr ⟨d, s, rfl, first_of_matches hafter⟩

end Pattern

namespace Token

open Pattern

/-- The only kind that a text can be of, by its first two characters. -/
def kindOf : List Char → Option Token
  | [] => none
  | c :: s =>
      if isBlank c then some space
      else if isDigit c then some number
      else if isNameStart c then some ident
      else match c, s with
        | '$', _ => some .variable
        | '@', _ => some atKeyword
        | '"', _ => some stringDouble
        | '\'', _ => some stringSingle
        | ':', _ => some colon
        | ';', _ => some semicolon
        | ',', _ => some comma
        | '\x7b', _ => some openBrace
        | '\x7d', _ => some closeBrace
        | '(', _ => some openParen
        | ')', _ => some closeParen
        | '/', '/' :: _ => some lineComment
        | '/', '*' :: _ => some blockComment
        | '#', s => some (if s.head? = some '\x7b' then interpolationStart else hash)
        | '!', s => some (if s.head? = some '=' then operator else flag)
        | '.', [] => some delimiter
        | '.', _ => some number
        | '=', [] => some delimiter
        | '-', _ :: _ => some ident
        | '&', _ | '[', _ | ']', _ | '~', _ | '|', _ | '^', _ => some delimiter
        | _, _ => some operator

/-! ### Classes of first characters -/

theorem isBlank_of_isDigit {c : Char} (h : isDigit c = true) : isBlank c = false := by
  rw [Bool.eq_false_iff]
  intro hb
  simp only [isBlank, Bool.or_eq_true, beq_iff_eq] at hb
  rcases hb with (((rfl | rfl) | rfl) | rfl) | rfl <;> revert h <;> decide

theorem isBlank_of_isNameStart {c : Char} (h : isNameStart c = true) : isBlank c = false := by
  rw [Bool.eq_false_iff]
  intro hb
  simp only [isBlank, Bool.or_eq_true, beq_iff_eq] at hb
  rcases hb with (((rfl | rfl) | rfl) | rfl) | rfl <;> revert h <;> decide

theorem isDigit_of_isNameStart {c : Char} (h : isNameStart c = true) : isDigit c = false := by
  rw [Bool.eq_false_iff]
  intro hd
  simp only [isDigit, isNameStart, isLetter, isBeyondAscii, Bool.or_eq_true, Bool.and_eq_true,
    decide_eq_true_eq, beq_iff_eq, Char.le_def, UInt32.le_iff_toNat_le] at hd h
  rcases h with ((h | h) | rfl) | h
  · have : ('a' : Char).val.toNat = 97 := rfl
    have : ('9' : Char).val.toNat = 57 := rfl
    omega
  · have : ('A' : Char).val.toNat = 65 := rfl
    have : ('9' : Char).val.toNat = 57 := rfl
    omega
  · exact absurd hd (by decide)
  · have : ('9' : Char).val.toNat = 57 := rfl
    have : c.toNat = c.val.toNat := rfl
    omega

/-! ### The kind of a text -/

/-- No kind has the empty text. -/
theorem not_matches_nil (t : Token) : ¬ t.pattern.Matches [] := by
  rw [← matchesEmpty_iff]
  cases t <;> decide

/-- **Two characters tell the kind.** -/
theorem kindOf_of_matches {t : Token} {s : List Char} (h : t.pattern.Matches s) :
    kindOf s = some t := by
  obtain ⟨c, s, rfl⟩ := List.exists_cons_of_ne_nil fun (hs : s = []) => not_matches_nil t (hs ▸ h)
  have hc := first_of_matches h
  cases t
  case space =>
    simp [pattern, oneOrMore, first, matchesEmpty] at hc
    simp [kindOf, hc]
  -- a mark that starts no text of another kind
  case «variable» | atKeyword | stringDouble | stringSingle | colon | semicolon | comma | openBrace
      | closeBrace | openParen | closeParen =>
    simp [pattern, markedName, quoted, inOrder, char, first, matchesEmpty] at hc
    subst hc
    rfl
  case lineComment | blockComment | interpolationStart =>
    simp [pattern, literal, inOrder, char, first, matchesEmpty] at hc
    subst hc
    obtain ⟨-, hend⟩ | ⟨d, s, rfl, hd⟩ := second_of_matches h
    · exact absurd hend (by decide)
    · simp [pattern, literal, inOrder, char, first, matchesEmpty, after, andThen] at hd
      subst hd
      rfl
  case hash | flag =>
    simp [pattern, oneOrMore, char, first, matchesEmpty] at hc
    subst hc
    obtain ⟨-, hend⟩ | ⟨d, s, rfl, hd⟩ := second_of_matches h
    · exact absurd hend (by decide)
    · refine congrArg some (if_neg fun he => ?_)
      obtain rfl := Option.some.inj he
      exact absurd hd (by decide)
  case number =>
    simp [pattern, mantissa, digits, oneOrMore, inOrder, char, first, matchesEmpty] at hc
    rcases hc with hc | rfl
    · simp [kindOf, isBlank_of_isDigit hc, hc]
    · obtain ⟨-, hend⟩ | ⟨d, s, rfl, hd⟩ := second_of_matches h
      · exact absurd hend (by decide)
      · rfl
  case ident =>
    simp [pattern, inOrder, Pattern.optional, char, first, matchesEmpty] at hc
    rcases hc with rfl | hc
    · obtain ⟨-, hend⟩ | ⟨d, s, rfl, hd⟩ := second_of_matches h
      · exact absurd hend (by decide)
      · rfl
    · simp [kindOf, isBlank_of_isNameStart hc, isDigit_of_isNameStart hc, hc]
  case operator =>
    simp [pattern, anyOf, literal, inOrder, char, first, matchesEmpty] at hc
    obtain ⟨rfl, hend⟩ | ⟨d, s, rfl, hd⟩ := second_of_matches h
    · rcases hc with rfl | rfl | rfl | rfl | rfl | rfl | rfl | rfl | rfl | rfl | rfl
      all_goals first | rfl | exact absurd hend (by decide)
    · by_cases hbang : c = '!'
      · subst hbang
        simp [pattern, anyOf, literal, inOrder, char, first, matchesEmpty, after, orElse,
          andThen] at hd
        subst hd
        rfl
      · rcases hc with rfl | rfl | rfl | rfl | rfl | rfl | rfl | rfl | rfl | rfl | rfl
        all_goals first | rfl | exact absurd rfl hbang | cases hd
  case delimiter =>
    simp [pattern, first] at hc
    obtain ⟨rfl, -⟩ | ⟨d, s, rfl, hd⟩ := second_of_matches h
    · rcases hc with rfl | rfl | rfl | rfl | rfl | rfl | rfl | rfl
      all_goals rfl
    -- nothing follows a delimiter
    · rcases hc with rfl | rfl | rfl | rfl | rfl | rfl | rfl | rfl
      all_goals cases hd

/-- **No text is of two kinds.** -/
theorem eq_of_matches {t u : Token} {s : List Char} (ht : t.pattern.Matches s)
    (hu : u.pattern.Matches s) : t = u :=
  Option.some.inj ((kindOf_of_matches ht).symm.trans (kindOf_of_matches hu))

end Token
end Stylesheet
