/-!
# Patterns of text

A pattern is a regular expression over characters, and `Matches` says which texts it describes.
Matching goes one character at a time: `after c` describes what may follow a leading `c`.

* `matchesEmpty_iff`: the emptiness test decides whether the empty text is described.
* `matches_after`: a text is described after `c` exactly when it is described with `c` in front.
* `matches_iff_run`: hence reading a text character by character decides the pattern.
-/

namespace Stylesheet

/-- A regular expression over characters. -/
inductive Pattern where
  /-- Describes no text. -/
  | never
  /-- Describes the empty text. -/
  | blank
  /-- Describes the one-character texts whose character is accepted. -/
  | one (accepts : Char → Bool)
  /-- A text of the first followed by a text of the second. -/
  | seq (first second : Pattern)
  /-- A text of either. -/
  | either (left right : Pattern)
  /-- Any number of texts of the inner pattern, one after the other. -/
  | many (inner : Pattern)

namespace Pattern

/-- The texts that a pattern describes. -/
inductive Matches : Pattern → List Char → Prop where
  | blank : Matches .blank []
  | one {p : Char → Bool} {c : Char} : p c = true → Matches (.one p) [c]
  | seq {p q : Pattern} {s t : List Char} : Matches p s → Matches q t → Matches (.seq p q) (s ++ t)
  | left {p q : Pattern} {s : List Char} : Matches p s → Matches (.either p q) s
  | right {p q : Pattern} {s : List Char} : Matches q s → Matches (.either p q) s
  | done {p : Pattern} : Matches (.many p) []
  | more {p : Pattern} {s t : List Char} :
      Matches p s → Matches (.many p) t → Matches (.many p) (s ++ t)

/-! ### Building patterns -/

/-- The given character. -/
def char (c : Char) : Pattern := one (· == c)

/-- The patterns one after the other. -/
def inOrder : List Pattern → Pattern
  | [] => blank
  | [p] => p
  | p :: ps => seq p (inOrder ps)

/-- Any one of the patterns. -/
def anyOf : List Pattern → Pattern
  | [] => never
  | [p] => p
  | p :: ps => either p (anyOf ps)

/-- The given text. -/
def literal (s : String) : Pattern := inOrder (s.toList.map char)

/-- At least one repetition. -/
def oneOrMore (p : Pattern) : Pattern := seq p (many p)

/-- The pattern or nothing. -/
def optional (p : Pattern) : Pattern := either p blank

/-! ### Matching -/

/-- Whether the empty text is described. -/
def matchesEmpty : Pattern → Bool
  | never => false
  | blank => true
  | one _ => false
  | seq p q => p.matchesEmpty && q.matchesEmpty
  | either p q => p.matchesEmpty || q.matchesEmpty
  | many _ => true

/-- `seq`, dropping parts that describe nothing or only the empty text. -/
def andThen : Pattern → Pattern → Pattern
  | never, _ => never
  | blank, q => q
  | _, never => never
  | p, q => seq p q

/-- `either`, dropping parts that describe nothing. -/
def orElse : Pattern → Pattern → Pattern
  | never, q => q
  | p, never => p
  | p, q => either p q

/-- What may follow a leading `c`. -/
def after (c : Char) : Pattern → Pattern
  | never => never
  | blank => never
  | one p => if p c then blank else never
  | seq p q =>
      let rest := (p.after c).andThen q
      if p.matchesEmpty then rest.orElse (q.after c) else rest
  | either p q => (p.after c).orElse (q.after c)
  | many p => (p.after c).andThen (many p)

/-- What may follow a leading text. -/
def run (p : Pattern) (s : List Char) : Pattern := s.foldl (fun p c => p.after c) p

theorem not_matches_never {s : List Char} : ¬ Matches never s := nofun

theorem matches_blank_iff {s : List Char} : Matches blank s ↔ s = [] :=
  ⟨fun h => by cases h; rfl, fun h => h ▸ .blank⟩

theorem matches_one_iff {p : Char → Bool} {s : List Char} :
    Matches (one p) s ↔ ∃ c, s = [c] ∧ p c = true :=
  ⟨fun h => by cases h with | one hc => exact ⟨_, rfl, hc⟩, fun ⟨_, h, hc⟩ => h ▸ .one hc⟩

theorem matches_seq_iff {p q : Pattern} {s : List Char} :
    Matches (seq p q) s ↔ ∃ a b, s = a ++ b ∧ Matches p a ∧ Matches q b :=
  ⟨fun h => by cases h with | seq ha hb => exact ⟨_, _, rfl, ha, hb⟩,
    fun ⟨_, _, h, ha, hb⟩ => h ▸ .seq ha hb⟩

theorem matches_either_iff {p q : Pattern} {s : List Char} :
    Matches (either p q) s ↔ Matches p s ∨ Matches q s :=
  ⟨fun h => by
    cases h with
    | left h => exact .inl h
    | right h => exact .inr h,
    fun h => h.elim .left .right⟩

theorem matches_andThen {p q : Pattern} {s : List Char} :
    Matches (p.andThen q) s ↔ Matches (seq p q) s := by
  rw [matches_seq_iff]
  unfold andThen
  split
  · simp [not_matches_never]
  · constructor
    · exact fun h => ⟨[], s, rfl, .blank, h⟩
    · rintro ⟨a, b, rfl, ha, hb⟩
      rw [matches_blank_iff.1 ha]
      exact hb
  · simp [not_matches_never]
  · rw [matches_seq_iff]

theorem matches_orElse {p q : Pattern} {s : List Char} :
    Matches (p.orElse q) s ↔ Matches p s ∨ Matches q s := by
  unfold orElse
  split
  · simp [not_matches_never]
  · simp [not_matches_never]
  · exact matches_either_iff

/-- **The emptiness test** decides whether the empty text is described. -/
theorem matchesEmpty_iff (p : Pattern) : p.matchesEmpty = true ↔ Matches p [] := by
  induction p with
  | never => simp [matchesEmpty, not_matches_never]
  | blank => simp [matchesEmpty, matches_blank_iff]
  | one p => simp [matchesEmpty, matches_one_iff]
  | seq p q ihp ihq =>
    simp only [matchesEmpty, Bool.and_eq_true, ihp, ihq, matches_seq_iff]
    constructor
    · exact fun ⟨hp, hq⟩ => ⟨[], [], rfl, hp, hq⟩
    · rintro ⟨a, b, h, hp, hq⟩
      obtain ⟨rfl, rfl⟩ := List.append_eq_nil_iff.1 h.symm
      exact ⟨hp, hq⟩
  | either p q ihp ihq => simp [matchesEmpty, ihp, ihq, matches_either_iff]
  | many p _ => simp [matchesEmpty, Matches.done]

/-- A repetition that starts with `c` starts with a text of the inner pattern that does. -/
theorem matches_many_cons {p : Pattern} {c : Char} {s : List Char} :
    Matches (many p) (c :: s) ↔
      ∃ a b, s = a ++ b ∧ Matches p (c :: a) ∧ Matches (many p) b := by
  constructor
  · intro h
    generalize hm : many p = m at h
    generalize ht : c :: s = t at h
    induction h with
    | blank => cases hm
    | one _ => cases hm
    | seq _ _ _ _ => cases hm
    | left _ _ => cases hm
    | right _ _ => cases hm
    | done => cases ht
    | @more q a b ha hb _ ihb =>
      cases hm
      cases a with
      | nil => exact ihb rfl ht
      | cons d a =>
        simp only [List.cons_append, List.cons.injEq] at ht
        obtain ⟨rfl, rfl⟩ := ht
        exact ⟨a, b, rfl, ha, hb⟩
  · rintro ⟨a, b, rfl, ha, hb⟩
    simpa using Matches.more ha hb

/-- **One character.** What follows a leading `c` is what is described with `c` in front. -/
theorem matches_after (c : Char) (p : Pattern) (s : List Char) :
    Matches (p.after c) s ↔ Matches p (c :: s) := by
  induction p generalizing s with
  | never => simp [after, not_matches_never]
  | blank => simp [after, not_matches_never, matches_blank_iff]
  | one p =>
    simp only [after, matches_one_iff]
    split
    · next h =>
      rw [matches_blank_iff]
      exact ⟨fun hs => ⟨c, by rw [hs], h⟩, fun ⟨_, hs, _⟩ => (List.cons.inj hs).2⟩
    · next h =>
      simp only [not_matches_never, List.cons.injEq, false_iff, not_exists]
      rintro d ⟨⟨rfl, _⟩, hd⟩
      exact h hd
  | either p q ihp ihq => simp [after, matches_orElse, matches_either_iff, ihp, ihq]
  | many p ih =>
    simp only [after, matches_andThen, matches_seq_iff, matches_many_cons, ih]
  | seq p q ihp ihq =>
    have hsplit : Matches (seq p q) (c :: s) ↔
        (∃ a b, s = a ++ b ∧ Matches p (c :: a) ∧ Matches q b) ∨
          (Matches p [] ∧ Matches q (c :: s)) := by
      rw [matches_seq_iff]
      constructor
      · rintro ⟨a, b, h, ha, hb⟩
        cases a with
        | nil => exact .inr ⟨ha, by rw [h]; exact hb⟩
        | cons d a =>
          simp only [List.cons_append, List.cons.injEq] at h
          obtain ⟨rfl, rfl⟩ := h
          exact .inl ⟨a, b, rfl, ha, hb⟩
      · rintro (⟨a, b, rfl, ha, hb⟩ | ⟨ha, hb⟩)
        · exact ⟨c :: a, b, rfl, ha, hb⟩
        · exact ⟨[], c :: s, rfl, ha, hb⟩
    simp only [after]
    split
    · next h =>
      rw [matchesEmpty_iff] at h
      rw [matches_orElse, matches_andThen, matches_seq_iff, hsplit, ihq]
      simp only [ihp, h, true_and]
    · next h =>
      rw [matchesEmpty_iff] at h
      rw [matches_andThen, matches_seq_iff, hsplit]
      simp only [ihp, h, false_and, or_false]

theorem matches_run (p : Pattern) (s t : List Char) : Matches (p.run s) t ↔ Matches p (s ++ t) := by
  induction s generalizing p with
  | nil => rfl
  | cons c s ih =>
    rw [show p.run (c :: s) = (p.after c).run s from rfl, ih, matches_after]
    rfl

/-- **Reading decides.** A text is described exactly when nothing need follow it. -/
theorem matches_iff_run (p : Pattern) (s : List Char) :
    Matches p s ↔ (p.run s).matchesEmpty = true := by
  rw [matchesEmpty_iff, matches_run, List.append_nil]

end Pattern
end Stylesheet
