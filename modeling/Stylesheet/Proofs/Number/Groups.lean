import Stylesheet.Number.Literal
import Stylesheet.Proofs.Syntax.Shapes

/-!
# The groups of a number

The pattern of numbers has three groups: a mantissa, an exponent and a unit, of which the last two
may be missing. The text of a number is cut again, by hand, before it is read. Here the cut is shown
to be the one of the pattern: an `e` that starts an exponent has a digit behind it, and one that
starts a unit has a letter or nothing.

* `NumberGroups.Fit`: groups that the parts of the pattern describe.
* `NumberGroups.Fit.cut`: the cut of a number is that of its groups, which are unique.
* `NumberGroups.Fit.read?`: the mantissa with the exponent can be read.
-/

namespace Stylesheet

open Pattern

namespace Pattern

/-- A text of a class of characters. -/
theorem matches_oneOrMore_one_iff {p : Char → Bool} {s : List Char} :
    Matches (oneOrMore (one p)) s ↔ s ≠ [] ∧ ∀ c ∈ s, p c = true := by
  constructor
  · intro h
    refine ⟨?_, fun c hc => ?_⟩
    · rintro rfl
      rw [← matchesEmpty_iff] at h
      cases h
    · have hallowed := allows_of_mem h hc
      simpa only [oneOrMore, allows, Bool.or_self] using hallowed
  · rintro ⟨hne, h⟩
    exact matches_oneOrMore_one hne h

theorem matches_optional_iff {p : Pattern} {s : List Char} :
    Matches p.optional s ↔ Matches p s ∨ s = [] := by
  rw [Pattern.optional, matches_either_iff, matches_blank_iff]

end Pattern

/-- The groups of a number. -/
structure NumberGroups where
  mantissa : List Char
  exponent : List Char
  unit : List Char

namespace NumberGroups

/-- The text of a number. -/
def text (g : NumberGroups) : List Char := g.mantissa ++ g.exponent ++ g.unit

/-- **The parts of the pattern describe the groups.** -/
structure Fit (g : NumberGroups) : Prop where
  mantissa : Token.mantissa.Matches g.mantissa
  exponent : Token.exponent.optional.Matches g.exponent
  unit : Token.unit.optional.Matches g.unit

/-- The pattern of numbers describes what has groups. -/
theorem matches_number_iff {cs : List Char} :
    Token.number.pattern.Matches cs ↔ ∃ g : NumberGroups, g.Fit ∧ g.text = cs := by
  constructor
  · intro h
    obtain ⟨m, rest, rfl, hm, hrest⟩ := matches_inOrder_cons.1 h
    obtain ⟨e, u, rfl, he, hu⟩ := matches_inOrder_cons.1 hrest
    exact ⟨⟨m, e, u⟩, ⟨hm, he, hu⟩, List.append_assoc ..⟩
  · rintro ⟨g, hg, rfl⟩
    rw [text, List.append_assoc]
    exact matches_inOrder_cons.2 ⟨_, _, rfl, hg.mantissa,
      matches_inOrder_cons.2 ⟨_, _, rfl, hg.exponent, hg.unit⟩⟩

/-! ### The characters of the groups -/

/-- Digits, which are not missing. -/
structure Digits (ds : List Char) : Prop where
  nonempty : ds ≠ []
  digit : ∀ c ∈ ds, Token.isDigit c = true

theorem digits_iff {ds : List Char} : Token.digits.Matches ds ↔ Digits ds :=
  matches_oneOrMore_one_iff.trans ⟨fun h => ⟨h.1, h.2⟩, fun h => ⟨h.nonempty, h.digit⟩⟩

/-- A mantissa: digits, or digits behind a point with or without digits before it. -/
theorem mantissa_cases {m : List Char} (h : Token.mantissa.Matches m) :
    Digits m ∨ ∃ a b, m = a ++ '.' :: b ∧ (∀ c ∈ a, Token.isDigit c = true) ∧ Digits b := by
  rcases matches_either_iff.1 h with h | h
  · exact .inl (digits_iff.1 h)
  · obtain ⟨a, rest, rfl, ha, hrest⟩ := matches_inOrder_cons.1 h
    obtain ⟨point, b, rfl, hpoint, hb⟩ := matches_inOrder_cons.1 hrest
    obtain rfl := matches_char_iff.1 hpoint
    exact .inr ⟨a, b, rfl, fun c hc => allows_of_mem ha hc, digits_iff.1 hb⟩

/-- An exponent: its mark, a sign that may be missing, and digits. -/
structure IsExponent (mark : Char) (sign ds : List Char) : Prop where
  mark : mark = 'e' ∨ mark = 'E'
  sign : sign = [] ∨ sign = ['+'] ∨ sign = ['-']
  digits : Digits ds

theorem exponent_cases {e : List Char} (h : Token.exponent.optional.Matches e) :
    e = [] ∨ ∃ mark sign ds, e = mark :: (sign ++ ds) ∧ IsExponent mark sign ds := by
  rcases matches_optional_iff.1 h with h | rfl
  · obtain ⟨front, rest, rfl, hfront, hrest⟩ := matches_inOrder_cons.1 h
    obtain ⟨mark, rfl, hmark⟩ := matches_one_iff.1 hfront
    obtain ⟨sign, ds, rfl, hsign, hds⟩ := matches_inOrder_cons.1 hrest
    refine .inr ⟨mark, sign, ds, rfl, by simpa using hmark, ?_, digits_iff.1 hds⟩
    rcases matches_optional_iff.1 hsign with hsign | rfl
    · obtain ⟨c, rfl, hc⟩ := matches_one_iff.1 hsign
      simpa using hc
    · exact .inl rfl
  · exact .inl rfl

/-- A unit: letters or a percent sign, if it is not missing. -/
theorem unit_cases {u : List Char} (h : Token.unit.optional.Matches u) :
    u = ['%'] ∨ ∀ c ∈ u, Token.isLetter c = true := by
  rcases matches_optional_iff.1 h with h | rfl
  · rcases matches_either_iff.1 h with h | h
    · exact .inr (matches_oneOrMore_one_iff.1 h).2
    · exact .inl (matches_char_iff.1 h)
  · exact .inr nofun

theorem not_isDigit_of_isLetter {c : Char} (h : Token.isLetter c = true) :
    Token.isDigit c = false :=
  Token.isDigit_of_isNameStart (by simp [Token.isNameStart, h])

/-- Digits and letters are no signs. -/
theorem ne_sign {c : Char} (h : Token.isDigit c = true ∨ Token.isLetter c = true) :
    c ≠ '+' ∧ c ≠ '-' := by
  constructor <;> rintro rfl <;> revert h <;> decide

/-- No unit starts with a digit or a point. -/
theorem head_unit {u : List Char} (h : Token.unit.optional.Matches u) :
    ∀ c ∈ u.head?, Number.isDigitOrPoint c = false := by
  intro c hc
  have hmem : c ∈ u := List.mem_of_mem_head? hc
  rcases unit_cases h with rfl | hletters
  · obtain rfl := List.mem_singleton.1 hmem
    decide
  · have hletter := hletters c hmem
    have hdigit : Number.isDigit c = false := not_isDigit_of_isLetter hletter
    have hpoint : c ≠ '.' := by
      rintro rfl
      revert hletter
      decide
    simp [Number.isDigitOrPoint, hdigit, hpoint]

/-! ### The cut -/

/-- What a class of characters takes of a text ends where the class does. -/
theorem takeWhile_append {p : Char → Bool} {s t : List Char} (hs : ∀ c ∈ s, p c = true)
    (ht : ∀ c ∈ t.head?, p c = false) :
    (s ++ t).takeWhile p = s ∧ (s ++ t).dropWhile p = t := by
  rw [List.takeWhile_append_of_pos hs, List.dropWhile_append_of_pos hs]
  cases t with
  | nil => exact ⟨List.append_nil s, rfl⟩
  | cons c t =>
    have hc : ¬ p c = true := by
      rw [Bool.not_eq_true]
      exact ht c rfl
    rw [List.takeWhile_cons_of_neg hc, List.dropWhile_cons_of_neg hc]
    exact ⟨List.append_nil s, rfl⟩

/-- An exponent is cut off in front of a unit. -/
theorem cutExponent_append {mark : Char} {sign ds u : List Char} (h : IsExponent mark sign ds)
    (hu : ∀ c ∈ u.head?, Number.isDigit c = false) :
    Number.cutExponent (mark :: (sign ++ ds) ++ u) = (mark :: (sign ++ ds), u) := by
  obtain ⟨d, ds', rfl⟩ := List.exists_cons_of_ne_nil h.digits.nonempty
  obtain ⟨htake, hdrop⟩ := takeWhile_append (p := Number.isDigit) h.digits.digit hu
  have hmark : (mark == 'e' || mark == 'E') = true := by simpa using h.mark
  have hd : Number.isDigit d = true := h.digits.digit d List.mem_cons_self
  have hsign : (d == '+' || d == '-') = false := by simpa using ne_sign (.inl hd)
  rw [List.cons_append] at htake hdrop
  -- without a sign the first digit stands where a sign is looked for
  rcases h.sign with rfl | rfl | rfl <;>
    simp [Number.cutExponent, hmark, hsign, htake, hdrop]

/-- A unit is no exponent, even if it starts with an `e`. -/
theorem cutExponent_unit {u : List Char} (h : Token.unit.optional.Matches u) :
    Number.cutExponent u = ([], u) := by
  cases u with
  | nil => rfl
  | cons mark rest =>
    by_cases hmark : (mark == 'e' || mark == 'E') = true
    · -- letters stand behind the `e`, so there is neither a sign nor a digit
      have hletters : ∀ c ∈ mark :: rest, Token.isLetter c = true := by
        rcases unit_cases h with hpercent | hletters
        · obtain ⟨rfl, -⟩ := List.cons.inj hpercent
          cases hmark
        · exact hletters
      cases rest with
      | nil => simp [Number.cutExponent, hmark]
      | cons c rest =>
        have hc : Token.isLetter c = true := hletters c (by simp)
        have hdigit : Number.isDigit c = false := not_isDigit_of_isLetter hc
        have hsign : (c == '+' || c == '-') = false := by simpa using ne_sign (.inr hc)
        simp [Number.cutExponent, hmark, hsign, hdigit]
    · simp [Number.cutExponent, hmark]

/-- An exponent can be read behind its mark. -/
theorem IsExponent.exponent? {mark : Char} {sign ds : List Char} (h : IsExponent mark sign ds) :
    (Number.exponent? (sign ++ ds)).isSome = true := by
  have hds : (!ds.isEmpty && ds.all Number.isDigit) = true := by
    rw [Bool.and_eq_true, List.all_eq_true]
    exact ⟨by simpa using h.digits.nonempty, h.digits.digit⟩
  have hsign : ∀ c ∈ ds.head?, c ≠ '+' ∧ c ≠ '-' := fun c hc =>
    ne_sign (.inl (h.digits.digit c (List.mem_of_mem_head? hc)))
  rcases h.sign with rfl | rfl | rfl
  · rw [List.nil_append]
    unfold Number.exponent?
    split
    · exact absurd rfl (hsign '-' rfl).2
    · exact absurd rfl (hsign '+' rfl).1
    · dsimp only
      rw [if_pos hds]
      rfl
  · simp [Number.exponent?, hds]
  · simp [Number.exponent?, hds]

namespace Fit

variable {g : NumberGroups}

/-- A mantissa has digits and points only. -/
theorem mantissa_chars (h : g.Fit) : ∀ c ∈ g.mantissa, Number.isDigitOrPoint c = true := by
  have hdigit {c : Char} (hc : Token.isDigit c = true) : Number.isDigitOrPoint c = true :=
    Bool.or_eq_true_iff.2 (.inl hc)
  intro c hc
  rcases mantissa_cases h.mantissa with hds | ⟨a, b, heq, ha, hb⟩
  · exact hdigit (hds.digit c hc)
  · rw [heq] at hc
    rcases List.mem_append.1 hc with hc | hc
    · exact hdigit (ha c hc)
    · rcases List.mem_cons.1 hc with rfl | hc
      · rfl
      · exact hdigit (hb.digit c hc)

/-- The exponent with the unit, or the unit if there is no exponent, starts with neither. -/
theorem head_behind (h : g.Fit) :
    ∀ c ∈ (g.exponent ++ g.unit).head?, Number.isDigitOrPoint c = false := by
  intro c hc
  rcases exponent_cases h.exponent with heq | ⟨mark, sign, ds, heq, hexponent⟩
  · rw [heq, List.nil_append] at hc
    exact head_unit h.unit c hc
  · rw [heq] at hc
    obtain rfl : mark = c := by simpa using hc
    rcases hexponent.mark with rfl | rfl <;> rfl

/-- The mantissa stands before the first character that is no digit and no point. -/
theorem split (h : g.Fit) : g.text.takeWhile Number.isDigitOrPoint = g.mantissa ∧
    g.text.dropWhile Number.isDigitOrPoint = g.exponent ++ g.unit := by
  rw [text, List.append_assoc]
  exact takeWhile_append h.mantissa_chars h.head_behind

theorem cutExponent (h : g.Fit) :
    Number.cutExponent (g.exponent ++ g.unit) = (g.exponent, g.unit) := by
  rcases exponent_cases h.exponent with heq | ⟨mark, sign, ds, heq, hexponent⟩
  · rw [heq]
    exact cutExponent_unit h.unit
  · rw [heq]
    exact cutExponent_append hexponent fun c hc =>
      (Bool.or_eq_false_iff.1 (head_unit h.unit c hc)).1

/-- **The cut of a number** is that of its groups. -/
theorem cut (h : g.Fit) : Number.cut g.text = (g.mantissa ++ g.exponent, g.unit) := by
  obtain ⟨htake, hdrop⟩ := h.split
  unfold Number.cut
  rw [htake, hdrop, h.cutExponent]

/-- **The groups of a number are unique.** -/
theorem unique (h : g.Fit) {g' : NumberGroups} (h' : g'.Fit) (htext : g'.text = g.text) :
    g' = g := by
  -- the text gives the mantissa, the cut gives the unit, and the exponent is what is left
  have hmantissa : g'.mantissa = g.mantissa := by rw [← h'.split.1, htext, h.split.1]
  have hcut : (g'.mantissa ++ g'.exponent, g'.unit) = (g.mantissa ++ g.exponent, g.unit) := by
    rw [← h'.cut, htext, h.cut]
  obtain ⟨hfront, hunit⟩ := Prod.mk.inj hcut
  rw [hmantissa] at hfront
  have hexponent : g'.exponent = g.exponent := List.append_cancel_left hfront
  obtain ⟨m, e, u⟩ := g
  obtain ⟨m', e', u'⟩ := g'
  exact congr (congr (congrArg NumberGroups.mk hmantissa) hexponent) hunit

end Fit

/-! ### Reading -/

/-- What stands behind the digits of a mantissa starts with no digit. -/
theorem head_exponent {e : List Char} (h : Token.exponent.optional.Matches e) :
    ∀ c ∈ e.head?, Number.isDigit c = false := by
  intro c hc
  rcases exponent_cases h with rfl | ⟨mark, sign, ds, rfl, hexponent⟩
  · cases hc
  · obtain rfl : mark = c := by simpa using hc
    rcases hexponent.mark with rfl | rfl <;> rfl

theorem decimal?_digits {m e : List Char} (hm : Digits m)
    (he : Token.exponent.optional.Matches e) : (Number.decimal? (m ++ e)).isSome = true := by
  obtain ⟨htake, hdrop⟩ := takeWhile_append (p := Number.isDigit) hm.digit (head_exponent he)
  have hne := hm.nonempty
  unfold Number.decimal?
  simp only [htake, hdrop]
  rcases exponent_cases he with rfl | ⟨mark, sign, ds, rfl, hexponent⟩
  · simp [hne]
  · rcases hexponent.mark with rfl | rfl <;> simp [hne, hexponent.exponent?]

theorem decimal?_point {a b e : List Char} (ha : ∀ c ∈ a, Token.isDigit c = true) (hb : Digits b)
    (he : Token.exponent.optional.Matches e) :
    (Number.decimal? (a ++ '.' :: b ++ e)).isSome = true := by
  -- the digits before the point end at it, those behind it at the exponent
  obtain ⟨htake, hdrop⟩ := takeWhile_append (p := Number.isDigit) hb.digit (head_exponent he)
  obtain ⟨htake', hdrop'⟩ := takeWhile_append (p := Number.isDigit) (t := '.' :: (b ++ e)) ha <| by
    intro c hc
    obtain rfl : '.' = c := by simpa using hc
    rfl
  have hne := hb.nonempty
  rw [List.append_assoc, List.cons_append]
  unfold Number.decimal?
  simp only [htake', hdrop', htake, hdrop]
  rcases exponent_cases he with rfl | ⟨mark, sign, ds, rfl, hexponent⟩
  · simp [hne]
  · rcases hexponent.mark with rfl | rfl <;> simp [hne, hexponent.exponent?]

/-- **The mantissa with the exponent** can be read. -/
theorem Fit.read? {g : NumberGroups} (h : g.Fit) :
    ∃ x, Number.read? (g.mantissa ++ g.exponent) = some x := by
  have hdecimal : (Number.decimal? (g.mantissa ++ g.exponent)).isSome = true := by
    rcases mantissa_cases h.mantissa with hm | ⟨a, b, hm, ha, hb⟩
    · exact decimal?_digits hm h.exponent
    · rw [hm]
      exact decimal?_point ha hb h.exponent
  obtain ⟨d, hd⟩ := Option.isSome_iff_exists.1 hdecimal
  exact ⟨Number.nearest d, by rw [Number.read?, hd, Option.map_some]⟩

end NumberGroups

/-! ### Literals -/

/-- **How a number is read**: its groups are unique, its cut puts the mantissa and the exponent in
front and the unit behind, and what is in front can be read. -/
structure Number.Reads (text : String) (g : NumberGroups) : Prop where
  fit : g.Fit
  spelled : g.text = text.toList
  unique : ∀ g' : NumberGroups, g'.Fit → g'.text = text.toList → g' = g
  cut : Number.cut text.toList = (g.mantissa ++ g.exponent, g.unit)
  literal : ∃ x, Number.read? (g.mantissa ++ g.exponent) = some x ∧
    Number.literal? text = some (x, if g.unit = [] then none else some (String.ofList g.unit))

/-- **A text of the pattern of numbers** is read by its groups. -/
theorem Number.reads_of_matches {text : String} (h : Token.number.pattern.Matches text.toList) :
    ∃ g, Number.Reads text g := by
  obtain ⟨g, hg, htext⟩ := NumberGroups.matches_number_iff.1 h
  have hcut : Number.cut text.toList = (g.mantissa ++ g.exponent, g.unit) := by rw [← htext, hg.cut]
  obtain ⟨x, hx⟩ := hg.read?
  refine ⟨g, hg, htext, fun g' hg' htext' => hg.unique hg' (htext'.trans htext.symm), hcut, x, hx, ?_⟩
  unfold Number.literal?
  rw [hcut]
  dsimp only
  rw [hx, Option.map_some]
  simp only [List.isEmpty_iff]

end Stylesheet
