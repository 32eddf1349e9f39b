import Stylesheet.Expr.OfNode

/-!
# Elements and arguments

The same items are read in two ways: as a list with commas between its elements, and as the
arguments of a call. If the list takes all items, the arguments are its elements and none of them
has a keyword.

* `arguments_eq`: the arguments of items that are a list.
* `expression_of_finished`: the expression of such items.
-/

namespace Stylesheet
namespace Expr

/-! ### Single operands -/

theorem operand_skip (its : List Item) : operand its = operand (skip its) := by
  induction its with
  | nil => rfl
  | cons i its ih =>
    cases i with
    | space => exact ih
    | _ => rfl

/-- An operand behind which no element starts stands alone. -/
theorem spaced_of_operand {its rest : List Item} {e : Expr} (h : operand its = (e, rest))
    (hrest : ∀ i ∈ (skip rest).head?, i.startsElement = false) : spaced its = (e, rest) := by
  have hoperator : operator? rest = none := by
    unfold operator?
    split
    · next text behind hs =>
      rw [hs] at hrest
      cases hrest _ rfl
    · rfl
  have hchain : chain rest = ([], rest) := by
    rw [chain]
    split
    · rfl
    · next hs =>
      rw [hoperator] at hs
      cases hs
  have hoperation : operation its = (e, rest) := by
    rw [operation, h]
    simp only [hchain]
    rfl
  have helements : elements e rest = ([e], rest) := by
    rw [elements]
    split
    · rfl
    · next i behind hs =>
      rw [hs] at hrest
      have hi : i.startsElement = false := hrest i rfl
      cases i with
      | space | comma | colon => rfl
      | op text | «variable» name | atom e printed | member e printed => cases hi
  simp only [spaced, hoperation, helements]

/-- A single item that has a value is the whole expression. -/
theorem expression_atom (e : Expr) (printed : String) : expression [.atom e printed] = e := by
  have hspaced : spaced [.atom e printed] = (e, []) := spaced_of_operand rfl nofun
  have helements : commaElements [.atom e printed] = ([e], false, []) := by
    rw [commaElements]
    simp [skip, hspaced]
  simp [expression, commaList, helements, closed, skip]

/-! ### Lists as arguments -/

/-- A keyword is a variable with a colon behind it. -/
theorem keyword_eq_none {its : List Item} (h : ∀ behind, skip (spaced its).2 ≠ .colon :: behind) :
    keyword its = (none, its) := by
  unfold keyword
  split
  · next name rest hvariable =>
    split
    · next behind hcolon =>
      have hoperand : operand its = (.variable name, rest) := by
        rw [operand_skip, hvariable]
        rfl
      have hspaced : spaced its = (.variable name, rest) := by
        refine spaced_of_operand hoperand fun i hi => ?_
        rw [hcolon] at hi
        cases hi
        rfl
      rw [hspaced] at h
      exact absurd hcolon (h behind)
    · rfl
  · rfl

/-- The elements of a list take all of its items. -/
def Finished (its : List Item) : Prop := skip (commaElements its).2.2 = []

theorem skip_skip (its : List Item) : skip (skip its) = skip its := by
  induction its with
  | nil => rfl
  | cons i its ih =>
    cases i with
    | space => exact ih
    | _ => rfl

/-- **The arguments** of items that are a list are its elements. -/
theorem arguments_eq (its : List Item) (h : Finished its) :
    arguments false its = (commaElements its).1.map fun e => (none, e) := by
  unfold Finished at h
  fun_induction commaElements its with
  | case1 its hskip =>
    rw [arguments]
    simp [hskip]
  | case2 its rest hskip => cases h
  | case3 its behind hcomma more comma left helements hblank hcolon ih =>
    have hkeyword : keyword its = (none, its) := by
      refine keyword_eq_none fun b hb => ?_
      rw [hcomma] at hb
      cases hb
    rw [helements] at ih
    rw [arguments]
    split
    · next hs => exact absurd hs hblank
    · simp only [hkeyword]
      rw [if_neg (by simp)]
      split
      · next hs => rw [hkeyword, hcomma] at hs; cases hs
      · next b hs =>
        rw [hkeyword, hcomma] at hs
        cases hs
        rw [List.map_cons, ← ih h]
        rfl
      · next i b hi hs =>
        rw [hkeyword, hcomma] at hs
        cases hs
        exact absurd rfl hi
  | case4 its hblank hcolon hcomma =>
    have hend : skip (spaced its).2 = [] := by
      rw [← skip_skip]
      exact h
    have hkeyword : keyword its = (none, its) := by
      refine keyword_eq_none fun b hb => ?_
      rw [hend] at hb
      cases hb
    rw [arguments]
    split
    · next hs => exact absurd hs hblank
    · simp only [hkeyword]
      rw [if_neg (by simp)]
      split
      · rfl
      · next b hs => rw [hkeyword, hend] at hs; cases hs
      · next i b hi hs => rw [hkeyword, hend] at hs; cases hs

/-- A single item in front of a comma is an argument, and the rest are the others. -/
theorem arguments_atom (e : Expr) (printed : String) (its : List Item) :
    arguments false (.atom e printed :: .comma :: its) = (none, e) :: arguments false its := by
  have hspaced : spaced (.atom e printed :: .comma :: its) = (e, .comma :: its) := by
    refine spaced_of_operand rfl ?_
    intro i hi
    cases hi
    rfl
  have hkeyword : keyword (.atom e printed :: .comma :: its) = (none, .atom e printed :: .comma :: its) := rfl
  rw [arguments]
  simp only [skip, hkeyword]
  rw [if_neg (by simp)]
  split
  · next hs => rw [hkeyword, hspaced] at hs; cases hs
  · next behind hs =>
    rw [hkeyword, hspaced] at hs
    cases hs
    rw [hspaced]
    rfl
  · next i behind hi hs =>
    rw [hkeyword, hspaced] at hs
    cases hs
    exact absurd rfl hi

/-! ### The expression of a list -/

/-- A comma stands between two elements, and none where there is no element. -/
theorem comma_of_elements (its : List Item) :
    ((commaElements its).1 = [] → (commaElements its).2.1 = false) ∧
      (1 < (commaElements its).1.length → (commaElements its).2.1 = true) := by
  fun_cases commaElements its <;> simp

/-- **The expression of a list:** its only element if there is no comma, and else the list. -/
theorem expression_of_finished {its : List Item} (h : Finished its) :
    (∃ e, commaElements its = ([e], false, (commaElements its).2.2) ∧ expression its = e) ∨
      ((commaElements its).1.length = 1 → (commaElements its).2.1 = true) ∧
        expression its = .list (commaElements its).1
          (if (commaElements its).2.1 then .comma else .space) := by
  unfold Finished at h
  unfold expression commaList
  rcases hits : commaElements its with ⟨es, comma, rest⟩
  rw [hits] at h
  split
  · next e left he =>
    cases he
    exact .inl ⟨e, rfl, by simp [closed, h]⟩
  · next es' comma' left hne he =>
    cases he
    refine .inr ⟨fun hlength => ?_, by simp [closed, h]⟩
    obtain ⟨e, rfl⟩ := List.length_eq_one_iff.1 hlength
    cases comma with
    | true => rfl
    | false => exact (hne e rfl rfl).elim

/-- Items that are left over make the expression fail behind its value. -/
theorem expression_of_unfinished {its : List Item} (h : ¬ Finished its) :
    ∃ e f, expression its = .trailing e f := by
  have hrest : (commaList its).2 = (commaElements its).2.2 := by
    unfold commaList
    split <;> next he => rw [he]
  unfold expression closed
  rw [hrest]
  split
  · next hs => exact absurd hs h
  · exact ⟨_, _, rfl⟩

end Expr
end Stylesheet
