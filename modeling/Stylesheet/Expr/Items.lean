import Stylesheet.Expr.Precedence

/-!
# Reading expressions

The items of an expression are read from left to right: operands with operators between them,
operands side by side, and elements with commas between them. Each reader returns an expression
and the items that are left.

* `operand`, `operation`, `spaced`, `commaList`: from a single operand to a whole list.
* `expression`, `parenthesized`, `arguments`: what stands by itself, in parentheses, and behind
  the name of a function.
-/

namespace Stylesheet
namespace Expr

/-- The items without the blanks in front. -/
def skip : List Item → List Item
  | .space :: its => skip its
  | its => its

theorem skip_length (its : List Item) : (skip its).length ≤ its.length := by
  induction its with
  | nil => exact Nat.le_refl _
  | cons i its ih =>
    cases i with
    | space =>
      simp only [skip, List.length_cons]
      omega
    | _ => exact Nat.le_refl _

/-! ### Operands and operators -/

/-- One operand with the signs in front of it. -/
def operand : List Item → Expr × List Item
  | [] => (.invalid .missingExpression, [])
  | i :: its =>
      let signed (make : Expr → Expr) : Expr × List Item :=
        let (e, rest) := operand its
        (make e, rest)
      match i with
      | .space => operand its
      | .variable name => (.variable name, its)
      | .atom e _ | .member e _ => (e, its)
      | .op "-" => signed .negative
      | .op "+" => signed .positive
      | .op "not" => signed .not
      | i => (.invalid (.notAnExpression i.describe), its)

theorem operand_length (i : Item) (its : List Item) :
    (operand (i :: its)).2.length ≤ its.length := by
  induction its generalizing i with
  | nil =>
    unfold operand
    simp only [operand]
    split <;> simp
  | cons j its ih =>
    unfold operand
    have h := ih j
    simp only
    split <;> first | exact Nat.le_refl _ | (simp only [List.length_cons]; omega)

/-- The operator in front, if there is one between two operands, and the items after it. A sign
with a blank before it and none behind it belongs to the operand after it. -/
def operator? (its : List Item) : Option (Operator × List Item) :=
  match skip its with
  | .op text :: rest =>
      let spaceBefore := (its.head?.map Item.isSpace).getD false
      let spaceAfter := (rest.head?.map Item.isSpace).getD false
      if (text == "-" || text == "+") && spaceBefore && !spaceAfter then none
      else (Operator.ofText? text).map fun op => (op, skip rest)
  | _ => none

theorem operator?_length {its rest : List Item} {op : Operator}
    (h : operator? its = some (op, rest)) : rest.length < its.length := by
  have hs := skip_length its
  unfold operator? at h
  split at h
  · next text r hr =>
    simp only at h
    split at h
    · cases h
    · obtain ⟨o, _, ho⟩ := Option.map_eq_some_iff.1 h
      cases ho
      have := skip_length r
      rw [hr, List.length_cons] at hs
      omega
  · cases h

theorem operand_length_le (its : List Item) : (operand its).2.length ≤ its.length := by
  cases its with
  | nil => exact Nat.le_refl _
  | cons i its => exact Nat.le_succ_of_le (operand_length i its)

/-- Operators in front, each with its right operand. -/
def chain (its : List Item) : Chain × List Item :=
  match _h : operator? its with
  | none => ([], its)
  | some (op, rest) =>
      let (more, left) := chain (operand rest).2
      ((op, (operand rest).1) :: more, left)
termination_by its.length
decreasing_by exact Nat.lt_of_le_of_lt (operand_length_le rest) (operator?_length _h)

theorem chain_length (its : List Item) : (chain its).2.length ≤ its.length := by
  fun_induction chain its with
  | case1 => exact Nat.le_refl _
  | case2 its op rest h ih =>
    have := operand_length_le rest
    have := operator?_length h
    simp_all only
    omega

/-- Operands with operators between them. -/
def operation (its : List Item) : Expr × List Item :=
  let (e, rest) := operand its
  let (more, rest) := chain rest
  (ofChain e more, rest)

theorem operation_length (i : Item) (its : List Item) :
    (operation (i :: its)).2.length ≤ its.length :=
  Nat.le_trans (chain_length _) (operand_length i its)

theorem operation_length_le (its : List Item) : (operation its).2.length ≤ its.length :=
  Nat.le_trans (chain_length _) (operand_length_le its)

/-! ### Lists -/

/-- The elements side by side that follow a last one, which comes first. What follows without a
blank is glued to it. -/
def elements (last : Expr) (its : List Item) : List Expr × List Item :=
  match _h : skip its with
  | [] => ([last], its)
  | i :: rest =>
      match i.atom? with
      | some e =>
          if !(its.head?.map Item.isSpace).getD false then elements (.glued last e) rest
          else
            let (more, left) := elements (operation (i :: rest)).1 (operation (i :: rest)).2
            (last :: more, left)
      | none =>
          if i.startsElement then
            let (more, left) := elements (operation (i :: rest)).1 (operation (i :: rest)).2
            (last :: more, left)
          else ([last], its)
termination_by its.length
decreasing_by
  all_goals
    have hs := skip_length its
    rw [_h, List.length_cons] at hs
    have := operation_length i rest
    omega

theorem elements_length (last : Expr) (its : List Item) :
    (elements last its).2.length ≤ its.length := by
  fun_induction elements last its with
  | case1 => exact Nat.le_refl _
  | case5 => exact Nat.le_refl _
  | case2 last its i rest h e _ _ ih =>
    have hs := skip_length its
    rw [h, List.length_cons] at hs
    omega
  | case3 last its i rest h e _ _ more left hm ih =>
    have hs := skip_length its
    rw [h, List.length_cons] at hs
    have := operation_length i rest
    rw [hm] at ih
    simp only at ih ⊢
    omega
  | case4 last its i rest h _ _ more left hm ih =>
    have hs := skip_length its
    rw [h, List.length_cons] at hs
    have := operation_length i rest
    rw [hm] at ih
    simp only at ih ⊢
    omega

/-- One operation, or several side by side as a list. -/
def spaced (its : List Item) : Expr × List Item :=
  let (first, rest) := operation its
  match elements first rest with
  | ([e], rest) => (e, rest)
  | (es, rest) => (.list es .space, rest)

theorem elements_length_le (its : List Item) :
    (elements (operation its).1 (operation its).2).2.length ≤ its.length :=
  Nat.le_trans (elements_length _ _) (operation_length_le its)

theorem spaced_length (its : List Item) : (spaced its).2.length ≤ its.length := by
  have h := elements_length_le its
  unfold spaced
  dsimp only
  split <;> (next he => rw [he] at h; exact h)

/-- What stands behind a mark, which may come after blanks, is shorter than what it is left of. -/
theorem behind_length {its left behind : List Item} {mark : Item}
    (hl : left.length ≤ its.length) (h : skip left = mark :: behind) :
    behind.length < its.length := by
  have := skip_length left
  rw [h, List.length_cons] at this
  omega

/-- Elements with commas between them, whether there was a comma, and the items from the first
that belongs to no element. -/
def commaElements (its : List Item) : List Expr × Bool × List Item :=
  match skip its with
  | [] => ([], false, [])
  | .colon :: rest => ([], false, .colon :: rest)
  | _ =>
      match _h : skip (spaced its).2 with
      | .comma :: behind =>
          let (more, _, left) := commaElements behind
          ((spaced its).1 :: more, true, left)
      | left => ([(spaced its).1], false, left)
termination_by its.length
decreasing_by exact behind_length (spaced_length its) _h

/-- A list with commas, or the only element if there is no comma. -/
def commaList (its : List Item) : Expr × List Item :=
  match commaElements its with
  | ([e], false, rest) => (e, rest)
  | (es, comma, rest) => (.list es (if comma then .comma else .space), rest)

/-- An expression behind which nothing may be left. -/
def closed (read : Expr × List Item) : Expr :=
  match skip read.2 with
  | [] => read.1
  | i :: _ => .trailing read.1 (.leftOver i.describe)

/-- The expression of all of its items. -/
def expression (its : List Item) : Expr := closed (commaList its)

/-! ### Maps and arguments -/

/-- The pairs of a map. -/
def pairs (its : List Item) : List (Expr × Expr) × List Item :=
  match skip its with
  | [] => ([], [])
  | _ =>
      match _h : skip (spaced its).2 with
      | .colon :: behind =>
          match _h' : skip (spaced behind).2 with
          | .comma :: behind' =>
              let (more, left) := pairs behind'
              (((spaced its).1, (spaced behind).1) :: more, left)
          | left => ([((spaced its).1, (spaced behind).1)], left)
      | _ => ([((spaced its).1, .invalid .missingColonInMap)], [])
termination_by its.length
decreasing_by
  exact Nat.lt_trans (behind_length (spaced_length behind) _h')
    (behind_length (spaced_length its) _h)

/-- What stands in parentheses: a map if there is a colon, and a list or an expression if not. -/
def parenthesized (its : List Item) : Expr :=
  if its.any Item.isColon then
    let (ps, rest) := pairs its
    closed (.map ps, rest)
  else expression its

/-- The keyword in front of an argument, if it has one, and the items of its value. -/
def keyword (its : List Item) : Option Name × List Item :=
  match skip its with
  | .variable name :: rest =>
      match skip rest with
      | .colon :: behind => (some (.ofString name), behind)
      | _ => (none, its)
  | _ => (none, its)

theorem keyword_length (its : List Item) : (keyword its).2.length ≤ its.length := by
  unfold keyword
  split
  · next name rest h =>
    split
    · next behind h' =>
      exact Nat.le_of_lt (Nat.lt_trans (behind_length (Nat.le_refl _) h')
        (behind_length (Nat.le_refl _) h))
    · exact Nat.le_refl _
  · exact Nat.le_refl _

/-- The arguments of a call. Behind an argument with a keyword all others have one. -/
def arguments (keyworded : Bool) (its : List Item) : List (Option Name × Expr) :=
  match skip its with
  | [] => []
  | _ =>
      let (k, value) := keyword its
      if k.isNone && keyworded then [(none, .invalid .positionalAfterKeyword)]
      else
        match _h : skip (spaced (keyword its).2).2 with
        | [] => [(k, (spaced value).1)]
        | .comma :: behind => (k, (spaced value).1) :: arguments k.isSome behind
        | i :: _ => [(k, (spaced value).1), (none, .invalid (.argumentNotClosed i.describe))]
termination_by its.length
decreasing_by
  exact behind_length (Nat.le_trans (spaced_length _) (keyword_length its)) _h

end Expr
end Stylesheet
