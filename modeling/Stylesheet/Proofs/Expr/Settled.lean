import Stylesheet.Proofs.Expr.Elements
import Stylesheet.Proofs.Expr.Muted

/-!
# Blanks between items

A blank shows in an expression where it parts two operands, which are glued together without it, and
beside a sign, which belongs to the operand behind it or stands between two. Elsewhere it does not
show, and how many blanks follow each other shows nowhere. Items are settled if no blank is left that
does not show, and if they are muted.

* `Expr.Spot`: what the items before it tell of a blank.
* `Expr.settle`: items without the blanks that do not show.
* `Expr.expression_settle`: the expression of settled items.
* `Expr.SettleAlike`: items that settle alike.
-/

namespace Stylesheet

namespace Item

/-- Whether an item is a sign, which may stand in front of an operand or between two. -/
def isSign : Item → Bool
  | op text => text == "-" || text == "+"
  | _ => false

/-- Whether a blank between an operand and the item may show. -/
def clings (i : Item) : Bool := i.atom?.isSome || i.isSign

end Item

namespace Expr

/-- **What the items before it tell** of a blank. -/
inductive Spot where
  /-- An operand is expected behind the blank. -/
  | front
  /-- The blank stands behind an operand, and an operator may follow. -/
  | behind
  /-- The blank stands behind operands side by side. If the last two are glued together, an operator
  behind them is read as an operand. -/
  | beside
  /-- The blank stands behind a sign, or behind what should not stand there. -/
  | unknown
  deriving DecidableEq, Repr

namespace Spot

/-- The spot behind an operand. -/
def operand : Spot → Spot
  | front => behind
  | _ => beside

/-- The spot behind a comma or colon. -/
def mark : Spot → Spot
  | behind | beside => front
  | _ => unknown

/-- The spot behind an operator. -/
def operator (text : String) : Spot → Spot
  | front => if text == "-" || text == "+" || text == "not" then front else unknown
  | behind =>
      if text == "-" || text == "+" || (Operator.ofText? text).isNone then unknown else front
  | _ => unknown

/-- The spot behind an item. -/
def next (p : Spot) : Item → Spot
  | .space => p
  | .comma | .colon => p.mark
  | .op text => p.operator text
  | .variable _ | .atom _ _ | .member _ _ => p.operand

/-- Whether a blank behind the item shows, whatever stands behind it. -/
def keeps : Spot → Item → Bool
  | front, _ => false
  | _, i => i.isSign

/-- Whether an operand is read at the spot, as far as is known. -/
def Opens (p : Spot) : Prop := p = front ∨ p = unknown

end Spot

/-- Whether a blank stands in front. -/
def startsBlank (its : List Item) : Bool := (its.head?.map Item.isSpace).getD false

/-- Items behind an operand and a blank, which is left out if it does not show. -/
def lead : List Item → List Item
  | [] => []
  | i :: its => if i.clings then .space :: i :: its else i :: its

/-- **Items without the blanks that do not show,** and muted. -/
def settle : Spot → List Item → List Item
  | _, [] => []
  | .front, .space :: its => settle .front its
  | p, .space :: its => lead (settle p its)
  | p, i :: its =>
      i.mute :: if p.keeps i && startsBlank its then .space :: skip (settle (p.next i) its)
        else settle (p.next i) its

/-! ### Settled items -/

variable {p : Spot}

theorem skip_lead (its : List Item) : skip (lead its) = skip its := by
  cases its with
  | nil => rfl
  | cons i its =>
    rw [lead]
    split <;> rfl

theorem settle_space (h : p ≠ .front) (its : List Item) :
    settle p (.space :: its) = lead (settle p its) := by
  cases p with
  | front => exact absurd rfl h
  | _ => rfl

/-- What stands behind an item in settled items. -/
def settledBehind (p : Spot) (i : Item) (its : List Item) : List Item :=
  if p.keeps i && startsBlank its then .space :: skip (settle (p.next i) its)
  else settle (p.next i) its

theorem settle_cons {i : Item} (h : i.isSpace = false) (its : List Item) :
    settle p (i :: its) = i.mute :: settledBehind p i its := by
  cases i with
  | space => cases h
  | _ => cases p <;> rfl

theorem settledBehind_of_not_sign {i : Item} (h : i.isSign = false) (its : List Item) :
    settledBehind p i its = settle (p.next i) its := by
  cases p <;> simp [settledBehind, Spot.keeps, h]

theorem isSpace_mute (i : Item) : i.mute.isSpace = i.isSpace := by cases i <;> rfl

theorem skip_cons {i : Item} (h : i.isSpace = false) (its : List Item) :
    skip (i :: its) = i :: its := by
  cases i with
  | space => cases h
  | _ => rfl

theorem skip_settle (p : Spot) (its : List Item) : skip (settle p its) = settle p (skip its) := by
  induction its with
  | nil => cases p <;> rfl
  | cons i its ih =>
    cases hi : i.isSpace with
    | true =>
      cases i with
      | space =>
        cases p with
        | front => exact ih
        | _ => rw [settle_space (by simp), skip_lead, ih, skip]
      | _ => cases hi
    | false => rw [skip_cons hi, settle_cons hi, skip_cons ((isSpace_mute i).trans hi)]

theorem skip_settledBehind (p : Spot) (i : Item) (its : List Item) :
    skip (settledBehind p i its) = settle (p.next i) (skip its) := by
  unfold settledBehind
  split
  · rw [skip, skip_skip, skip_settle]
  · exact skip_settle _ _

/-- What stands behind blanks is no blank. -/
theorem isSpace_of_skip {its rest : List Item} {i : Item} (h : skip its = i :: rest) :
    i.isSpace = false := by
  induction its with
  | nil => cases h
  | cons j its ih =>
    cases j with
    | space => exact ih h
    | _ =>
      cases h
      rfl

/-- What stands behind the blanks in settled items. -/
theorem skip_settle_cons {its rest : List Item} {i : Item} (h : skip its = i :: rest) :
    skip (settle p its) = i.mute :: settledBehind p i rest := by
  rw [skip_settle, h, settle_cons (isSpace_of_skip h)]

theorem settle_nil (p : Spot) : settle p [] = [] := by cases p <;> rfl

theorem skip_settle_nil {its : List Item} (h : skip its = []) : skip (settle p its) = [] := by
  rw [skip_settle, h, settle_nil]

theorem skip_settle_ne {its : List Item} (h : skip its ≠ []) : skip (settle p its) ≠ [] := by
  obtain ⟨i, rest, hi⟩ := List.exists_cons_of_ne_nil h
  rw [skip_settle_cons hi]
  exact List.cons_ne_nil _ _

/-- What stands behind the blanks in settled items comes from the items. -/
theorem exists_of_skip_settle {its behind : List Item} {i' : Item}
    (h : skip (settle p its) = i' :: behind) : ∃ i rest, skip its = i :: rest ∧ i' = i.mute := by
  cases hs : skip its with
  | nil =>
    rw [skip_settle_nil hs] at h
    cases h
  | cons i rest =>
    rw [skip_settle_cons hs] at h
    exact ⟨i, rest, rfl, (List.cons.inj h).1.symm⟩

/-- No comma, or no colon, stands behind the blanks of settled items if none did before. -/
theorem skip_settle_ne_mark {its : List Item} {mark : Item} (hmark : mark = .comma ∨ mark = .colon)
    (h : ∀ rest, skip its ≠ mark :: rest) (rest : List Item) :
    skip (settle p its) ≠ mark :: rest := by
  intro hs
  obtain ⟨i, rest', hi, hmute⟩ := exists_of_skip_settle hs
  have hsame : i = mark := by
    rcases hmark with rfl | rfl <;> cases i <;> first | rfl | cases hmute
  exact h rest' (hsame ▸ hi)

theorem isColon_mute (i : Item) : i.mute.isColon = i.isColon := by
  cases i <;> rfl

theorem atom?_mute (i : Item) : i.mute.atom? = i.atom?.map mute := by cases i <;> rfl

theorem startsElement_mute (i : Item) : i.mute.startsElement = i.startsElement := by cases i <;> rfl

theorem clings_mute (i : Item) : i.mute.clings = i.clings := by cases i <;> rfl

/-! ### Blanks that stay -/

/-- Settled items do not start with a blank where the items do not. -/
theorem startsBlank_settle_of {its : List Item} (h : startsBlank its = false) :
    startsBlank (settle p its) = false := by
  cases its with
  | nil => rw [settle_nil]; rfl
  | cons i its =>
    have hi : i.isSpace = false := h
    rw [settle_cons hi]
    cases i with
    | space => cases hi
    | _ => rfl

theorem startsBlank_lead {its rest : List Item} {i : Item} (h : skip its = i :: rest)
    (hi : i.clings = true) : startsBlank (lead its) = true := by
  cases its with
  | nil => cases h
  | cons j its =>
    cases j with
    | space => rfl
    | _ =>
      cases h
      rw [lead, if_pos hi]
      rfl

/-- In front of an item that clings settled items have a blank where the items have one. -/
theorem startsBlank_settle (hp : p ≠ .front) {its rest : List Item} {i : Item}
    (h : skip its = i :: rest) (hi : i.clings = true) :
    startsBlank (settle p its) = startsBlank its := by
  cases its with
  | nil => cases h
  | cons j its =>
    cases j with
    | space =>
      have hskip : skip (settle p its) = i.mute :: settledBehind p i rest := skip_settle_cons h
      rw [settle_space hp, startsBlank_lead hskip (by rw [clings_mute, hi])]
      rfl
    | _ => exact startsBlank_settle_of rfl

/-- Behind a sign settled items have a blank where the items have one. -/
theorem startsBlank_settledBehind (hp : p ≠ .front) {i : Item} (hi : i.isSign = true)
    (its : List Item) : startsBlank (settledBehind p i its) = startsBlank its := by
  have hkeeps : p.keeps i = true := by
    cases p with
    | front => exact absurd rfl hp
    | _ => exact hi
  unfold settledBehind
  cases hb : startsBlank its with
  | true => simp [hkeeps, startsBlank, Item.isSpace]
  | false => simp [startsBlank_settle_of hb]

/-- A sign is known by its text. -/
theorem isSign_op (text : String) : (Item.op text).isSign = (text == "-" || text == "+") := rfl

/-! ### Reading settled items -/

/-- What is read of items and of the same items settled. -/
structure Settled (r r' : Expr × List Item) : Prop where
  expr : r'.1.mute = r.1.mute
  rest : ∃ p, p ≠ Spot.front ∧ r'.2 = settle p r.2

namespace Spot

theorem opens_front : Opens front := .inl rfl

theorem opens_unknown : Opens unknown := .inr rfl

theorem operand_ne (p : Spot) : p.operand ≠ front := by cases p <;> simp [operand]

theorem opens_mark (p : Spot) : p.mark.Opens := by cases p <;> simp [mark, Opens]

/-- Behind an operator that may stand in front of an operand another one may. -/
theorem Opens.operator_prefix (h : p.Opens) {text : String}
    (ht : (text == "-" || text == "+" || text == "not") = true) : p.operator text = p := by
  rcases h with rfl | rfl
  · exact if_pos ht
  · rfl

/-- Any other operator should not stand where an operand is expected. -/
theorem Opens.operator_other (h : p.Opens) {text : String}
    (ht : (text == "-" || text == "+" || text == "not") = false) : p.operator text = unknown := by
  rcases h with rfl | rfl
  · exact if_neg (by simp [ht])
  · rfl

/-- A comma or colon should not stand where an operand is expected. -/
theorem Opens.mark (h : p.Opens) : p.mark = unknown := by
  rcases h with rfl | rfl <;> rfl

/-- Behind operands, what an operator leaves open is open. -/
theorem opens_operator (h : p ≠ front) (text : String) : (p.operator text).Opens := by
  cases p with
  | front => exact absurd rfl h
  | behind =>
    rw [operator]
    split
    · exact .inr rfl
    · exact .inl rfl
  | _ => exact .inr rfl

end Spot

/-- An operator that stands in front of no operand is none itself. -/
theorem operand_op {text : String} (h : (text == "-" || text == "+" || text == "not") = false)
    (its : List Item) :
    operand (.op text :: its) = (.invalid (.notAnExpression (Item.op text).describe), its) := by
  unfold operand
  split
  all_goals simp_all

theorem operand_settle (hp : p.Opens) (its : List Item) :
    Settled (operand its) (operand (settle p its)) := by
  induction its with
  | nil =>
    rw [settle_nil]
    exact ⟨rfl, .unknown, by simp, rfl⟩
  | cons i its ih =>
    cases i with
    | space =>
      rcases hp with rfl | rfl
      · exact ih
      · have hlead : operand (lead (settle .unknown its)) = operand (settle .unknown its) := by
          rw [operand_skip, skip_lead, ← operand_skip]
        rw [settle_space (by simp), hlead]
        exact ih
    | comma | colon =>
      rw [settle_cons rfl, settledBehind_of_not_sign rfl]
      exact ⟨rfl, _, by rw [Spot.next, hp.mark]; simp, rfl⟩
    | «variable» name =>
      rw [settle_cons rfl, settledBehind_of_not_sign rfl]
      exact ⟨rfl, _, p.operand_ne, rfl⟩
    | atom e printed | member e printed =>
      rw [settle_cons rfl, settledBehind_of_not_sign rfl]
      exact ⟨mute_mute e, _, p.operand_ne, rfl⟩
    | op text =>
      rw [settle_cons rfl]
      cases ht : text == "-" || text == "+" || text == "not" with
      | false =>
        have hsign : (Item.op text).isSign = false := by
          rw [isSign_op, (Bool.or_eq_false_iff.1 ht).1]
        rw [settledBehind_of_not_sign hsign, operand_op ht]
        show Settled _ (operand (.op text :: settle (p.operator text) its))
        rw [operand_op ht, hp.operator_other ht]
        exact ⟨rfl, .unknown, by simp, rfl⟩
      | true =>
        have hrest : operand (settledBehind p (.op text) its) = operand (settle p its) := by
          rw [operand_skip, skip_settledBehind, Spot.next, hp.operator_prefix ht, ← skip_settle,
            ← operand_skip]
        have hsigned (make : Expr → Expr) (hmake : ∀ e, (make e).mute = make e.mute) :
            Settled (make (operand its).1, (operand its).2)
              (make (operand (settledBehind p (.op text) its)).1,
                (operand (settledBehind p (.op text) its)).2) := by
          rw [hrest]
          exact ⟨by rw [hmake, hmake, ih.expr], ih.rest⟩
        simp only [Bool.or_eq_true, beq_iff_eq] at ht
        rcases ht with (rfl | rfl) | rfl
        · exact hsigned negative fun _ => rfl
        · exact hsigned positive fun _ => rfl
        · exact hsigned not fun _ => rfl

theorem operator?_op {its rest : List Item} {text : String} (h : skip its = .op text :: rest) :
    operator? its = if (Item.op text).isSign && startsBlank its && !startsBlank rest then none
      else (Operator.ofText? text).map fun op => (op, skip rest) := by
  unfold operator?
  rw [h]
  rfl

/-- An operator stands in front of settled items where it stands in front of the items. -/
theorem operator?_settle (hp : p ≠ .front) (its : List Item) :
    ∃ q : Spot, q.Opens ∧
      operator? (settle p its) = (operator? its).map fun (op, rest) => (op, settle q rest) := by
  cases hs : skip its with
  | nil =>
    refine ⟨.unknown, .inr rfl, ?_⟩
    unfold operator?
    rw [hs, skip_settle_nil hs]
    rfl
  | cons i rest =>
    have hskip := skip_settle_cons (p := p) hs
    cases i with
    | op text =>
      have hsign : ((Item.op text).isSign && startsBlank (settle p its) &&
          !startsBlank (settledBehind p (.op text) rest)) =
            ((Item.op text).isSign && startsBlank its && !startsBlank rest) := by
        cases ht : (Item.op text).isSign with
        | false => rfl
        | true =>
          rw [startsBlank_settle hp hs (by rw [Item.clings, ht, Bool.or_true]),
            startsBlank_settledBehind hp ht]
      refine ⟨p.operator text, Spot.opens_operator hp text, ?_⟩
      rw [operator?_op hs, operator?_op hskip, hsign, skip_settledBehind]
      split
      · rfl
      · rw [Option.map_map]
        rfl
    | _ =>
      refine ⟨.unknown, .inr rfl, ?_⟩
      unfold operator?
      rw [hs, hskip]
      rfl

/-- Chains are read alike. -/
theorem chain_settle (hp : p ≠ .front) (its : List Item) :
    Chain.mute (chain (settle p its)).1 = Chain.mute (chain its).1 ∧
      ∃ q, q ≠ Spot.front ∧ (chain (settle p its)).2 = settle q (chain its).2 := by
  fun_induction chain its generalizing p with
  | case1 its h =>
    obtain ⟨_, -, h'⟩ := operator?_settle hp its
    rw [h] at h'
    rw [chain]
    split
    · exact ⟨rfl, p, hp, rfl⟩
    · next hs => rw [h'] at hs; cases hs
  | case2 its op rest h more left hm ih =>
    obtain ⟨q, hq, h'⟩ := operator?_settle hp its
    rw [h] at h'
    obtain ⟨hexpr, r, hr, hrest⟩ := operand_settle hq rest
    have ih := ih hr
    rw [hm] at ih
    rw [chain]
    split
    · next hs => rw [h'] at hs; cases hs
    · next hs =>
      rw [h'] at hs
      cases hs
      rw [hrest]
      refine ⟨?_, ih.2⟩
      show (op, _) :: Chain.mute _ = (op, _) :: Chain.mute _
      rw [hexpr, ih.1]

/-- No operator stands behind a chain. -/
theorem operator?_chain (its : List Item) : operator? (chain its).2 = none := by
  fun_induction chain its with
  | case1 its h => exact h
  | case2 its op rest h more left hm ih =>
    rw [hm] at ih
    exact ih

theorem operation_settle (hp : p.Opens) (its : List Item) :
    Settled (operation its) (operation (settle p its)) := by
  obtain ⟨hexpr, q, hq, hrest⟩ := operand_settle hp its
  obtain ⟨hchain, hleft⟩ := chain_settle hq (operand its).2
  rw [← hrest] at hchain hleft
  refine ⟨?_, hleft⟩
  show (ofChain _ _).mute = (ofChain _ _).mute
  rw [ofChain_mute, ofChain_mute, hexpr, hchain]

theorem operator?_operation (its : List Item) : operator? (operation its).2 = none :=
  operator?_chain _

/-! ### Lists of settled items -/

/-- What elements go on with, by the item behind the blanks. -/
theorem elements_of_skip {last : Expr} {its rest : List Item} {i : Item} (h : skip its = i :: rest) :
    elements last its =
      match i.atom? with
      | some e =>
          if !startsBlank its then elements (.glued last e) rest
          else
            (last :: (elements (operation (i :: rest)).1 (operation (i :: rest)).2).1,
              (elements (operation (i :: rest)).1 (operation (i :: rest)).2).2)
      | none =>
          if i.startsElement then
            (last :: (elements (operation (i :: rest)).1 (operation (i :: rest)).2).1,
              (elements (operation (i :: rest)).1 (operation (i :: rest)).2).2)
          else ([last], its) := by
  rw [elements]
  split
  · next hs => rw [h] at hs; cases hs
  · next hs =>
    rw [h] at hs
    cases hs
    rfl

/-- An item that starts an element is settled the same way at all spots behind operands at which it
is no operator. -/
theorem settle_element (hp : p ≠ .front) {i : Item} (hi : i.startsElement = true)
    (hop : ∀ text, i = .op text → p = .behind → i.isSign = true ∨ Operator.ofText? text = none)
    (rest : List Item) : i.mute :: settledBehind p i rest = settle .unknown (i :: rest) := by
  have hspace : i.isSpace = false := by cases i <;> first | rfl | cases hi
  have hnext : p.next i = Spot.next .unknown i := by
    cases i with
    | space | comma | colon => cases hi
    | «variable» | atom | member => cases p <;> first | rfl | exact absurd rfl hp
    | op text =>
      cases p with
      | front => exact absurd rfl hp
      | behind =>
        refine if_pos ?_
        rcases hop text rfl rfl with hsign | hnone
        · rw [← isSign_op, hsign, Bool.true_or]
        · rw [hnone, Option.isNone_none, Bool.or_true]
      | _ => rfl
  have hkeeps : p.keeps i = Spot.keeps .unknown i := by
    cases p with
    | front => exact absurd rfl hp
    | _ => rfl
  rw [settle_cons hspace, settledBehind, settledBehind, hnext, hkeeps]

/-- An operator behind which none is read is a sign of an operand, or none at all. -/
theorem sign_of_operator? {its rest : List Item} {text : String} (h : skip its = .op text :: rest)
    (hnone : operator? its = none) :
    (Item.op text).isSign = true ∨ Operator.ofText? text = none := by
  rw [operator?_op h] at hnone
  split at hnone
  · next hsign =>
    simp only [Bool.and_eq_true] at hsign
    exact .inl hsign.1.1
  · exact .inr (Option.map_eq_none_iff.1 hnone)

/-- Elements are read alike behind ones that are the same but for their texts. -/
theorem elements_settle {last last' : Expr} (hlast : last'.mute = last.mute) {its : List Item}
    (hp : p ≠ .front) (hop : p = .behind → operator? its = none) :
    (elements last' (settle p its)).1.map mute = (elements last its).1.map mute ∧
      ∃ q, q ≠ Spot.front ∧ (elements last' (settle p its)).2 = settle q (elements last its).2 := by
  fun_induction elements last its generalizing last' p with
  | case1 last its h =>
    rw [elements]
    split
    · exact ⟨congrArg (fun e => [e]) hlast, p, hp, rfl⟩
    · next hs => rw [skip_settle_nil h] at hs; cases hs
  | case2 last its i rest h e he hblank ih =>
    have hi : i.clings = true := by rw [Item.clings, he]; rfl
    have hblank' : (!startsBlank (settle p its)) = true := by
      rw [startsBlank_settle hp h hi]
      exact hblank
    have hbeside : settledBehind p i rest = settle .beside rest := by
      rw [settledBehind_of_not_sign (by cases i <;> first | rfl | cases he)]
      cases i <;> cases he <;> cases p <;> first | rfl | exact absurd rfl hp
    rw [elements_of_skip (skip_settle_cons h), atom?_mute, he]
    simp only [Option.map_some, if_pos hblank', hbeside]
    exact ih (by rw [mute, mute, hlast, mute_mute]) (by simp) (by simp)
  | case3 last its i rest h e he hblank more left hm ih =>
    have hi : i.clings = true := by rw [Item.clings, he]; rfl
    have hstarts : i.startsElement = true := by cases i <;> first | rfl | cases he
    have hblank' : ¬ (!startsBlank (settle p its)) = true := by
      rw [startsBlank_settle hp h hi]
      exact hblank
    have hnone : ∀ text, i ≠ .op text := by
      rintro text rfl
      cases he
    have helement := settle_element hp hstarts (fun text htext => absurd htext (hnone text)) rest
    obtain ⟨hexpr, q, hq, hrest⟩ := operation_settle Spot.opens_unknown (i :: rest)
    rw [elements_of_skip (skip_settle_cons h), atom?_mute, he]
    simp only [Option.map_some, if_neg hblank', helement, hrest]
    have ih := ih hexpr hq fun _ => operator?_operation _
    rw [hm] at ih
    obtain ⟨hmore, hleft⟩ := ih
    exact ⟨by rw [List.map_cons, List.map_cons, hlast, hmore], hleft⟩
  | case4 last its i rest h hi hstarts more left hm ih =>
    have hsign : ∀ text, i = .op text → p = .behind →
        i.isSign = true ∨ Operator.ofText? text = none := by
      rintro text rfl hbehind
      exact sign_of_operator? h (hop hbehind)
    have helement := settle_element hp hstarts hsign rest
    obtain ⟨hexpr, q, hq, hrest⟩ := operation_settle Spot.opens_unknown (i :: rest)
    rw [elements_of_skip (skip_settle_cons h), atom?_mute, hi, startsElement_mute]
    simp only [Option.map_none, if_pos hstarts, helement, hrest]
    have ih := ih hexpr hq fun _ => operator?_operation _
    rw [hm] at ih
    obtain ⟨hmore, hleft⟩ := ih
    exact ⟨by rw [List.map_cons, List.map_cons, hlast, hmore], hleft⟩
  | case5 last its i rest h hi hstarts =>
    rw [elements_of_skip (skip_settle_cons h), atom?_mute, hi, startsElement_mute]
    simp only [Option.map_none, if_neg hstarts, List.map_cons, hlast, true_and]
    exact ⟨p, hp, rfl⟩

theorem spaced_settle (hp : p.Opens) (its : List Item) :
    Settled (spaced its) (spaced (settle p its)) := by
  obtain ⟨hexpr, q, hq, hrest⟩ := operation_settle hp its
  obtain ⟨helements, hleft⟩ := elements_settle hexpr hq fun _ => operator?_operation its
  rw [← hrest] at helements hleft
  unfold spaced
  dsimp only
  generalize elements (operation its).1 (operation its).2 = r at helements hleft
  generalize elements (operation (settle p its)).1 (operation (settle p its)).2 = r'
    at helements hleft
  obtain ⟨es, left⟩ := r
  obtain ⟨es', left'⟩ := r'
  -- one element stands for itself, and several are a list
  rcases es with _ | ⟨a, _ | ⟨b, es⟩⟩ <;> rcases es' with _ | ⟨a', _ | ⟨b', es'⟩⟩
  all_goals simp only [List.map_cons, List.map_nil, List.cons.injEq, reduceCtorEq, and_false,
    and_true] at helements
  · exact ⟨rfl, hleft⟩
  · exact ⟨helements, hleft⟩
  · refine ⟨?_, hleft⟩
    obtain ⟨ha, hb, hes⟩ := helements
    simp only [mute, muteAll_eq_map, List.map_cons, ha, hb, hes]

/-- What a list with commas goes on with, by the item behind the blanks. -/
theorem commaElements_of_skip {its rest : List Item} {i : Item} (h : skip its = i :: rest)
    (hi : i.isColon = false) :
    commaElements its =
      match skip (spaced its).2 with
      | .comma :: behind =>
          ((spaced its).1 :: (commaElements behind).1, true, (commaElements behind).2.2)
      | left => ([(spaced its).1], false, left) := by
  rw [commaElements]
  split
  · next hs => rw [h] at hs; cases hs
  · next hs =>
    rw [h] at hs
    cases hs
    cases hi
  · split <;> simp_all

/-- Settled items start with no colon behind their blanks if they did not before. -/
theorem exists_skip_settle_ne_colon {its : List Item} (hblank : skip its ≠ [])
    (hcolon : ∀ rest, skip its ≠ .colon :: rest) :
    ∃ i behind, skip (settle p its) = i :: behind ∧ i.isColon = false := by
  obtain ⟨i, rest, hi⟩ := List.exists_cons_of_ne_nil hblank
  refine ⟨_, _, skip_settle_cons hi, ?_⟩
  rw [isColon_mute]
  cases i with
  | colon => exact absurd hi (hcolon rest)
  | _ => rfl

/-- Behind a comma or colon among settled items. -/
theorem skip_settle_mark {its rest : List Item} {mark : Item} (hmark : mark = .comma ∨ mark = .colon)
    (h : skip its = mark :: rest) : skip (settle p its) = mark :: settle p.mark rest := by
  rw [skip_settle_cons h, settledBehind_of_not_sign (by rcases hmark with rfl | rfl <;> rfl)]
  rcases hmark with rfl | rfl <;> rfl

/-- A list with commas is read alike. -/
theorem commaElements_settle (hp : p.Opens) (its : List Item) :
    (commaElements (settle p its)).1.map mute = (commaElements its).1.map mute ∧
      (commaElements (settle p its)).2.1 = (commaElements its).2.1 ∧
      ∃ q, (commaElements (settle p its)).2.2 = settle q (commaElements its).2.2 := by
  fun_induction commaElements its generalizing p with
  | case1 its h =>
    rw [commaElements, skip_settle_nil h]
    exact ⟨rfl, rfl, p, (settle_nil p).symm⟩
  | case2 its rest h =>
    have hskip := skip_settle_mark (p := p) (.inr rfl) h
    rw [commaElements, hskip]
    refine ⟨rfl, rfl, p, ?_⟩
    rw [settle_cons rfl, settledBehind_of_not_sign rfl]
    rfl
  | case3 its behind hcomma more comma left helements hblank hcolon ih =>
    obtain ⟨i, b, hskip, hmute⟩ := exists_skip_settle_ne_colon (p := p) hblank hcolon
    obtain ⟨hexpr, q, -, hrest⟩ := spaced_settle hp its
    rw [commaElements_of_skip hskip hmute, hrest, skip_settle_mark (.inl rfl) hcomma]
    have ih := ih q.opens_mark
    rw [helements] at ih
    obtain ⟨hmore, -, hleft⟩ := ih
    exact ⟨by rw [List.map_cons, List.map_cons, hexpr, hmore], rfl, hleft⟩
  | case4 its hblank hcolon hcomma =>
    obtain ⟨i, b, hskip, hmute⟩ := exists_skip_settle_ne_colon (p := p) hblank hcolon
    obtain ⟨hexpr, q, -, hrest⟩ := spaced_settle hp its
    rw [commaElements_of_skip hskip hmute, hrest]
    split
    · next behind hs => exact absurd hs (skip_settle_ne_mark (.inl rfl) hcomma _)
    · exact ⟨congrArg (fun e => [e]) hexpr, rfl, q, skip_settle _ _⟩

/-- What is read of all items, and of the same items settled. -/
structure SettledAll (r r' : Expr × List Item) : Prop where
  expr : r'.1.mute = r.1.mute
  rest : ∃ p, r'.2 = settle p r.2

theorem commaList_settle (hp : p.Opens) (its : List Item) :
    SettledAll (commaList its) (commaList (settle p its)) := by
  obtain ⟨helements, hcomma, hleft⟩ := commaElements_settle hp its
  unfold commaList
  generalize commaElements its = r at helements hcomma hleft
  generalize commaElements (settle p its) = r' at helements hcomma hleft
  obtain ⟨es, comma, left⟩ := r
  obtain ⟨es', comma', left'⟩ := r'
  obtain rfl : comma' = comma := hcomma
  rcases es with _ | ⟨a, _ | ⟨b, es⟩⟩ <;> rcases es' with _ | ⟨a', _ | ⟨b', es'⟩⟩
  all_goals simp only [List.map_cons, List.map_nil, List.cons.injEq, reduceCtorEq, and_false,
    and_true] at helements
  · exact ⟨rfl, hleft⟩
  · cases comma' with
    | false => exact ⟨helements, hleft⟩
    | true => exact ⟨by simp only [mute, muteAll_eq_map, List.map_cons, helements], hleft⟩
  · obtain ⟨ha, hb, hes⟩ := helements
    exact ⟨by simp only [mute, muteAll_eq_map, List.map_cons, ha, hb, hes], hleft⟩

/-- What is left over is told only by its text. -/
theorem closed_settle {r r' : Expr × List Item} (h : SettledAll r r') :
    (closed r').mute = (closed r).mute := by
  obtain ⟨hexpr, p, hrest⟩ := h
  unfold closed
  rw [hrest]
  cases hs : skip r.2 with
  | nil =>
    rw [skip_settle_nil hs]
    exact hexpr
  | cons i rest =>
    rw [skip_settle_cons hs]
    show trailing _ _ = trailing _ _
    rw [hexpr]
    rfl

/-- **The expression** of settled items. -/
theorem expression_settle (its : List Item) :
    (expression (settle .front its)).mute = (expression its).mute :=
  closed_settle (commaList_settle Spot.opens_front its)

/-! ### Maps and arguments of settled items -/

/-- What a map goes on with. -/
theorem pairs_of_skip {its : List Item} (h : skip its ≠ []) :
    pairs its =
      match skip (spaced its).2 with
      | .colon :: behind =>
          match skip (spaced behind).2 with
          | .comma :: behind' =>
              (((spaced its).1, (spaced behind).1) :: (pairs behind').1, (pairs behind').2)
          | left => ([((spaced its).1, (spaced behind).1)], left)
      | _ => ([((spaced its).1, .invalid .missingColonInMap)], []) := by
  rw [pairs]
  split
  · next hs => exact absurd hs h
  · split
    · split <;> simp_all
    · simp_all

theorem pairs_settle {p : Spot} (hp : p.Opens) (its : List Item) :
    mutePairs (pairs (settle p its)).1 = mutePairs (pairs its).1 ∧
      ∃ q, (pairs (settle p its)).2 = settle q (pairs its).2 := by
  by_cases hblank : skip its = []
  · rw [pairs, skip_settle_nil hblank, pairs, hblank]
    exact ⟨rfl, p, (settle_nil p).symm⟩
  obtain ⟨hkey, q, -, hkeyRest⟩ := spaced_settle hp its
  rw [pairs_of_skip (skip_settle_ne hblank), pairs_of_skip hblank, hkeyRest]
  by_cases hcolon : ∃ behind, skip (spaced its).2 = .colon :: behind
  · obtain ⟨behind, hcolon⟩ := hcolon
    obtain ⟨hvalue, r, -, hvalueRest⟩ := spaced_settle q.opens_mark behind
    simp only [skip_settle_mark (.inr rfl) hcolon, hcolon, hvalueRest]
    by_cases hcomma : ∃ behind', skip (spaced behind).2 = .comma :: behind'
    · obtain ⟨behind', hcomma⟩ := hcomma
      obtain ⟨hmore, hleft⟩ := pairs_settle r.opens_mark behind'
      simp only [skip_settle_mark (.inl rfl) hcomma, hcomma]
      exact ⟨by rw [mutePairs, mutePairs, hkey, hvalue, hmore], hleft⟩
    · have hnot := skip_settle_ne_mark (p := r) (.inl rfl) fun rest hs => hcomma ⟨rest, hs⟩
      split
      · next hs => exact absurd hs (hnot _)
      · split
        · next hs => exact absurd ⟨_, hs⟩ hcomma
        · exact ⟨by simp only [mutePairs, hkey, hvalue], r, skip_settle _ _⟩
  · have hnot := skip_settle_ne_mark (p := q) (.inr rfl) fun rest hs => hcolon ⟨rest, hs⟩
    split
    · next hs => exact absurd hs (hnot _)
    · split
      · next hs => exact absurd ⟨_, hs⟩ hcolon
      · exact ⟨by simp only [mutePairs, hkey], q, (settle_nil q).symm⟩
termination_by its.length
decreasing_by
  exact Nat.lt_trans (behind_length (spaced_length behind) hcomma)
    (behind_length (spaced_length its) hcolon)

theorem any_isColon_skip (its : List Item) :
    (skip its).any Item.isColon = its.any Item.isColon := by
  induction its with
  | nil => rfl
  | cons i its ih =>
    cases i with
    | space => exact ih
    | _ => rfl

/-- A colon stands among settled items if one stands among the items. -/
theorem any_isColon_settle (p : Spot) (its : List Item) :
    (settle p its).any Item.isColon = its.any Item.isColon := by
  induction its generalizing p with
  | nil => rw [settle_nil]
  | cons i its ih =>
    rw [← any_isColon_skip, skip_settle]
    cases hi : i.isSpace with
    | true =>
      cases i with
      | space =>
        rw [skip, ← skip_settle, any_isColon_skip, ih]
        rfl
      | _ => cases hi
    | false =>
      have hskip : skip (i :: its) = i :: its := by
        cases i with
        | space => cases hi
        | _ => rfl
      rw [hskip, settle_cons hi, List.any_cons, List.any_cons, isColon_mute, ← any_isColon_skip,
        skip_settledBehind, ← skip_settle, any_isColon_skip, ih]

theorem parenthesized_settle (its : List Item) :
    (parenthesized (settle .front its)).mute = (parenthesized its).mute := by
  unfold parenthesized
  rw [any_isColon_settle]
  split
  · obtain ⟨hpairs, hrest⟩ := pairs_settle Spot.opens_front its
    exact closed_settle ⟨congrArg map hpairs, hrest⟩
  · exact expression_settle its

theorem keyword_settle (hp : p.Opens) (its : List Item) :
    (keyword (settle p its)).1 = (keyword its).1 ∧
      ∃ q : Spot, q.Opens ∧ (keyword (settle p its)).2 = settle q (keyword its).2 := by
  cases hs : skip its with
  | nil =>
    unfold keyword
    rw [hs, skip_settle_nil hs]
    exact ⟨rfl, p, hp, rfl⟩
  | cons i rest =>
    have hskip := skip_settle_cons (p := p) hs
    cases i with
    | «variable» name =>
      have hskip : skip (settle p its) = .variable name :: settle p.operand rest := by
        rw [hskip, settledBehind_of_not_sign rfl]
        rfl
      cases hr : skip rest with
      | nil =>
        simp only [keyword, hs, hskip, hr, skip_settle_nil hr, true_and]
        exact ⟨p, hp, rfl⟩
      | cons j rest' =>
        cases j with
        | colon =>
          simp only [keyword, hs, hskip, hr, skip_settle_mark (.inr rfl) hr, true_and]
          exact ⟨_, p.operand.opens_mark, rfl⟩
        | _ =>
          simp only [keyword, hs, hskip, hr, skip_settle_cons hr, Item.mute, true_and]
          exact ⟨p, hp, rfl⟩
    | _ =>
      simp only [keyword, hs, hskip, Item.mute, true_and]
      exact ⟨p, hp, rfl⟩

/-- What arguments go on with. -/
theorem arguments_of_skip {keyworded : Bool} {its : List Item} (h : skip its ≠ []) :
    arguments keyworded its =
      if (keyword its).1.isNone && keyworded then [(none, .invalid .positionalAfterKeyword)]
      else
        match skip (spaced (keyword its).2).2 with
        | [] => [((keyword its).1, (spaced (keyword its).2).1)]
        | .comma :: behind =>
            ((keyword its).1, (spaced (keyword its).2).1) ::
              arguments (keyword its).1.isSome behind
        | i :: _ =>
            [((keyword its).1, (spaced (keyword its).2).1),
              (none, .invalid (.argumentNotClosed i.describe))] := by
  rw [arguments]
  split
  · next hs => exact absurd hs h
  · dsimp only
    split
    · rfl
    · split <;> simp_all

/-- **The arguments** of a call in settled items. -/
theorem arguments_settle {p : Spot} (hp : p.Opens) (keyworded : Bool) (its : List Item) :
    muteArguments (arguments keyworded (settle p its)) =
      muteArguments (arguments keyworded its) := by
  by_cases h : skip its = []
  · rw [arguments, arguments, skip_settle_nil h, h]
  · obtain ⟨hk, q, hq, hvalue⟩ := keyword_settle hp its
    obtain ⟨hexpr, r, -, hrest⟩ := spaced_settle hq (keyword its).2
    rw [arguments_of_skip h, arguments_of_skip (skip_settle_ne h), hk, hvalue, hrest]
    split
    · rfl
    · cases hs : skip (spaced (keyword its).2).2 with
      | nil => simp only [skip_settle_nil hs, muteArguments, hexpr]
      | cons i rest =>
        cases i with
        | comma =>
          have ih := arguments_settle r.opens_mark (keyword its).1.isSome rest
          simp only [skip_settle_mark (.inl rfl) hs, muteArguments, hexpr, ih]
        | _ => simp only [skip_settle_cons hs, Item.mute, muteArguments, hexpr, mute, Fault.mute]
termination_by its.length
decreasing_by exact behind_length (Nat.le_trans (spaced_length _) (keyword_length its)) hs

/-! ### Items that settle alike -/

/-- **Items that settle alike** at a spot, with a blank in front of both or of none where it shows. -/
structure SettleAlike (p : Spot) (its its' : List Item) : Prop where
  settle : settle p its' = settle p its
  blank : p = .unknown → startsBlank its' = startsBlank its

/-! Of an item only what it says without its text matters. -/

theorem next_mute (p : Spot) (i : Item) : p.next i.mute = p.next i := by cases i <;> rfl

theorem keeps_mute (p : Spot) (i : Item) : p.keeps i.mute = p.keeps i := by
  cases p <;> cases i <;> rfl

theorem next_of_keeps {i : Item} (h : p.keeps i = true) : p.next i = .unknown := by
  cases i with
  | op text =>
    cases p with
    | front => cases h
    | behind =>
      refine if_pos ?_
      rw [← isSign_op, show (Item.op text).isSign = true from h, Bool.true_or]
    | _ => rfl
  | _ => cases p <;> cases h

/-- Items settle alike behind an item that is the same but for its text. -/
theorem SettleAlike.cons {i i' : Item} {its its' : List Item} (hi : i'.mute = i.mute)
    (h : SettleAlike (p.next i) its its') : SettleAlike p (i :: its) (i' :: its') := by
  have hspace : i'.isSpace = i.isSpace := by rw [← isSpace_mute, hi, isSpace_mute]
  have hnext : p.next i' = p.next i := by rw [← next_mute, hi, next_mute]
  have hkeeps : p.keeps i' = p.keeps i := by rw [← keeps_mute, hi, keeps_mute]
  refine ⟨?_, fun _ => hspace⟩
  cases hs : i.isSpace with
  | true =>
    obtain ⟨rfl, rfl⟩ : i = .space ∧ i' = .space := by
      rw [hs] at hspace
      cases i <;> cases hs
      cases i' <;> cases hspace
      exact ⟨rfl, rfl⟩
    have hsame : Expr.settle p its' = Expr.settle p its := h.settle
    cases p with
    | front => exact hsame
    | _ => rw [settle_space (by simp), settle_space (by simp), hsame]
  | false =>
    rw [settle_cons hs, settle_cons (hspace.trans hs), hi, settledBehind, settledBehind, hnext,
      hkeeps, h.settle]
    cases hk : p.keeps i with
    | true => rw [h.blank (next_of_keeps hk)]
    | false => rfl

/-- Items settle alike behind items that are the same but for their texts. -/
theorem SettleAlike.append {its its' ms ms' : List Item} (hm : ms'.map Item.mute = ms.map Item.mute)
    (h : SettleAlike (ms.foldl Spot.next p) its its') : SettleAlike p (ms ++ its) (ms' ++ its') := by
  induction ms generalizing p ms' with
  | nil =>
    obtain rfl := List.map_eq_nil_iff.1 hm
    exact h
  | cons i ms ih =>
    obtain ⟨i', ms', rfl, hi, hms⟩ := List.map_eq_cons_iff.1 hm
    exact (ih hms h).cons hi

theorem lead_lead (its : List Item) : lead (lead its) = lead its := by
  cases its with
  | nil => rfl
  | cons i its =>
    rw [lead]
    split
    · rfl
    · next hi => rw [lead, if_neg hi]

/-- **One blank or several** make no difference. -/
theorem settle_blanks (p : Spot) (n : Nat) (its : List Item) :
    settle p (List.replicate (n + 1) .space ++ its) = settle p (.space :: its) := by
  induction n with
  | zero => rfl
  | succ n ih =>
    rw [List.replicate_succ, List.cons_append]
    cases p with
    | front => exact ih
    | _ => rw [settle_space (by simp), ih, settle_space (by simp), lead_lead]

/-- **A blank that does not show** makes no difference. -/
theorem settle_spared {its : List Item}
    (h : p = .front ∨ ∀ i ∈ (skip its).head?, i.clings = false) :
    settle p (.space :: its) = settle p its := by
  by_cases hp : p = .front
  · subst hp
    rfl
  · rw [settle_space hp]
    cases hs : settle p its with
    | nil => rfl
    | cons k ks =>
      refine if_neg ?_
      cases hk : k.isSpace with
      | true =>
        cases k with
        | space => nofun
        | _ => cases hk
      | false =>
        have hskip : skip (settle p its) = k :: ks := by
          rw [hs]
          cases k with
          | space => cases hk
          | _ => rfl
        obtain ⟨i, rest, hi, rfl⟩ := exists_of_skip_settle hskip
        have hclings := h.resolve_left hp i (by rw [hi]; rfl)
        rw [clings_mute, hclings]
        nofun

theorem settle_replicate (p : Spot) (n : Nat) : settle p (List.replicate n .space) = [] := by
  induction n with
  | zero => exact settle_nil p
  | succ n ih =>
    rw [List.replicate_succ]
    cases p with
    | front => exact ih
    | _ => rw [settle_space (by simp), ih, lead]

/-- **Blanks at the end** make no difference, unless they stand behind a sign. -/
theorem settle_end {its : List Item} (h : ∀ i ∈ its.getLast?, i.isSign = false) (n : Nat) :
    settle p (its ++ List.replicate n .space) = settle p its := by
  induction its generalizing p with
  | nil => rw [List.nil_append, settle_replicate, settle_nil]
  | cons i its ih =>
    have hbehind : SettleAlike (p.next i) its (its ++ List.replicate n .space) ∨
        i.isSign = false ∧ its = [] := by
      cases its with
      | nil => exact .inr ⟨h i rfl, rfl⟩
      | cons j its =>
        rw [List.getLast?_cons_cons] at h
        exact .inl ⟨ih h, fun _ => rfl⟩
    rcases hbehind with hbehind | ⟨hi, rfl⟩
    · exact (hbehind.cons rfl).settle
    · cases hs : i.isSpace with
      | true =>
        cases i with
        | space => exact (settle_replicate p (n + 1)).trans (settle_replicate p 1).symm
        | _ => cases hs
      | false =>
        rw [List.cons_append, settle_cons hs, settle_cons hs, settledBehind_of_not_sign hi,
          settledBehind_of_not_sign hi, List.nil_append, settle_replicate, settle_nil]

/-- Blanks in front make no difference. -/
theorem expression_skip (its : List Item) : expression (skip its) = expression its := by
  have hoperation : operation (skip its) = operation its := by
    unfold operation
    rw [← operand_skip]
  have hspaced : spaced (skip its) = spaced its := by
    unfold spaced
    rw [hoperation]
  have helements : commaElements (skip its) = commaElements its := by
    have hskip := skip_skip its
    cases hs : skip its with
    | nil =>
      rw [commaElements, commaElements]
      simp only [hs, skip]
    | cons i rest =>
      rw [hs] at hskip hspaced
      cases hi : i.isColon with
      | true =>
        cases i with
        | colon => rw [commaElements, commaElements, hs, hskip]
        | _ => cases hi
      | false => rw [commaElements_of_skip hskip hi, commaElements_of_skip hs hi, hspaced]
  unfold expression commaList
  rw [helements]

end Expr
end Stylesheet
