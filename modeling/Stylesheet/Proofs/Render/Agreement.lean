import Stylesheet.Proofs.Import.Once
import Stylesheet.Proofs.Render.Walks

/-!
# The walks agree

The walk that may load files runs the statements of a stylesheet. Where nothing is loaded, it does
what the walk does that may return, to which the bodies of loops are left in any case.

* `Walk.evalNodes_eq`: the walk that may load files does what the statements do.
* `Walk.agree`: where nothing is loaded, both walks do the same.
-/

namespace Stylesheet

open Render

variable {σ : Type}

namespace Walk

theorem inScope_void (scope : Scope) (act : Render σ (Option Value)) :
    inScope scope (do let _ ← act) = (do let _ ← inScope scope act) := by
  funext s
  change (inScope scope (do let _ ← act)).run s = (do let _ ← inScope scope act).run s
  unfold inScope
  rw [run_around, run_bind, run_bind, run_around]
  rcases act.run _ with ⟨_ | r, s'⟩ <;> rfl

section

variable [Log.Sink σ] (host : Host σ) (limits : Limits) (caller : Caller σ) (loader : Loader σ)

/-! ### The walk that may load files runs the statements -/

theorem exec_link_top (keyword : String) (params : List Node) (body : List Stmt)
    (chain : Option Bool) (hk : keyword = "if" ∨ keyword = "else") :
    (do
      let (next, _) ←
        (Stmt.ofAtRule keyword params body).exec host limits caller (.top loader) chain
      return next) = (do
      let (next, taken) ← conditional host caller keyword params chain
      if taken then (do let _ ← Stmt.execAll host limits caller (.top loader) body)
      return next) := by
  rw [exec_link host limits caller _ _ _ _ chain hk]
  simp only [bind_assoc]
  refine bind_congr fun ⟨next, taken⟩ => ?_
  cases taken with
  | true => simp
  | false => simp

/-- A statement that is no link of a chain ends the chain before it. -/
theorem exec_stmt_top (st : Stmt) {act : Render σ Unit} (chain : Option Bool)
    (h : (do let _ ← st.exec host limits caller (.top loader)) = act) :
    (do
      let (next, _) ← (Piece.stmt st).exec host limits caller (.top loader) chain
      return next) = (do
      act
      return none) := by
  rw [← h]
  simp [Piece.exec]

/-- At-rules that are no links and load nothing, and have no block that is a scope, are the same
statements in a stylesheet and in the body of a loop. -/
theorem exec_top_eq_loop (keyword : String) (params : List Node) (body : List Stmt)
    (chain : Option Bool) (hif : keyword ≠ "if") (helse : keyword ≠ "else")
    (himport : keyword ≠ "import") (huse : keyword ≠ "use") (hforward : keyword ≠ "forward")
    (hmedia : keyword ≠ "media") (hsupports : keyword ≠ "supports") (hroot : keyword ≠ "at-root") :
    (Stmt.ofAtRule keyword params body).exec host limits caller (.top loader) chain =
      (Stmt.ofAtRule keyword params body).exec host limits caller .loop chain := by
  unfold Stmt.ofAtRule
  split
  all_goals first | contradiction | rfl

mutual

theorem evalNode_eq (chain : Option Bool) (n : Node) :
    evalNode host limits caller loader chain n = (do
      let (next, _) ← Piece.exec? host limits caller (.top loader) chain (Stmt.piece? n)
      return next) := by
  cases n with
  | leaf k t s => rfl
  | single k c s => rfl
  | sequence k cs s =>
    have hblock := evalBlock_eq cs
    have hscoped :
        (do
          let _ ← inScope ⟨.empty, false⟩
            (Stmt.execAll host limits caller (.top loader) (Stmt.block cs))) =
        inScope ⟨.empty, false⟩ (evalBlock host limits caller loader cs) := by
      rw [hblock, inScope_void]
    cases k with
    | declaration =>
      refine (exec_stmt_top host limits caller loader (Stmt.ofDeclaration _) chain ?_).symm
      rw [exec_ofDeclaration]
      simp [Stmt.silent]
    | rule =>
      exact (exec_stmt_top host limits caller loader (.rule (Stmt.block cs)) chain hscoped).symm
    | atRule =>
      unfold evalNode
      change _ = (do
        let (next, _) ← (Stmt.ofAtRule _ _ _).exec host limits caller (.top loader) chain
        return next)
      dsimp only
      split
      · next hk =>
        rw [hblock]
        exact (exec_link_top host limits caller loader _ _ _ chain (.inl hk)).symm
      · next hk =>
        rw [hblock]
        exact (exec_link_top host limits caller loader _ _ _ chain (.inr hk)).symm
      · next hk =>
        rw [hk]
        change _ = (do
          let (next, _) ← (Piece.stmt (.imports _)).exec host limits caller (.top loader) chain
          return next)
        simp [Piece.exec, Stmt.exec, Stmt.silent]
      · next hk =>
        rw [hk]
        change _ = (do
          let (next, _) ← (Piece.stmt (.load .use _)).exec host limits caller (.top loader) chain
          return next)
        simp [Piece.exec, Stmt.exec, Stmt.silent]
      · next hk =>
        rw [hk]
        change _ = (do
          let (next, _) ←
            (Piece.stmt (.load .forward _)).exec host limits caller (.top loader) chain
          return next)
        simp [Piece.exec, Stmt.exec, Stmt.silent]
      · next hk =>
        rw [hk]
        exact (exec_stmt_top host limits caller loader (.scoped _ _) chain hscoped).symm
      · next hk =>
        rw [hk]
        exact (exec_stmt_top host limits caller loader (.scoped _ _) chain hscoped).symm
      · next hk =>
        rw [hk]
        exact (exec_stmt_top host limits caller loader (.scoped _ _) chain hscoped).symm
      · next hif helse himport huse hforward hmedia hsupports hroot =>
        rw [exec_top_eq_loop host limits caller loader _ _ _ chain hif helse himport huse hforward
          hmedia hsupports hroot, execBlock_eq]
        have hwalk :=
          exec_ofAtRule host limits caller .stylesheet _ (Rule.parameters cs) cs chain hif helse
        change Piece.exec host limits caller .loop _ _ = _ at hwalk
        rw [hwalk]
        simp only [bind_assoc, pure_bind]
    | _ => rfl

theorem evalBlock_eq (ns : List Node) :
    evalBlock host limits caller loader ns =
      (do let _ ← Stmt.execAll host limits caller (.top loader) (Stmt.block ns)) := by
  match ns with
  | [] => rfl
  | .leaf _ _ _ :: ns => exact evalBlock_eq ns
  | .single _ _ _ :: ns => exact evalBlock_eq ns
  | .sequence k cs s :: ns =>
    have hpieces := evalNodes_eq none cs
    have hblock := evalBlock_eq ns
    by_cases hk : k = .block
    · subst hk
      rw [evalBlock, Stmt.block, Piece.execAll_eq, hpieces]
    · simp [evalBlock, Stmt.block, hk, hblock]

/-- **The walk that may load files** runs the statements of the nodes. -/
theorem evalNodes_eq (chain : Option Bool) (ns : List Node) :
    evalNodes host limits caller loader chain ns =
      (do let _ ← Piece.execAll host limits caller (.top loader) chain (Stmt.pieces ns)) := by
  match ns with
  | [] => rfl
  | n :: ns =>
    rw [evalNodes, Stmt.pieces, Piece.execAll_toList_append, evalNode_eq chain n]
    simp only [bind_assoc, pure_bind]
    refine bind_congr_ok fun s ⟨next, r⟩ s' hr => ?_
    -- this walk always goes on, and the statements do as none of a stylesheet returns
    obtain rfl : r = none := (Piece.exec?_returns host limits caller rfl chain _ s _ s' hr).1
    exact evalNodes_eq next ns

end

/-! ### Where nothing is loaded -/

mutual

/-- No rule in a node loads another file, at whatever depth. -/
def loadsNothing : Node → Bool
  | .leaf _ _ _ => true
  | .single _ c _ => loadsNothing c
  | .sequence k cs _ =>
      !(k == .atRule && ["import", "use", "forward"].contains ((cs.head?.map Node.text).getD "")) &&
        allLoadNothing cs

def allLoadNothing : List Node → Bool
  | [] => true
  | n :: ns => loadsNothing n && allLoadNothing ns

end

mutual

theorem evalNode_agree (chain : Option Bool) (n : Node) (hn : loadsNothing n = true) :
    evalNode host limits caller loader chain n = (do
      let (next, _) ← execNode host limits caller .stylesheet chain n
      return next) := by
  cases n with
  | leaf k t s => rfl
  | single k c s => rfl
  | sequence k cs s =>
    rw [loadsNothing, Bool.and_eq_true] at hn
    have hblock := evalBlock_agree cs hn.2
    have hscoped :
        (do
          inScope ⟨.empty, false⟩ (evalBlock host limits caller loader cs)
          return (none : Option Bool)) =
        (do
          let (next, _) ← (do
            return ((none : Option Bool), ← inScope ⟨.empty, false⟩
              (execBlock host limits caller .stylesheet cs)))
          return next) := by
      rw [hblock, inScope_void]
      simp
    have hlink (keyword : String) :
        (do
          let (next, taken) ← conditional host caller keyword (Rule.parameters cs) chain
          if taken then evalBlock host limits caller loader cs
          return next) =
        (do
          let (next, _) ← (do
            let (next, taken) ← conditional host caller keyword (Rule.parameters cs) chain
            if taken then return (next, ← execBlock host limits caller .stylesheet cs)
            else return (next, none))
          return next) := by
      simp only [bind_assoc, hblock]
      refine bind_congr fun ⟨next, taken⟩ => ?_
      cases taken <;> simp
    cases k with
    | declaration => simp [evalNode, execNode]
    | rule => exact hscoped
    | atRule =>
      -- the three rules that load something are the only ones that the walks treat differently
      have hload := hn.1
      simp only [beq_self_eq_true, Bool.true_and, Bool.not_eq_true', List.contains_eq_mem,
        decide_eq_false_iff_not] at hload
      unfold evalNode execNode
      dsimp only
      split
      · next hk =>
        rw [hk]
        exact hlink "if"
      · next hk =>
        rw [hk]
        exact hlink "else"
      · next hk => exact absurd (by simp [hk]) hload
      · next hk => exact absurd (by simp [hk]) hload
      · next hk => exact absurd (by simp [hk]) hload
      · next hk =>
        rw [hk]
        exact hscoped
      · next hk =>
        rw [hk]
        exact hscoped
      · next hk =>
        rw [hk]
        exact hscoped
      · next hif helse himport huse hforward hmedia hsupports hroot =>
        split
        · next hk => exact absurd hk hif
        · next hk => exact absurd hk helse
        · simp only [bind_assoc, pure_bind]
    | _ => rfl

theorem evalBlock_agree (ns : List Node) (hns : allLoadNothing ns = true) :
    evalBlock host limits caller loader ns =
      (do let _ ← execBlock host limits caller .stylesheet ns) := by
  match ns with
  | [] => rfl
  | n :: ns =>
    rw [allLoadNothing, Bool.and_eq_true] at hns
    have hrest := evalBlock_agree ns hns.2
    cases n with
    | leaf k t s => exact hrest
    | single k c s => exact hrest
    | sequence k cs s =>
      rw [loadsNothing, Bool.and_eq_true] at hns
      have hnodes := evalNodes_agree none cs hns.1.2
      by_cases hk : k = .block
      · subst hk
        exact hnodes
      · simp [evalBlock, execBlock, hk, hrest]

theorem evalNodes_agree (chain : Option Bool) (ns : List Node) (hns : allLoadNothing ns = true) :
    evalNodes host limits caller loader chain ns =
      (do let _ ← execNodes host limits caller .stylesheet chain ns) := by
  match ns with
  | [] => rfl
  | n :: ns =>
    rw [allLoadNothing, Bool.and_eq_true] at hns
    have hrest (next : Option Bool) := evalNodes_agree next ns hns.2
    rw [evalNodes, execNodes, evalNode_agree chain n hns.1]
    simp only [bind_assoc, pure_bind]
    refine bind_congr_ok fun s ⟨next, r⟩ s' hr => ?_
    -- the second walk goes on like the first one, as no statement of a stylesheet returns
    rw [execNode_eq] at hr
    obtain rfl : r = none := (Piece.exec?_returns host limits caller rfl chain _ s _ s' hr).1
    exact hrest next

end

/-- **The walks agree** where nothing is loaded: they end alike, in the same state, and so with the
same calls of the host. The one that may return has nothing to return in a stylesheet. Both run the
statements that are made of the nodes. -/
theorem agree {ns : List Node} (hns : allLoadNothing ns = true) :
    evalNodes host limits caller loader none ns =
        (do let _ ← execNodes host limits caller .stylesheet none ns) ∧
      (∀ s v s', (execNodes host limits caller .stylesheet none ns).run s ≠ (.ok (some v), s')) ∧
      evalNodes host limits caller loader none ns =
        (do let _ ← Stmt.execAll host limits caller (.top loader) (Stmt.ofNodes ns)) ∧
      execNodes host limits caller .stylesheet none ns =
        Stmt.execAll host limits caller .loop (Stmt.ofNodes ns) := by
  have hexec : execNodes host limits caller .stylesheet none ns =
      Stmt.execAll host limits caller .loop (Stmt.ofNodes ns) := by
    rw [execNodes_eq, Stmt.ofNodes, Piece.execAll_eq]
    rfl
  refine ⟨evalNodes_agree host limits caller loader none ns hns, fun s v s' hr => ?_, ?_, hexec⟩
  · rw [hexec] at hr
    exact nomatch (Stmt.execAll_returns host limits caller rfl _ s _ s' hr).1
  · rw [evalNodes_eq, Stmt.ofNodes, Piece.execAll_eq]

end

/-- The nodes of a condition with a rule in its block, and of a loop. -/
def sampleNodes : List Node :=
  [.sequence .atRule [.leaf .identifier "if" none, .leaf .identifier "true" none,
      .sequence .block [.sequence .rule [.sequence .block [] none] none] none] none,
    .sequence .atRule [.leaf .identifier "while" none, .leaf .identifier "false" none,
      .sequence .block [.sequence .atRule [.leaf .identifier "media" none] none] none] none]

theorem agree_sample :
    let host := Import.fileHost (σ := List Log.Record) (.ofList []) [] ⟨"./entry.scss"⟩ .empty
    let caller := callAt host .standard 1
    let loader := Render.loader host .standard none .entry
    allLoadNothing sampleNodes = true ∧
      evalNodes host .standard caller loader none sampleNodes =
        (do let _ ← execNodes host .standard caller .stylesheet none sampleNodes) := by
  have h : allLoadNothing sampleNodes = true := by decide
  exact ⟨h, (agree _ _ _ _ h).1⟩

end Walk
end Stylesheet
