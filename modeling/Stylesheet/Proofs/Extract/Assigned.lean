import Stylesheet.Extract.Run
import Stylesheet.Proofs.Export.Declarations
import Stylesheet.Proofs.Render.Sights

/-!
# The values that declarations assign

The declarations at the top of a source that a rendering evaluates, in their order and with the
values that they assign. A declaration is evaluated in the state that the statements in front of it
leave; one that is skipped for its default assigns nothing.

* `assigned`: the declarations at the top of a source with their values.
* `misread`: the declarations whose value is no list of arguments.
* `run_expression_eq_ok`: the value of a declaration from the values of its elements.
-/

namespace Stylesheet

open Render

/-! ### Declarations that are evaluated -/

variable {σ : Type}

/-- Whether a declaration with a default leaves the variable as it is. -/
def Sheet.keeps (s : Sheet) (name : String) (isDefault : Bool) : Bool :=
  isDefault && (s.scopes.find? (.ofString name)).any fun v => !v.isNull

section

variable [Log.Sink σ] (limits : Limits) (h : Host σ)

/-- The value that a declaration assigns in a state, if it is one that is evaluated. -/
def assigns? (s : State σ) (n : Node) : Option Value :=
  if n.is .declaration then
    match Stmt.ofDeclaration n with
    | .declare name e isDefault _ =>
        if s.sheet.keeps name isDefault then none
        else ((Render.value h limits e).run s).1.toOption
    | _ => none
  else none

/-- The state that the statements of some nodes leave. -/
def stateBehind (s : State σ) (front : List Node) : State σ :=
  ((Render.entry h limits (Stmt.ofNodes front)).run s).2

/-- The declarations among some nodes behind others, with the values that they assign. -/
def assignedBehind (s : State σ) : (front ns : List Node) → List (Node × Value)
  | _, [] => []
  | front, n :: ns =>
      ((assigns? limits h (stateBehind limits h s front) n).map (n, ·)).toList ++
        assignedBehind s (front ++ [n]) ns

/-- **The declarations at the top of a source** that a rendering evaluates, with the values that
they assign. -/
def assigned (tree : Node) (g : σ) : List (Node × Value) :=
  assignedBehind limits h (entryState g) [] tree.children

end

/-- What should be exported of a declaration. -/
def exportOf (x : Node × Value) : Exported :=
  ⟨.string ((Export.boundName? x.1).getD ""), .ofValue x.2⟩

/-- Whether a value read as arguments is not what it is as a list: there is nothing but blanks and
comments, or a comma behind a single element. -/
def misread (n : Node) : Bool :=
  match Expr.commaElements (Expr.itemsOf (Export.valueNodes n)) with
  | ([], _, _) => true
  | ([_], true, _) => true
  | _ => false

/-! ### Expressions -/

section

variable {h : Host σ} {caller : Caller σ}

theorem evalAll_length {es : List Expr} {s s' : State σ} {vs : List Value}
    (hs : (Expr.evalAll h caller es).run s = (.ok vs, s')) : vs.length = es.length := by
  induction es generalizing s vs with
  | nil =>
    unfold Expr.evalAll at hs
    obtain ⟨rfl, rfl⟩ := run_pure_eq_ok.1 hs
    rfl
  | cons e es ih =>
    unfold Expr.evalAll at hs
    obtain ⟨v, s₁, hv, hs⟩ := run_bind_eq_ok.1 hs
    obtain ⟨vs', s₂, hvs, hs⟩ := run_bind_eq_ok.1 hs
    obtain ⟨rfl, rfl⟩ := run_pure_eq_ok.1 hs
    rw [List.length_cons, List.length_cons, ih hvs]

/-- The value of a list from those of its elements. -/
def gathered (comma : Bool) (vs : List Value) : Value :=
  match comma, vs with
  | false, [v] => v
  | comma, vs => .list vs (if comma then .comma else .space)

theorem gathered_list {comma : Bool} {vs : List Value} (h : vs.length = 1 → comma = true) :
    gathered comma vs = .list vs (if comma then .comma else .space) := by
  rcases vs with _ | ⟨v, _ | ⟨w, vs⟩⟩
  · cases comma <;> rfl
  · rw [h rfl]
    rfl
  · cases comma <;> rfl

/-- **The value of an expression** is gathered from the values of its elements, which take all of
its items. -/
theorem run_expression_eq_ok {its : List Item} {s s' : State σ} {v : Value}
    (hs : ((Expr.expression its).eval h caller).run s = (.ok v, s')) :
    Expr.Finished its ∧ ∃ vs,
      (Expr.evalAll h caller (Expr.commaElements its).1).run s = (.ok vs, s') ∧
        v = gathered (Expr.commaElements its).2.1 vs := by
  by_cases hfinished : Expr.Finished its
  · refine ⟨hfinished, ?_⟩
    rcases Expr.expression_of_finished hfinished with ⟨e, he, heq⟩ | ⟨hone, heq⟩
    · rw [heq] at hs
      refine ⟨[v], ?_, ?_⟩
      · rw [he]
        unfold Expr.evalAll
        refine run_bind_eq_ok.2 ⟨v, s', hs, ?_⟩
        unfold Expr.evalAll
        exact run_bind_eq_ok.2 ⟨[], s', rfl, rfl⟩
      · rw [he]
        rfl
    · rw [heq] at hs
      unfold Expr.eval at hs
      obtain ⟨vs, s₁, hvs, hs⟩ := run_bind_eq_ok.1 hs
      obtain ⟨rfl, rfl⟩ := run_pure_eq_ok.1 hs
      refine ⟨vs, hvs, ?_⟩
      have hlength := evalAll_length hvs
      rw [gathered_list]
      intro h1
      exact hone (hlength.symm.trans h1)
  · obtain ⟨e, f, heq⟩ := Expr.expression_of_unfinished hfinished
    rw [heq] at hs
    unfold Expr.eval at hs
    obtain ⟨w, s₁, hw, hs⟩ := run_bind_eq_ok.1 hs
    cases hs

theorem evalArguments_eq (es : List Expr) (done : Arguments) :
    Expr.evalArguments h caller done (es.map fun e => (none, e)) =
      (do
        let vs ← Expr.evalAll h caller es
        return { done with positional := done.positional ++ vs }) := by
  induction es generalizing done with
  | nil => simp [Expr.evalArguments, Expr.evalAll]
  | cons e es ih =>
    simp only [List.map_cons, Expr.evalArguments, Expr.evalAll, ih, bind_assoc, pure_bind,
      Eval.Arguments.add, List.append_assoc, List.singleton_append]

/-- The value of a call of a host function from what the function gives. -/
def hostValue (name : String) : Except String Value → Render σ Value
  | .ok w => pure w
  | .error message => throw (.call name (.host message))

/-- **The value of a call of a host function** whose first argument is a value. -/
theorem run_hostCall {name printed : String} {f : HostFunction σ}
    (hf : h.functions.function? name = some f) (v : Value) (es : List Expr) :
    (Expr.call name ((none, .literal v) :: es.map fun e => (none, e)) printed).eval h caller =
      (do
        let vs ← Expr.evalAll h caller es
        hostValue name (← ofHost (f (v :: vs)))) := by
  unfold Expr.eval Eval.call
  rw [hf]
  simp only [Expr.evalArguments, Expr.eval, pure_bind, Eval.Arguments.add, evalArguments_eq,
    bind_assoc, Eval.positional, List.nil_append, List.singleton_append]
  refine bind_congr fun vs => bind_congr fun r => ?_
  cases r with
  | ok w => rfl
  | error message => rfl

end

/-! ### Declarations -/

/-- The scopes behind the assignment of a declaration. -/
def Scopes.declare (s : Scopes) (isGlobal : Bool) (n : Name) (v : Value) : Scopes :=
  if isGlobal then s.setGlobal n v else s.assign n v

/-- **A declaration succeeds** if it is skipped, or if it is evaluated and assigns the value. -/
theorem run_declare_eq_ok {evaluate : Expr → Render σ Value} {name : String} {e : Expr}
    {isDefault isGlobal : Bool} {s s' : State σ} :
    (declare evaluate name e isDefault isGlobal).run s = (.ok (), s') ↔
      (s.sheet.keeps name isDefault = true ∧ s' = s) ∨
        s.sheet.keeps name isDefault = false ∧ ∃ v s₁, (evaluate e).run s = (.ok v, s₁) ∧
          (modifyScopes (·.declare isGlobal (.ofString name) v)).run s₁ = (.ok (), s') := by
  have hrun : (declare evaluate name e isDefault isGlobal).run s =
      (if s.sheet.keeps name isDefault then pure ()
        else do
          let v ← evaluate e
          modifyScopes (·.declare isGlobal (.ofString name) v) : Render σ Unit).run s := by
    unfold Scopes.declare
    cases isGlobal <;> rfl
  rw [hrun]
  cases s.sheet.keeps name isDefault with
  | true =>
    rw [if_pos rfl, run_pure_eq_ok]
    simp
  | false =>
    rw [if_neg nofun, run_bind_eq_ok]
    simp

section

variable [Log.Sink σ] {limits : Limits} {h : Host σ} {notes : Notes σ}

/-- Statements at the top of a source succeed if those in front do, and then those behind. -/
theorem run_entry_append_eq_ok {ss ss' : List Stmt} {s s'' : State σ} :
    (Noted.entry notes h limits (ss ++ ss')).run s = (.ok none, s'') ↔
      ∃ s', (Noted.entry notes h limits ss).run s = (.ok none, s') ∧
        (Noted.entry notes h limits ss').run s' = (.ok none, s'') := by
  rw [Noted.entry_append, run_bind_eq_ok]
  constructor
  · rintro ⟨r, s', hr, hs⟩
    cases r with
    | some v => cases hs
    | none => exact ⟨s', hr, hs⟩
  · rintro ⟨s', hs, hs'⟩
    exact ⟨none, s', hs, hs'⟩

/-- A declaration at the top of a source succeeds if it does between two looks. -/
theorem run_declaration_eq_ok {name : String} {e : Expr} {isDefault isGlobal : Bool}
    {s s' : State (Traced Sight σ)} :
    (Sight.entry limits h [.declare name e isDefault isGlobal]).run s = (.ok none, s') ↔
      ∃ s₁ s₂, Sight.look.run s = (.ok (), s₁) ∧
        (declare (Sight.value limits h) name e isDefault isGlobal).run s₁ = (.ok (), s₂) ∧
          Sight.look.run s₂ = (.ok (), s') := by
  unfold Sight.entry Noted.entry Noted.top
  rw [Noted.execAll, Noted.exec, Sight.declared_notes]
  constructor
  · intro hs
    obtain ⟨_, s₁, hlook, hs⟩ := run_bind_eq_ok.1 hs
    obtain ⟨r, s₂, hdeclare, hs⟩ := run_bind_eq_ok.1 hs
    obtain ⟨_, s₃, hdeclare, hr⟩ := run_bind_eq_ok.1 hdeclare
    obtain ⟨rfl, rfl⟩ := run_pure_eq_ok.1 hr
    obtain ⟨_, s₄, hlook', hs⟩ := run_bind_eq_ok.1 hs
    cases hs
    exact ⟨s₁, s₂, hlook, hdeclare, hlook'⟩
  · rintro ⟨s₁, s₂, hlook, hdeclare, hlook'⟩
    refine run_bind_eq_ok.2 ⟨(), s₁, hlook, run_bind_eq_ok.2 ⟨none, s₂, ?_, ?_⟩⟩
    · exact run_bind_eq_ok.2 ⟨(), s₂, hdeclare, rfl⟩
    · exact run_bind_eq_ok.2 ⟨(), s', hlook', rfl⟩

/-- The declarations behind a declaration are those behind nothing, in the state it leaves. -/
theorem assignedBehind_cut {s s' : State σ} {front cs : List Node} {span : Option Span}
    (hs : (Render.entry h limits
      (Stmt.ofNodes (front ++ [.sequence .declaration cs span]))).run s = (.ok none, s'))
    (seg ns : List Node) :
    assignedBehind limits h s (front ++ .sequence .declaration cs span :: seg) ns =
      assignedBehind limits h s' seg ns := by
  induction ns generalizing seg with
  | nil => rfl
  | cons n ns ih =>
    -- what stands in front of a node is what is cut off and the rest
    have hnodes : Stmt.ofNodes (front ++ .sequence .declaration cs span :: seg) =
        Stmt.ofNodes (front ++ [.sequence .declaration cs span]) ++ Stmt.ofNodes seg := by
      rw [Stmt.ofNodes_declaration, Stmt.ofNodes_declaration, List.append_assoc]
      rfl
    have hstate : stateBehind limits h s (front ++ .sequence .declaration cs span :: seg) =
        stateBehind limits h s' seg := by
      rw [stateBehind, hnodes, entry_append, run_bind, hs]
      rfl
    have hseg : (front ++ .sequence .declaration cs span :: seg) ++ [n] =
        front ++ .sequence .declaration cs span :: (seg ++ [n]) := by
      rw [List.append_assoc, List.cons_append]
    rw [assignedBehind, assignedBehind, hstate, hseg, ih]

end

end Stylesheet
