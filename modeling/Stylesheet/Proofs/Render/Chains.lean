import Stylesheet.Proofs.Render.Simulation

/-!
# Chains link by link

The links of an `@if` chain are put together before they run. A run of the pieces one after the
other, which keeps in mind whether a chain is open and whether a block of it ran, does the same: a
link behind one whose block ran is passed over, and its condition is not evaluated.

* `Piece.exec`, `Piece.execAll`: pieces one after the other.
* `Piece.execAll_eq`: they do what the statements do that are made of them.
* `Piece.exec?_returns`: outside functions, they return nothing.
-/

namespace Stylesheet

open Render

variable {σ : Type} [Log.Sink σ] (host : Host σ) (limits : Limits) (caller : Caller σ)

namespace Piece

variable (place : Place σ)

/-- Run the block of a link if its condition holds. The result is none if it does not. -/
def link (condition : Expr) (body : List Stmt) : Render σ (Option (Option Value)) := do
  if (← condition.eval host caller).isTruthy then
    return some (← Stmt.execAll host limits caller place body)
  else return none

/-- Run a piece behind a chain: none if no chain is open, and else whether a block of it ran. The
result is the same for the chain behind the piece, and the value of a `@return`. -/
def exec (chain : Option Bool) : Piece → Render σ (Option Bool × Option Value)
  | .stmt s => do return (none, ← s.exec host limits caller place)
  | .ifLink condition body => do
      let ran ← link host limits caller place condition body
      return (some ran.isSome, ran.join)
  | .elseIfLink condition body =>
      match chain with
      | none => fault .elseWithoutIf
      | some true => return (some true, none)
      | some false => do
          let ran ← link host limits caller place condition body
          return (some ran.isSome, ran.join)
  | .elseLink body =>
      match chain with
      | none => fault .elseWithoutIf
      | some true => return (none, none)
      | some false => do return (none, ← Stmt.execAll host limits caller place body)

/-- Run pieces in order until one returns. -/
def execAll (chain : Option Bool) : List Piece → Render σ (Option Value)
  | [] => pure none
  | p :: ps => do
      match ← p.exec host limits caller place chain with
      | (_, some v) => return some v
      | (next, none) => execAll next ps

/-- Go on behind a piece, unless it returns. -/
def goOn (ps : List Piece) : Option Bool × Option Value → Render σ (Option Value)
  | (_, some v) => return some v
  | (chain, none) => execAll host limits caller place chain ps

theorem execAll_cons (chain : Option Bool) (p : Piece) (ps : List Piece) :
    execAll host limits caller place chain (p :: ps) =
      p.exec host limits caller place chain >>= goOn host limits caller place ps := by
  rw [execAll]
  refine bind_congr fun ⟨next, r⟩ => ?_
  cases r <;> rfl

/-- Run a piece if there is one. -/
def exec? (chain : Option Bool) : Option Piece → Render σ (Option Bool × Option Value)
  | none => return (chain, none)
  | some p => p.exec host limits caller place chain

theorem execAll_toList_append (chain : Option Bool) (p : Option Piece) (ps : List Piece) :
    execAll host limits caller place chain (p.toList ++ ps) =
      exec? host limits caller place chain p >>= goOn host limits caller place ps := by
  cases p with
  | none => rfl
  | some p => exact execAll_cons host limits caller place chain p ps

/-- Run the blocks of an open chain: that of the first condition that holds. -/
def openLinks : List (Expr × List Stmt) → Render σ (Option (Option Value))
  | [] => pure none
  | (condition, body) :: links => do
      match ← link host limits caller place condition body with
      | some r => return some r
      | none => openLinks links

theorem openLinks_append (links : List (Expr × List Stmt)) (condition : Expr) (body : List Stmt) :
    openLinks host limits caller place (links ++ [(condition, body)]) = (do
      match ← openLinks host limits caller place links with
      | some r => return some r
      | none => link host limits caller place condition body) := by
  induction links with
  | nil =>
    simp only [List.nil_append, openLinks, pure_bind]
    refine (bind_congr fun r => ?_).trans (bind_pure _)
    cases r <;> rfl
  | cons l links ih =>
    simp only [List.cons_append, openLinks, ih, bind_assoc]
    refine bind_congr fun r => ?_
    cases r with
    | none => rfl
    | some r => rw [pure_bind]

theorem execLinks_eq (otherwise : Render σ (Option Value)) (links : List (Expr × List Stmt)) :
    Stmt.execLinks host limits caller place otherwise links = (do
      match ← openLinks host limits caller place links with
      | some r => return r
      | none => otherwise) := by
  induction links with
  | nil => rw [Stmt.execLinks, openLinks, pure_bind]
  | cons l links ih =>
    obtain ⟨condition, body⟩ := l
    simp only [Stmt.execLinks, openLinks, link, bind_assoc, ih]
    refine bind_congr fun v => ?_
    split
    · simp
    · simp

/-- Run the links of an open chain, the last one first in the list; none is open if there are no
links. -/
def opened (links : Stmt.Links) : Render σ (Option Bool × Option Value) :=
  if links.isEmpty then return (none, none)
  else do
    let ran ← openLinks host limits caller place links.reverse
    return (some ran.isSome, ran.join)

theorem opened_cons (l : Expr × List Stmt) (links : Stmt.Links) :
    opened host limits caller place (l :: links) = (do
      let ran ← openLinks host limits caller place (l :: links).reverse
      return (some ran.isSome, ran.join)) := rfl

/-- The statement of a chain does what its links do. -/
theorem execAll_ofLinks (links : Stmt.Links) (ss : List Stmt) :
    Stmt.execAll host limits caller place (Stmt.ofLinks links ++ ss) = (do
      match ← opened host limits caller place links with
      | (_, some v) => return some v
      | (_, none) => Stmt.execAll host limits caller place ss) := by
  cases links with
  | nil => simp [Stmt.ofLinks, opened]
  | cons l links =>
    rw [opened_cons]
    simp only [Stmt.ofLinks, List.isEmpty_cons, Bool.false_eq_true, if_false, List.cons_append,
      List.nil_append, Stmt.execAll, Stmt.exec, execLinks_eq, bind_assoc, pure_bind]
    refine bind_congr fun ran => ?_
    cases ran with
    | none => simp
    | some r => cases r <;> simp

/-- Behind the links of an open chain, pieces do what the statements do that are made of both. -/
theorem execAll_assemble (ps : List Piece) (links : Stmt.Links) :
    Stmt.execAll host limits caller place (Stmt.assemble links ps) =
      opened host limits caller place links >>= goOn host limits caller place ps := by
  -- for any open links, since each piece adds one or closes the chain
  induction ps generalizing links with
  | nil =>
    rw [Stmt.assemble, ← List.append_nil (Stmt.ofLinks links), execAll_ofLinks]
    refine bind_congr fun ⟨next, r⟩ => ?_
    cases r <;> simp [goOn, execAll, Stmt.execAll]
  | cons p ps ih =>
    have first (links : Stmt.Links) (ss : List Stmt)
        (hss : ∀ chain, Stmt.execAll host limits caller place ss =
          execAll host limits caller place chain (p :: ps)) :
        Stmt.execAll host limits caller place (Stmt.ofLinks links ++ ss) =
          opened host limits caller place links >>= goOn host limits caller place (p :: ps) := by
      rw [execAll_ofLinks]
      refine bind_congr fun ⟨next, r⟩ => ?_
      cases r with
      | none => exact hss next
      | some v => rfl
    cases p with
    | stmt s =>
      refine first links _ fun chain => ?_
      rw [execAll_cons]
      simp only [Stmt.execAll, exec, ih, bind_assoc, pure_bind]
      refine bind_congr fun r => ?_
      cases r with
      | none => simp [opened, goOn]
      | some v => rfl
    | ifLink condition body =>
      refine first links _ fun chain => ?_
      rw [execAll_cons, ih, opened_cons]
      simp only [List.reverse_cons, List.reverse_nil, List.nil_append, openLinks, exec, bind_assoc]
      refine bind_congr fun ran => ?_
      cases ran <;> simp
    | elseIfLink condition body =>
      cases links with
      | nil => rfl
      | cons l links =>
        have hassemble : Stmt.assemble (l :: links) (.elseIfLink condition body :: ps) =
            Stmt.assemble ((condition, body) :: l :: links) ps := rfl
        rw [hassemble, ih, opened_cons, opened_cons, List.reverse_cons, openLinks_append]
        simp only [bind_assoc, pure_bind]
        refine bind_congr fun ran => ?_
        -- a link behind one whose block ran is passed over
        cases ran with
        | none => simp [goOn, execAll_cons, exec]
        | some r => cases r <;> simp [goOn, execAll_cons, exec]
    | elseLink body =>
      cases links with
      | nil => rfl
      | cons l links =>
        have hassemble : Stmt.assemble (l :: links) (.elseLink body :: ps) =
            .choose (l :: links).reverse body :: Stmt.assemble [] ps := rfl
        rw [hassemble, opened_cons]
        simp only [Stmt.execAll, Stmt.exec, execLinks_eq, ih, bind_assoc, pure_bind]
        refine bind_congr fun ran => ?_
        cases ran with
        | none =>
          simp only [Option.isSome_none, Option.join_none, goOn, execAll_cons, exec, bind_assoc,
            pure_bind]
          refine bind_congr fun r => ?_
          cases r <;> simp [goOn, opened]
        | some r => cases r <;> simp [goOn, execAll_cons, exec, opened]

/-- **Pieces one after the other** do what the statements do that are made of them. -/
theorem execAll_eq (ps : List Piece) :
    Stmt.execAll host limits caller place (Stmt.assemble [] ps) =
      execAll host limits caller place none ps := by
  rw [execAll_assemble]
  rfl

end Piece

/-! ### Outside functions -/

namespace Render.Comparison

/-- The comparison of steps with themselves, by their results. -/
abbrev results (σ : Type) [Log.Sink σ] : Comparison σ σ :=
  .restriction (fun _ => True) fun _ _ => trivial

theorem results_same {α : Type} (act : Render σ α) : (results σ).Same act act :=
  fun _ _ _ h => ⟨trivial, fun _ => ⟨trivial, h⟩⟩

theorem results_answers : (results σ).Answers host host := by
  intro name _
  cases host.functions.function? name with
  | none => exact .inl ⟨rfl, rfl⟩
  | some f => exact .inr ⟨f, f, rfl, rfl, fun args => results_same _⟩

theorem results_places (place : Place σ) : (results σ).Places place place := by
  cases place with
  | top loader =>
    exact .top ⟨fun _ => results_same _, fun url bindings =>
      (results σ).weaken (results_same _) fun _ _ _ _ _ _ => trivial⟩
  | loop => exact .loop
  | function => exact .function

end Render.Comparison

open Comparison

variable {place : Place σ} (hplace : place.isFunction = false)
include hplace

/-- Outside functions a statement returns nothing. -/
theorem Stmt.exec_returns (s : Stmt) :
    (results σ).Rel (· = none) (s.exec host limits caller place)
      (s.exec host limits caller place) := by
  rw [← Noted.exec_none]
  exact (results σ).weaken (Comparison.exec limits Comparison.noting_none (results_answers host)
    (fun _ _ _ _ => results_same _) (results_places place) s fun _ _ => trivial) fun _ h => h hplace

theorem Stmt.execAll_returns (ss : List Stmt) :
    (results σ).Rel (· = none) (Stmt.execAll host limits caller place ss)
      (Stmt.execAll host limits caller place ss) := by
  rw [← Noted.execAll_none]
  exact (results σ).weaken (Comparison.execAll limits Comparison.noting_none (results_answers host)
    (fun _ _ _ _ => results_same _) (results_places place) ss fun _ _ => trivial)
    fun _ h => h hplace

namespace Piece

/-- So does the block of a link. -/
theorem link_returns (condition : Expr) (body : List Stmt) :
    (results σ).Rel (·.join = none) (link host limits caller place condition body)
      (link host limits caller place condition body) := by
  unfold link
  refine (results σ).concord.andThen (results_same _) fun v => ?_
  split
  · exact (results σ).seq (Stmt.execAll_returns host limits caller hplace body) fun r hr =>
      (results σ).ret hr
  · exact (results σ).ret rfl

/-- So does a piece. -/
theorem exec?_returns (chain : Option Bool) (p : Option Piece) :
    (results σ).Rel (·.2 = none) (exec? host limits caller place chain p)
      (exec? host limits caller place chain p) := by
  let C := results σ
  have hlink (condition : Expr) (body : List Stmt) : C.Rel (·.2 = none)
      (do
        let ran ← link host limits caller place condition body
        return (some ran.isSome, ran.join))
      (do
        let ran ← link host limits caller place condition body
        return (some ran.isSome, ran.join)) :=
    C.seq (link_returns host limits caller hplace condition body) fun _ hr => C.ret hr
  cases p with
  | none => exact C.ret rfl
  | some p =>
    cases p with
    | stmt s => exact C.seq (Stmt.exec_returns host limits caller hplace s) fun _ hr => C.ret hr
    | ifLink condition body => exact hlink condition body
    | elseIfLink condition body =>
      rcases chain with _ | _ | _
      · exact C.fail _
      · exact hlink condition body
      · exact C.ret rfl
    | elseLink body =>
      rcases chain with _ | _ | _
      · exact C.fail _
      · exact C.seq (Stmt.execAll_returns host limits caller hplace body) fun _ hr => C.ret hr
      · exact C.ret rfl

end Piece
end Stylesheet
