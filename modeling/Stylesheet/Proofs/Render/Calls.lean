import Stylesheet.Render.State

/-!
# The functions that are called

The names of the functions that expressions and statements call without a namespace. What a
stylesheet or a module calls later is what its functions call.

* `Expr.calls`, `Stmt.calls`: the names that are called.
* `Sheet.CallsOnly`, `Module.CallsOnly`: every call of every function is of an allowed name.
-/

namespace Stylesheet

/-! ### Tables of one kind of values -/

namespace Table

variable {κ α : Type} {P : α → Prop}

/-- Every value of a table has a property. -/
def All (P : α → Prop) (t : Table κ α) : Prop := ∀ e ∈ t.entries, P e.2

theorem all_empty : (empty : Table κ α).All P := by
  intro e he
  cases he

variable [BEq κ]

theorem All.insert {t : Table κ α} (h : t.All P) (k : κ) {a : α} (ha : P a) :
    (t.insert k a).All P := by
  -- an entry of the new table is an old one or holds the new value
  have key : ∀ es : List (κ × α), (∀ e ∈ es, P e.2) → ∀ e ∈ put k a es, P e.2 := by
    intro es
    induction es with
    | nil =>
      intro _ e he
      rw [put, List.mem_singleton] at he
      rw [he]
      exact ha
    | cons x xs ih =>
      intro hx e he
      rw [List.forall_mem_cons] at hx
      unfold put at he
      split at he
      · rcases List.mem_cons.1 he with rfl | he
        · exact ha
        · exact hx.2 e he
      · rcases List.mem_cons.1 he with rfl | he
        · exact hx.1
        · exact ih hx.2 e he
  exact key t.entries h

theorem All.insertAll {t : Table κ α} (h : t.All P) {es : List (κ × α)}
    (hes : ∀ e ∈ es, P e.2) : (t.insertAll es).All P := by
  unfold Table.insertAll
  induction es generalizing t with
  | nil => exact h
  | cons e es ih =>
    rw [List.forall_mem_cons] at hes
    exact ih (h.insert e.1 hes.1) hes.2

theorem All.find? {t : Table κ α} (h : t.All P) {k : κ} {a : α} (ha : t.find? k = some a) :
    P a := by
  unfold Table.find? at ha
  rw [Option.map_eq_some_iff] at ha
  obtain ⟨e, he, rfl⟩ := ha
  exact h e (List.mem_of_find?_eq_some he)

end Table

/-! ### Expressions and statements -/

namespace Expr

mutual

/-- The names of the functions that an expression calls without a namespace. -/
def calls : Expr → List Name
  | literal _ | invalid _ | .variable _ | member _ _ => []
  | trailing e _ | interpolation e | negative e | positive e | not e => e.calls
  | call name args _ => .ofString name :: callsOfArguments args
  | memberCall _ _ args => callsOfArguments args
  | list es _ => callsOfAll es
  | map ps => callsOfPairs ps
  | glued a b | binary _ a b => a.calls ++ b.calls

/-- The names that expressions call. -/
def callsOfAll : List Expr → List Name
  | [] => []
  | e :: es => e.calls ++ callsOfAll es

/-- The names that the keys and values of a map call. -/
def callsOfPairs : List (Expr × Expr) → List Name
  | [] => []
  | (k, v) :: ps => k.calls ++ v.calls ++ callsOfPairs ps

/-- The names that arguments call. -/
def callsOfArguments : List (Option Name × Expr) → List Name
  | [] => []
  | (_, e) :: args => e.calls ++ callsOfArguments args

end

end Expr

/-- What is called in a part of a rule; nothing if the part is not well formed. -/
def callsOf {α : Type} (calls : α → List Name) : Except Fault α → List Name
  | .ok a => calls a
  | .error _ => []

def Parameter.calls (p : Parameter) : List Name := (p.default.map Expr.calls).getD []

def ForHeader.calls (h : ForHeader) : List Name := h.first.calls ++ h.last.calls

def LoadHeader.calls (h : LoadHeader) : List Name :=
  match h.configuration with
  | none => []
  | some c => callsOf (·.flatMap fun (_, e) => e.calls) c

namespace Stmt

mutual

/-- The names of the functions that a statement calls without a namespace. -/
def calls : Stmt → List Name
  | inert | strayElse | imports _ | other _ => []
  | declare _ e _ _ | report _ e | .return e => e.calls
  | rule body | .scoped _ body => callsOfAll body
  | choose links otherwise => callsOfLinks links ++ callsOfAll otherwise
  | each header body => callsOf (·.list.calls) header ++ callsOfAll body
  | .for header body => callsOf ForHeader.calls header ++ callsOfAll body
  | .while condition body => condition.calls ++ callsOfAll body
  | function signature body =>
      callsOf (·.parameters.flatMap Parameter.calls) signature ++ callsOfAll body
  | load _ header => callsOf LoadHeader.calls header

/-- The names that statements call. -/
def callsOfAll : List Stmt → List Name
  | [] => []
  | s :: ss => s.calls ++ callsOfAll ss

/-- The names that the conditions and blocks of a chain call. -/
def callsOfLinks : List (Expr × List Stmt) → List Name
  | [] => []
  | (condition, body) :: links => condition.calls ++ callsOfAll body ++ callsOfLinks links

end

theorem callsOfAll_append (ss ss' : List Stmt) :
    callsOfAll (ss ++ ss') = callsOfAll ss ++ callsOfAll ss' := by
  induction ss with
  | nil => rfl
  | cons s ss ih => rw [List.cons_append, callsOfAll, callsOfAll, ih, List.append_assoc]

end Stmt

def UserFunction.calls (f : UserFunction) : List Name :=
  f.parameters.flatMap Parameter.calls ++ Stmt.callsOfAll f.body

/-! ### Stylesheets and modules -/

/-- Every call of a function is of an allowed name. -/
def UserFunction.CallsOnly (ok : Name → Prop) (f : UserFunction) : Prop := ∀ n ∈ f.calls, ok n

/-- Every call of every function of a module is of an allowed name. -/
def Module.CallsOnly (ok : Name → Prop) (m : Module) : Prop := m.functions.All (·.CallsOnly ok)

namespace Sheet

variable {ok : Name → Prop}

/-- Every call of every function of a stylesheet is of an allowed name. -/
def CallsOnly (ok : Name → Prop) (s : Sheet) : Prop := s.functions.All (·.CallsOnly ok)

theorem callsOnly_start (bindings : Bindings) (path : Option Path) :
    (start bindings path).CallsOnly ok := Table.all_empty

theorem CallsOnly.merge {s : Sheet} {m : Module} (hs : s.CallsOnly ok) (hm : m.CallsOnly ok)
    (front : Name) : (s.merge m front).CallsOnly ok := by
  refine Table.All.insertAll hs fun e he => ?_
  obtain ⟨x, hx, rfl⟩ := List.mem_map.1 he
  exact hm x hx

end Sheet
end Stylesheet
