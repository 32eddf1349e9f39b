import Stylesheet.Name
import Stylesheet.Table
import Stylesheet.Value.Basic

/-!
# Scopes

The variables in reach: those of the stylesheet, and above them the scopes of the blocks that are
open, the innermost first. The body of a loop is a control scope: an assignment in it goes to the
variable of an enclosing scope if there is one.

* `find?`: the innermost variable of a name.
* `assign`: where an assignment goes.
-/

namespace Stylesheet

/-- Variables by their names. -/
abbrev Bindings := Table Name Value

/-- The variables of a block. -/
structure Scope where
  bindings : Bindings
  /-- Whether the block is the body of a loop. -/
  control : Bool

/-- The variables in reach. -/
structure Scopes where
  /-- The open blocks, the innermost first. -/
  locals : List Scope
  /-- The variables of the stylesheet. -/
  global : Bindings

namespace Scopes

/-- The innermost variable of a name among some blocks. -/
def findLocal? (n : Name) : List Scope → Option Value
  | [] => none
  | s :: ss => (s.bindings.find? n).or (findLocal? n ss)

/-- The innermost variable of a name. -/
def find? (s : Scopes) (n : Name) : Option Value := (findLocal? n s.locals).or (s.global.find? n)

/-- Set a variable of the stylesheet. -/
def setGlobal (s : Scopes) (n : Name) (v : Value) : Scopes :=
  { s with global := s.global.insert n v }

/-- Set the variable of a name that an assignment reaches: that of the innermost block that has
one, as long as only bodies of loops lie before it. None if there is none. -/
def reassign? (n : Name) (v : Value) (global : Bindings) : List Scope → Option Scopes
  | [] => if global.contains n then some ⟨[], global.insert n v⟩ else none
  | s :: ss =>
      if s.bindings.contains n then some ⟨{ s with bindings := s.bindings.insert n v } :: ss, global⟩
      else if s.control then
        (reassign? n v global ss).map fun r => { r with locals := s :: r.locals }
      else none

/-- Assign a variable: the one that the assignment reaches, or a new one of the innermost block. -/
def assign (s : Scopes) (n : Name) (v : Value) : Scopes :=
  match reassign? n v s.global s.locals with
  | some r => r
  | none =>
      match s.locals with
      | [] => s.setGlobal n v
      | inner :: outer =>
          { s with locals := { inner with bindings := inner.bindings.insert n v } :: outer }

/-- Open a block. -/
def push (s : Scopes) (scope : Scope) : Scopes := { s with locals := scope :: s.locals }

/-- Close the innermost block. -/
def pop (s : Scopes) : Scopes := { s with locals := s.locals.tail }

end Scopes
end Stylesheet
