import Stylesheet.Builtin.Functions
import Stylesheet.Expr.Basic
import Stylesheet.Table

/-!
# Statements

What a statement asks for, once its parts are read. A rule whose parts are not well formed keeps
the fault that its execution meets. The links of an `@if` chain are one statement.
-/

namespace Stylesheet

/-- A parameter of a function. -/
structure Parameter where
  /-- The name as it is spelled. -/
  name : String
  /-- What stands in for a missing argument. -/
  default : Option Expr
  /-- Whether it takes all positional arguments that are left. -/
  rest : Bool

/-- The name and the parameters of a function. -/
structure Signature where
  name : String
  parameters : List Parameter

/-- What an `@each` loop goes through, and the variables for each element. -/
structure EachHeader where
  names : List Name
  list : Expr

/-- What a `@for` loop counts. -/
structure ForHeader where
  counter : Name
  first : Expr
  last : Expr
  /-- Whether the last number belongs to it. -/
  inclusive : Bool

/-- Under which names a loaded module is reached. -/
inductive Alias where
  /-- The last part of its URL. -/
  | ofUrl
  | named (space : String)
  /-- No namespace. -/
  | flat
  /-- No namespace, but something in front of every name. -/
  | withFront (front : String)
  deriving DecidableEq, Repr

/-- What a rule that loads a module says. -/
structure LoadHeader where
  url : String
  as : Alias
  /-- Values for variables of the module. -/
  configuration : Option (Except Fault (List (Name × Expr)))

/-- The rules that load a module. -/
inductive Load where
  | use
  | forward
  deriving DecidableEq, Repr

def Load.keyword : Load → String
  | use => "use"
  | forward => "forward"

/-- The rules that report a value. -/
inductive Report where
  | error
  | warn
  | debug
  deriving DecidableEq, Repr

/-- A statement. -/
inductive Stmt where
  /-- A declaration without effect, such as that of a property. -/
  | inert
  | declare (name : String) (value : Expr) (isDefault isGlobal : Bool)
  /-- A style rule. -/
  | rule (body : List Stmt)
  /-- An at-rule whose block is a scope. -/
  | scoped (keyword : String) (body : List Stmt)
  /-- A chain of conditions with their blocks, and the block if none holds. -/
  | choose (links : List (Expr × List Stmt)) (otherwise : List Stmt)
  /-- A link of a chain without a chain before it. -/
  | strayElse
  | each (header : Except Fault EachHeader) (body : List Stmt)
  | for (header : Except Fault ForHeader) (body : List Stmt)
  | while (condition : Expr) (body : List Stmt)
  | report (what : Report) (value : Expr)
  | return (value : Expr)
  | function (signature : Except Fault Signature) (body : List Stmt)
  | imports (urls : List String)
  | load (what : Load) (header : Except Fault LoadHeader)
  /-- Any other at-rule. -/
  | other (keyword : String)

end Stylesheet
