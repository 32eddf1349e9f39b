import Stylesheet.Log
import Stylesheet.Syntax.Parse

/-!
# Exporting declarations

Every top-level variable declaration gets its value wrapped in a call to an export function that
also receives the name: `$name: <value>;` becomes `$name: export_var("name",<value>);`. Flags
stand outside the value and stay where they are. Declarations inside blocks are local and stay as
they are, and so do plain properties.

* `wrapDeclaration`: what happens to one declaration.
* `wrapDeclarations`: all declarations of a tree in order, up to the first that cannot be wrapped.
-/

namespace Stylesheet
namespace Export

/-- The export function unless another name is chosen. -/
def defaultFunction : String := "export_var"

/-- Why declarations cannot be wrapped. -/
inductive Error where
  /-- The name of the export function would not read as a name. -/
  | invalidFunctionName (name : String)
  /-- A declaration holds a variable node without text. -/
  | unnamedVariable
  deriving DecidableEq, Repr

def Error.message : Error → String
  | invalidFunctionName name => "Invalid export function name \"" ++ name ++ "\""
  | unnamedVariable => "Variable node without a name in declaration"

/-- A text that is one name. -/
def isName (text : String) : Bool :=
  match tokenize text with
  | .ok [l] => l.token == .ident
  | _ => false

/-- The call of the export function with the name of the variable and its value. -/
def call (function name : String) (value : Node) : Node :=
  .sequence .function
    [.leaf .identifier function none,
      .sequence .arguments
        [.leaf .stringDouble name none, .leaf .punctuation "," none, value] none]
    none

/-- The variable that a declaration binds. -/
def declared? (declaration : Node) : Option Node :=
  (declaration.firstChild? .property).bind (·.firstChild? .variable)

/-- A declaration with its value wrapped; none if it has no variable or no value to wrap. -/
def wrapDeclaration (function : String) (declaration : Node) : Except Error (Option Node) :=
  match declared? declaration with
  | none => .ok none
  | some v =>
      match v.text? with
      | none => .error .unnamedVariable
      | some name =>
          match declaration with
          | .sequence k children span =>
              match children.findIdx? (·.is .value) with
              | none => .ok none
              | some i =>
                  .ok (some (.sequence k
                    (children.modify i fun value => call function name value.bare) span))
          | _ => .ok none

/-- `wrapDeclaration` on declarations; other nodes have nothing to wrap. -/
def wrapNode (function : String) (n : Node) : Except Error (Option Node) :=
  if n.is .declaration then wrapDeclaration function n else .ok none

/-- Nodes after the wrapping, and how many were wrapped or why the wrapping stopped. -/
def wrapAll (function : String) : List Node → List Node × Except Error Nat
  | [] => ([], .ok 0)
  | n :: ns =>
      match wrapNode function n with
      | .error e => (n :: ns, .error e)
      | .ok wrapped =>
          let (rest, result) := wrapAll function ns
          (wrapped.getD n :: rest, result.map (· + if wrapped.isSome then 1 else 0))

/-- A tree after the wrapping, and how many declarations were wrapped or why it stopped. -/
structure Outcome where
  tree : Node
  result : Except Error Nat

/-- What a finished wrapping reports. -/
def Outcome.records (o : Outcome) : List Log.Record :=
  match o.result with
  | .ok n => [⟨.debug, .exporter, "Rewrote " ++ toString n ++ " variable declarations"⟩]
  | .error _ => []

/-- Wrap the top-level variable declarations of a tree. -/
def wrapDeclarations (function : String) (tree : Node) : Outcome :=
  if isName function then
    match tree with
    | .leaf _ _ _ => ⟨tree, .ok 0⟩
    | .single k c s =>
        match wrapNode function c with
        | .error e => ⟨tree, .error e⟩
        | .ok none => ⟨tree, .ok 0⟩
        | .ok (some c) => ⟨.single k c s, .ok 1⟩
    | .sequence k cs s =>
        let (cs, result) := wrapAll function cs
        ⟨.sequence k cs s, result⟩
  else ⟨tree, .error (.invalidFunctionName function)⟩

end Export
end Stylesheet
