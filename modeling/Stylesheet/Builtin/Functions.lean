import Stylesheet.Builtin.Collections
import Stylesheet.Builtin.Colors
import Stylesheet.Builtin.Scalars
import Stylesheet.Value.Arithmetic

/-!
# Built-in functions and modules

The built-in functions by name, and the modules through which a stylesheet can reach them.
-/

namespace Stylesheet
namespace Builtin

/-- Functions that are known but not available. A call to one fails instead of being left as it
is written. -/
def unavailable : List String :=
  ["adjust-color", "call", "change-color", "comparable", "content-exists", "feature-exists",
    "function-exists", "ie-hex-str", "is-bracketed", "is-superselector", "keywords",
    "mixin-exists", "module-functions", "module-variables", "random", "scale-color",
    "selector-append", "selector-extend", "selector-nest", "selector-parse", "selector-replace",
    "selector-unify", "set-nth", "simple-selectors", "str-index", "str-insert", "str-slice",
    "unique-id", "zip"]

/-- Every available function. -/
def functions : List (String × (List Value → Result Value)) :=
  colorFunctions ++ collectionFunctions ++ scalarFunctions

/-- Functions that with a single number are filters and are left as they are written. -/
def isFilter (name : String) (args : List Value) : Bool :=
  match args with
  | [.number _ _] => ["grayscale", "invert", "opacity", "saturate"].contains name
  | _ => false

/-- A call of a built-in function; none if there is no such function. -/
def call? (name : String) (args : List Value) : Option (Except RenderError Value) :=
  if isFilter name args then some (.ok (written name args))
  else
    match functions.lookup name with
    | some f => some ((f args).mapError (.call name))
    | none => if unavailable.contains name then some (.error (.call name .unsupported)) else none

/-- The built-in modules. -/
inductive Library where
  | colors
  | lists
  | maps
  | math
  | types
  | strings
  deriving DecidableEq, Repr

namespace Library

def ofName? : String → Option Library
  | "color" => some colors
  | "list" => some lists
  | "map" => some maps
  | "math" => some math
  | "meta" => some types
  | "string" => some strings
  | _ => none

/-- The quotient of two values. -/
def quotient (args : List Value) : Except RenderError Value :=
  match args with
  | [a, b] => (a.div b).mapError .fault
  | _ => .error (.call "div" (.argumentCount 2 2 args.length))

/-- A call of a function of a built-in module; none if the module has no such function. -/
def call? (l : Library) (name : String) (args : List Value) :
    Option (Except RenderError Value) :=
  match l, name with
  | math, "div" => some (quotient args)
  | math, "is-unitless" => Builtin.call? "unitless" args
  | maps, name =>
      if ["get", "keys", "values", "merge", "has-key", "remove"].contains name then
        Builtin.call? ("map-" ++ name) args
      else none
  | lists, "separator" => Builtin.call? "list-separator" args
  | strings, "length" => Builtin.call? "str-length" args
  | _, name => Builtin.call? name args

/-- A variable of a built-in module. -/
def constant? (l : Library) (name : String) : Option Value :=
  match l, name with
  | math, "pi" => some (.bare 3.141592653589793)
  | math, "e" => some (.bare 2.718281828459045)
  | _, _ => none

end Library
end Builtin
end Stylesheet
