import Stylesheet.Builtin.Arguments

/-!
# Number, text and type functions
-/

namespace Stylesheet
namespace Builtin

/-! ### Numbers -/

def percentage : List Value → Result Value :=
  one fun v => do
    match ← numberOf v with
    | (x, none) => return .number (x * 100) (some "%")
    | (_, some unit) => .error (.unexpectedUnit unit)

/-- A function of the number alone, which keeps the unit. -/
def onNumber (f : Float → Float) : List Value → Result Value :=
  one fun v => do
    let (x, unit) ← numberOf v
    return .number (f x) unit

/-- The numbers of a list, if there is nothing else in it. -/
def numbers? : List Value → Option (List (Float × Option String))
  | [] => some []
  | .number x unit :: vs => (numbers? vs).map ((x, unit) :: ·)
  | _ :: _ => none

/-- Whether all units that occur are the same. -/
def unitsAgree (ns : List (Float × Option String)) : Bool :=
  match ns.filterMap (·.2) with
  | [] => true
  | u :: us => us.all (· == u)

/-- The best of some numbers; of equals, the first. -/
def best (better : Float → Float → Bool) (first : Float × Option String)
    (others : List (Float × Option String)) : Float × Option String :=
  others.foldl (fun b n => if better n.1 b.1 then n else b) first

/-- The best argument. Arguments that are not all numbers with compatible units are left as they
are written. -/
def extremum (name : String) (better : Float → Float → Bool) (args : List Value) : Result Value :=
  match numbers? args with
  | none => .ok (written name args)
  | some [] => .error .noArguments
  | some (n :: ns) =>
      if unitsAgree (n :: ns) then
        let (x, unit) := best better n ns
        .ok (.number x unit)
      else .ok (written name args)

/-! ### Texts -/

/-- A function of the text alone, which keeps the quotes. -/
def onText (f : String → String) : List Value → Result Value :=
  one fun v => do
    let (t, quoted) ← stringOf v
    return .string (f t) quoted

/-- A value made of the text of a string. -/
def ofText (f : String → Value) : List Value → Result Value :=
  one fun v => return f (← stringOf v).1

/-! ### Values of any type -/

def choose (args : List Value) : Result Value :=
  match args with
  | [condition, yes, no] => .ok (if condition.isTruthy then yes else no)
  | _ => badCount 3 3 args

def inspect : List Value → Result Value :=
  one fun v => .ok (.unquoted (if v.isNull then "null" else v.text))

/-- The number, text and type functions by their names. -/
def scalarFunctions : List (String × (List Value → Result Value)) :=
  [("if", choose), ("quote", ofText .quoted), ("unquote", ofText .unquoted),
    ("str-length", ofText fun t => .bare (Float.ofNat t.length)),
    ("to-upper-case", onText Text.upper), ("to-lower-case", onText Text.lower),
    ("type-of", one fun v => .ok (.unquoted v.typeName)), ("inspect", inspect),
    ("get-function", ofText .function), ("percentage", percentage),
    ("round", onNumber Float.round), ("floor", onNumber Float.floor),
    ("ceil", onNumber Float.ceil), ("abs", onNumber Float.abs),
    ("min", extremum "min" (· < ·)), ("max", extremum "max" (· > ·)),
    ("unit", one fun v => return .quoted ((← numberOf v).2.getD "")),
    ("unitless", one fun v => return .bool (← numberOf v).2.isNone)]

end Builtin
end Stylesheet
