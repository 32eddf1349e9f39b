import Stylesheet.Render.State
import Stylesheet.Value.Pairs

/-!
# Evaluating expressions

Operands are evaluated from left to right and all of them, also those of `and` and `or`. A call
goes to the first of these that knows the name: the host, the stylesheet, the functions that are
left to the browser, the built-in functions, the built-in modules without a namespace. A call that
nobody knows is left as it is written.

* `Expr.eval`: the value of an expression.
* `bind`: how arguments go to parameters.
-/

namespace Stylesheet

/-- Evaluated arguments. -/
structure Arguments where
  positional : List Value
  named : List (Name × Value)

/-- Runs a function of a stylesheet that is called by the given name. -/
abbrev Caller (σ : Type) := String → UserFunction → Arguments → Render σ Value

namespace Eval

variable {σ : Type}

/-- The arguments of a function that knows no keywords. -/
def positional (function : String) (args : Arguments) : Render σ (List Value) :=
  match args.named with
  | [] => pure args.positional
  | (k, _) :: _ => throw (.call function (.keywordUnsupported k.text))

/-! ### Variables -/

/-- The value of a variable. -/
def valueOf (name : String) : Render σ Value := do
  let sheet ← Render.sheet
  let n := Name.ofString name
  match sheet.scopes.find? n with
  | some v => return v
  | none =>
      match sheet.namespaces.flat.findSome? (·.constant? n.text) with
      | some v => return v
      | none => throw (.undefinedVariable name)

/-- What a namespace stands for. -/
def namespaceOf (space : String) : Render σ Namespace := do
  match (← Render.sheet).namespaces.named.find? (.ofString space) with
  | some n => return n
  | none => Render.fault (.noNamespace space)

/-- A name behind its namespace. -/
def qualified (space name : String) : String := space ++ "." ++ name

/-- The value of a variable of a module. -/
def memberValue (space name : String) : Render σ Value := do
  let n := Name.ofString name
  let value : Option Value ← match ← namespaceOf space with
    | .library l => pure (l.constant? n.text)
    | .module path => pure ((← Render.module? path).bind (·.bindings.find? n))
  match value with
  | some v => return v
  | none => throw (.undefinedVariable (qualified space name))

/-! ### Calls -/

/-- Functions whose calls are left to the browser, arguments and all. -/
def browserFunctions : List String := ["url", "calc", "var", "env", "element", "expression"]

/-- Functions that ask for the variables in reach. -/
def existence? (scopes : Scopes) (function : String) : Option (Name → Bool) :=
  match function with
  | "variable-exists" => some fun n => (scopes.find? n).isSome
  | "global-variable-exists" => some scopes.global.contains
  | _ => none

/-- A call of a function that is neither the host's nor the stylesheet's. -/
def library (name : String) (args : List Value) : Render σ Value := do
  let sheet ← Render.sheet
  let n := Name.ofString name
  match existence? sheet.scopes n.text with
  | some exists? =>
      match args with
      | [v] => return .bool (exists? (.ofString v.plainText))
      | _ => throw (.call n.text (.argumentCount 1 1 args.length))
  | none =>
      match Builtin.call? n.text args with
      | some result => Render.ofExcept result
      | none =>
          match sheet.namespaces.flat.findSome? (·.call? n.text args) with
          | some result => Render.ofExcept result
          | none => return Builtin.written name args

/-- A call. The arguments are evaluated by whoever answers it. -/
def call (host : Host σ) (caller : Caller σ) (name printed : String)
    (args : Render σ Arguments) : Render σ Value := do
  match host.functions.function? name with
  | some f =>
      let vs ← positional name (← args)
      match ← Render.ofHost (f vs) with
      | .ok v => return v
      | .error message => throw (.call name (.host message))
  | none =>
      match (← Render.sheet).functions.find? (.ofString name) with
      | some f => caller name f (← args)
      | none =>
          if browserFunctions.contains (Text.asciiLower name) then return .unquoted printed
          else library name (← positional name (← args))

/-- A call of a function of a module. -/
def memberCall (caller : Caller σ) (space name : String) (args : Render σ Arguments) :
    Render σ Value := do
  let n := Name.ofString name
  let full := qualified space name
  match ← namespaceOf space with
  | .library l =>
      let vs ← positional full (← args)
      match l.call? n.text vs with
      | some result => Render.ofExcept result
      | none => throw (.call full .undefined)
  | .module path =>
      match (← Render.module? path).bind (·.functions.find? n) with
      | some f => caller full f (← args)
      | none => throw (.call full .undefined)

/-- A value with a sign in front. -/
def signed (sign : String) (v : Value) : Value := .unquoted (sign ++ v.text)

def negative : Value → Value
  | .number x unit => .number (-x) unit
  | v => signed "-" v

def positive : Value → Value
  | .number x unit => .number x unit
  | v => signed "+" v

/-- A pair more for a map that has no equal key. -/
def addPair (pairs : List (Value × Value)) (k v : Value) : Render σ (List (Value × Value)) :=
  if Pairs.hasKey pairs k then Render.fault (.duplicateKey k) else pure (pairs ++ [(k, v)])

/-- One argument more. -/
def Arguments.add (args : Arguments) (k : Option Name) (v : Value) : Arguments :=
  match k with
  | some n => { args with named := args.named ++ [(n, v)] }
  | none => { args with positional := args.positional ++ [v] }

end Eval

namespace Expr

variable {σ : Type} (host : Host σ) (caller : Caller σ)

mutual

/-- The value of an expression. -/
def eval : Expr → Render σ Value
  | literal v => pure v
  | invalid f => Render.fault f
  | trailing e f => do
      let _ ← eval e
      Render.fault f
  | .variable name => Eval.valueOf name
  | member space name => Eval.memberValue space name
  | call name args printed => Eval.call host caller name printed (evalArguments ⟨[], []⟩ args)
  | memberCall space name args =>
      Eval.memberCall caller space name (evalArguments ⟨[], []⟩ args)
  | list es separator => return .list (← evalAll es) separator
  | map ps => return .map (← evalPairs [] ps)
  | interpolation e => return .unquoted (← eval e).plainText
  | glued a b => do
      let v ← eval a
      let w ← eval b
      return .unquoted (v.plainText ++ w.plainText)
  | binary op a b => do
      let v ← eval a
      let w ← eval b
      Render.ofFault (Value.apply op v w)
  | negative e => return Eval.negative (← eval e)
  | positive e => return Eval.positive (← eval e)
  | not e => return .bool !(← eval e).isTruthy

/-- The values of expressions, from left to right. -/
def evalAll : List Expr → Render σ (List Value)
  | [] => pure []
  | e :: es => do
      let v ← eval e
      return v :: (← evalAll es)

/-- The pairs of a map, behind those that are evaluated already. -/
def evalPairs (done : List (Value × Value)) : List (Expr × Expr) → Render σ (List (Value × Value))
  | [] => pure done
  | (key, value) :: ps => do
      let k ← eval key
      let v ← eval value
      evalPairs (← Eval.addPair done k v) ps

/-- The arguments of a call, behind those that are evaluated already. -/
def evalArguments (done : Arguments) : List (Option Name × Expr) → Render σ Arguments
  | [] => pure done
  | (k, e) :: args => do
      let v ← eval e
      evalArguments (Eval.Arguments.add done k v) args

end

end Expr

namespace Eval

variable {σ : Type}

/-- The value of a named argument, and the others. -/
def takeNamed (n : Name) : List (Name × Value) → Option (Value × List (Name × Value))
  | [] => none
  | (m, v) :: rest =>
      if m = n then some (v, rest)
      else (takeNamed n rest).map fun (w, rest) => (w, (m, v) :: rest)

/-- Set a variable in the scope of an assignment. -/
def assign (n : Name) (v : Value) : Render σ Unit := Render.modifyScopes (·.assign n v)

/-- Bind arguments to parameters, from left to right. A parameter takes the next positional
argument, or the one with its name, or its default, which sees the parameters before it. -/
def bind (default : Expr → Render σ Value) (function : String) (count : Nat) :
    List Parameter → Arguments → Render σ Unit
  | [], args =>
      match args.positional, args.named with
      | _ :: _, _ => throw (.call function (.tooManyArguments count))
      | [], (k, _) :: _ => throw (.call function (.noSuchParameter k.text))
      | [], [] => pure ()
  | p :: ps, args => do
      let n := Name.ofString p.name
      if p.rest then
        assign n (.list args.positional .comma)
        bind default function count ps { args with positional := [] }
      else
        match args.positional with
        | v :: vs =>
            assign n v
            bind default function count ps { args with positional := vs }
        | [] =>
            match takeNamed n args.named with
            | some (v, named) =>
                assign n v
                bind default function count ps { args with named }
            | none =>
                match p.default with
                | some e =>
                    assign n (← default e)
                    bind default function count ps args
                | none => throw (.call function (.missingArgument p.name))

end Eval
end Stylesheet
