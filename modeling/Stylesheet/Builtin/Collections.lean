import Stylesheet.Builtin.Arguments
import Stylesheet.Value.Pairs

/-!
# List and map functions

Any value counts as a list where a list is expected. The joined and extended lists take the
separator that is asked for, or that of a list with more than one element, or a space.
-/

namespace Stylesheet
namespace Builtin

/-! ### Maps -/

def mapGet : List Value → Result Value :=
  two fun m key => return ((Pairs.get? (← pairsOf m) key).getD .null)

def mapHasKey : List Value → Result Value :=
  two fun m key => return .bool (Pairs.hasKey (← pairsOf m) key)

def mapKeys : List Value → Result Value :=
  one fun m => return .list ((← pairsOf m).map (·.1)) .comma

def mapValues : List Value → Result Value :=
  one fun m => return .list ((← pairsOf m).map (·.2)) .comma

def mapMerge : List Value → Result Value :=
  two fun a b => do
    let ps ← pairsOf a
    let qs ← pairsOf b
    return .map (Pairs.merge ps qs)

def mapRemove (args : List Value) : Result Value :=
  match args with
  | [] => .error .missingMap
  | m :: keys => return .map (Pairs.remove (← pairsOf m) keys)

/-! ### Lists -/

/-- The element at an index that counts from one, or from the end if it is negative. -/
def nth : List Value → Result Value :=
  two fun l i => do
    let items := l.elements
    let (index, _) ← numberOf i
    let refused : Result Value := .error (.invalidIndex index items.length)
    if !Number.isWhole index || index == 0 || index.abs > Float.ofNat items.length then refused
    else
      let n := (Number.toWord index.abs).toNat
      let position := if index > 0 then n - 1 else items.length - n
      match items[position]? with
      | some v => .ok v
      | none => refused

/-- The separator of a list with more than one element. -/
def ownSeparator? : Value → Option Separator
  | .list (_ :: _ :: _) separator => some separator
  | .map (_ :: _ :: _) => some .comma
  | _ => none

/-- The separator that an argument asks for, if it does. -/
def separatorOf (v : Value) : Result (Option Separator) :=
  match v.plainText with
  | "auto" => .ok none
  | "comma" => .ok (some .comma)
  | "space" => .ok (some .space)
  | t => .error (.invalidSeparator t)

def joined (a b : Value) (separator : Option Separator) : Value :=
  .list (a.elements ++ b.elements)
    (((separator.or (ownSeparator? a)).or (ownSeparator? b)).getD .space)

def join (args : List Value) : Result Value :=
  match args with
  | [a, b] => .ok (joined a b none)
  | [a, b, s] => return joined a b (← separatorOf s)
  | _ => badCount 2 3 args

def extended (l v : Value) (separator : Option Separator) : Value :=
  .list (l.elements ++ [v]) ((separator.or (ownSeparator? l)).getD .space)

def append (args : List Value) : Result Value :=
  match args with
  | [l, v] => .ok (extended l v none)
  | [l, v, s] => return extended l v (← separatorOf s)
  | _ => badCount 2 3 args

/-- Where an element stands, counted from one. -/
def index : List Value → Result Value :=
  two fun l v =>
    .ok <| match l.elements.findIdx? (·.same v) with
    | some i => .bare (Float.ofNat i + 1)
    | none => .null

def listSeparator : List Value → Result Value :=
  one fun l =>
    .ok <| .unquoted <| match l with
    | .list _ .comma | .map _ => "comma"
    | _ => "space"

/-- The list and map functions by their names. -/
def collectionFunctions : List (String × (List Value → Result Value)) :=
  [("map-get", mapGet), ("map-keys", mapKeys), ("map-values", mapValues), ("map-merge", mapMerge),
    ("map-has-key", mapHasKey), ("map-remove", mapRemove), ("nth", nth),
    ("length", one fun l => .ok (.bare (Float.ofNat l.elements.length))),
    ("join", join), ("append", append), ("index", index), ("list-separator", listSeparator)]

end Builtin
end Stylesheet
