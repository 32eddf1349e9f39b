import Stylesheet.Value.Equality
import Stylesheet.Value.Fault

/-!
# Arithmetic on values

Numbers add, subtract and compare when at most one unit is involved, multiply when at most one of
them has a unit, and divide when the divisor has no unit or the same one. Colors compute channel
by channel. What has no sum, difference or quotient is written out as a text.
-/

namespace Stylesheet
namespace Value

/-- The unit of a sum: the only one involved. -/
def commonUnit (u v : Option String) : Except Fault (Option String) :=
  match u, v with
  | some u, some v => if u = v then .ok (some u) else .error (.incompatibleUnits u v)
  | some u, none => .ok (some u)
  | none, v => .ok v

/-- An operation on two numbers whose result has their common unit. -/
def onNumbers (apply : Float → Float → Float) (x : Float) (u : Option String) (y : Float)
    (v : Option String) : Except Fault Value :=
  (commonUnit u v).map (number (apply x y))

/-- An operation on the channels of two colors. The result has the opacity of the first. -/
def onChannels (apply : Float → Float → Float) (c d : Color) : Value :=
  color (.clamped (apply c.red d.red) (apply c.green d.green) (apply c.blue d.blue) c.alpha)

/-- An operation on a color and something else: a color of the same opacity, or a number without
unit that counts for every channel. -/
def onColor (op : Operator) (apply : Float → Float → Float) (c : Color) (right : Value) :
    Except Fault Value :=
  match right with
  | color d =>
      if d.alpha == c.alpha then .ok (onChannels apply c d)
      else .error (.unequalAlpha (color c) op right)
  | number y none => .ok (onChannels apply c ⟨y, y, y, c.alpha⟩)
  | _ => .error (.undefinedOperation (color c) op right)

/-- An operation on a number without unit that counts for every channel, and a color. -/
def onNumberColor (op : Operator) (apply : Float → Float → Float) (left : Value) (d : Color) :
    Except Fault Value :=
  match left with
  | number x none =>
      .ok (color (.clamped (apply x d.red) (apply x d.green) (apply x d.blue) d.alpha))
  | _ => .error (.undefinedOperation left op (color d))

/-- Two values with a sign between them. -/
def written (l : Value) (sign : String) (r : Value) : Value :=
  unquoted (l.text ++ sign ++ r.text)

def add (l r : Value) : Except Fault Value :=
  match l, r with
  | number x u, number y v => onNumbers (· + ·) x u y v
  | color c, color _ | color c, number _ _ => onColor .plus (· + ·) c r
  | number _ _, color d => onNumberColor .plus (· + ·) l d
  | string s quoted, _ => .ok (string (s ++ r.plainText) quoted)
  | _, string t quoted => .ok (string (l.text ++ t) quoted)
  | _, _ => .ok (written l "+" r)

def sub (l r : Value) : Except Fault Value :=
  match l, r with
  | number x u, number y v => onNumbers (· - ·) x u y v
  | color c, color _ | color c, number _ _ => onColor .minus (· - ·) c r
  | number _ _, color _ => .error (.undefinedOperation l .minus r)
  | _, _ => .ok (written l "-" r)

def mul (l r : Value) : Except Fault Value :=
  match l, r with
  | color c, _ => onColor .times (· * ·) c r
  | number _ _, color d => onNumberColor .times (· * ·) l d
  | number _ (some _), number _ (some _) => .error (.noCssValue l .times r)
  | number x u, number y v => .ok (number (x * y) (u.or v))
  | _, _ => .error (.undefinedOperation l .times r)

def div (l r : Value) : Except Fault Value :=
  match l, r with
  | color c, color _ | color c, number _ _ => onColor .slash (· / ·) c r
  | number x u, number y none => .ok (number (x / y) u)
  | number x u, number y (some v) =>
      if u = some v then .ok (number (x / y) none) else .error (.noCssValue l .slash r)
  | _, _ => .ok (written l "/" r)

def rem (l r : Value) : Except Fault Value :=
  match l, r with
  | number x u, number y v => onNumbers Number.remainder x u y v
  | _, _ => .error (.undefinedOperation l .percent r)

/-- A comparison of two numbers that have the same unit, or of which one has none. -/
def compare (op : Operator) (holds : Float → Float → Bool) (l r : Value) : Except Fault Bool :=
  match l, r with
  | number x u, number y v => (commonUnit u v).map fun _ => holds x y
  | _, _ => .error (.undefinedOperation l op r)

def less (l r : Value) : Except Fault Bool := compare .less (· < ·) l r

def lessEqual (l r : Value) : Except Fault Bool := compare .lessEqual (· ≤ ·) l r

def greater (l r : Value) : Except Fault Bool := compare .greater (· > ·) l r

def greaterEqual (l r : Value) : Except Fault Bool := compare .greaterEqual (· ≥ ·) l r

/-- What an operator makes of two values. -/
def apply (op : Operator) (l r : Value) : Except Fault Value :=
  match op with
  | .or => .ok (if l.isTruthy then l else r)
  | .and => .ok (if l.isTruthy then r else l)
  | .equal => .ok (bool (l.same r))
  | .unequal => .ok (bool (!l.same r))
  | .less => (l.less r).map bool
  | .lessEqual => (l.lessEqual r).map bool
  | .greater => (l.greater r).map bool
  | .greaterEqual => (l.greaterEqual r).map bool
  | .plus => l.add r
  | .minus => l.sub r
  | .times => l.mul r
  | .slash => l.div r
  | .percent => l.rem r

end Value
end Stylesheet
