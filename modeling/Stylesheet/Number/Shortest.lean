import Stylesheet.Number.Binary

/-!
# Shortest decimals

The decimal that is written for a double: of all decimals that read back as the double, one with
the fewest digits, and of those the nearest. The reals that read back as `m * 2 ^ q` form an
interval around it, with its ends if `m` is even. The search goes from coarse powers of ten to
fine ones and stops at the first that has a multiple in the interval. Which of two decimals at the
same distance is taken is up to the caller.
-/

namespace Stylesheet

/-- The number `digits * 10 ^ exponent`. -/
structure Decimal where
  digits : Nat
  exponent : Int
  deriving DecidableEq, Repr

namespace Decimal

/-- The reals that read back as a double, in units of `2 ^ scale`. -/
structure Interval where
  low : Nat
  value : Nat
  high : Nat
  scale : Int
  /-- Whether the ends belong to it. -/
  closed : Bool
  deriving DecidableEq, Repr

/-- The interval of a double. Just above a power of two the next lower double is nearer. -/
def Interval.of (m : Nat) (q : Int) : Interval :=
  let low := if m = Binary.leastMantissa && q > -1074 then 4 * m - 1 else 4 * m - 2
  ⟨low, 4 * m, 4 * m + 2, q - 2, m % 2 = 0⟩

/-- Which of two numbers next to each other is taken for the point halfway between them. -/
inductive Tie where
  | larger
  | even
  deriving DecidableEq, Repr

/-- Whether the number above `below` is taken for the point halfway between the two. -/
def Tie.goesUp (t : Tie) (below : Nat) : Bool :=
  match t with
  | larger => true
  | even => below % 2 == 1

/-- The multiple of `10 ^ g` nearest to the value that lies in the interval, if one does. -/
def Interval.multiple? (i : Interval) (tie : Tie) (g : Int) : Option Nat :=
  let scaled (x : Nat) : Nat := (x <<< i.scale.toNat) * Nat.pow 10 (-g).toNat
  let unit := Nat.pow 10 g.toNat <<< (-i.scale).toNat
  let value := scaled i.value
  let below := value / unit
  let above := below + 1
  let fitsBelow := if i.closed then scaled i.low ≤ below * unit else scaled i.low < below * unit
  let fitsAbove := if i.closed then above * unit ≤ scaled i.high else above * unit < scaled i.high
  let toBelow := value - below * unit
  let toAbove := above * unit - value
  let up := if toAbove = toBelow then tie.goesUp below else toAbove < toBelow
  if fitsBelow then if fitsAbove && up then some above else some below
  else if fitsAbove then some above else none

/-- The first hit from `10 ^ g` on down to finer powers of ten. -/
def search (i : Interval) (tie : Tie) : (steps : Nat) → (g : Int) → Decimal
  | 0, g => ⟨0, g⟩
  | steps + 1, g =>
      match i.multiple? tie g with
      | some d => ⟨d, g⟩
      | none => search i tie steps (g - 1)

/-- The shortest decimal of a positive double. A double has at most seventeen digits, so a search
that starts one power of ten above it needs no more than twenty steps. -/
def shortest (tie : Tie) (m : Nat) (q : Int) : Decimal :=
  let top := (((m.log2 : Int) + q) * 30103).fdiv 100000 + 2
  search (.of m q) tie 24 top

end Decimal
end Stylesheet
