/-!
# Doubles as exact numbers

A finite double is a sign, a natural number and a power of two. With these parts the remainder of
a division and the whole part of a number are computed exactly, in whole numbers.
-/

namespace Stylesheet

/-- What a double stands for. -/
inductive Binary where
  | nan
  | infinite (negative : Bool)
  /-- The number `mantissa * 2 ^ exponent`, with its sign. -/
  | finite (negative : Bool) (mantissa : Nat) (exponent : Int)
  deriving DecidableEq, Repr

namespace Binary

/-- The least mantissa of a double that is not among the very small ones: `2 ^ 52`. -/
def leastMantissa : Nat := 0x10000000000000

/-- The least word with a sign bit: `2 ^ 63`. -/
def signBit : Nat := 0x8000000000000000

/-- The parts of a double. -/
def ofFloat (x : Float) : Binary :=
  let bits : Nat := x.toBits.toNat
  let negative : Bool := bits ≥ signBit
  let field : Nat := bits % signBit / leastMantissa
  let fraction : Nat := bits % leastMantissa
  if field = 2047 then if fraction = 0 then infinite negative else nan
  else if field = 0 then finite negative fraction (-1074)
  else finite negative (leastMantissa + fraction) (field - 1075)

/-- The double of a mantissa below `2 ^ 53` and an exponent at which it is exact. -/
def compose (negative : Bool) (mantissa : Nat) (exponent : Int) : Float :=
  let x := (Float.ofNat mantissa).scaleB exponent
  if negative then -x else x

/-- The whole part, towards zero; none for infinities and what is no number. -/
def whole? : Binary → Option Int
  | finite negative m q =>
      let n : Int := if q ≥ 0 then m <<< q.toNat else m >>> (-q).toNat
      some (if negative then -n else n)
  | _ => none

end Binary

namespace Number

/-- The number without its digits after the point. -/
def truncate (x : Float) : Float := if x < 0 then x.ceil else x.floor

/-- The digits after the point. -/
def fraction (x : Float) : Float := x - truncate x

/-- Whether there are no digits after the point; so for no infinity. -/
def isWhole (x : Float) : Bool := fraction x == 0

/-- The exact remainder of a division towards zero; it has the sign of the dividend. -/
def remainder (x y : Float) : Float :=
  match Binary.ofFloat x, Binary.ofFloat y with
  | .finite negative m q, .finite _ n r =>
      if n = 0 then 0 / 0
      else
        let low := min q r
        let rest := (m <<< (q - low).toNat) % (n <<< (r - low).toNat)
        Binary.compose negative rest low
  | .finite _ _ _, .infinite _ => x
  | _, _ => 0 / 0

/-- The remainder that is not negative, as far as rounding allows. -/
def cycle (x y : Float) : Float :=
  let r := remainder x y
  if r < 0 then r + y.abs else r

/-- A number within bounds; what is no number stays so. -/
def clamp (low high x : Float) : Float := if x < low then low else if x > high then high else x

/-- The whole part of a double, held within the signed numbers of 64 bits. -/
def toWord (x : Float) : Int :=
  match Binary.ofFloat x with
  | .nan => 0
  | .infinite negative => if negative then -bound else bound - 1
  | b => max (-bound) (min (bound - 1) (b.whole?.getD 0))
where
  bound : Int := Binary.signBit

end Number
end Stylesheet
