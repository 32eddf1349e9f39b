import Stylesheet.Number.Shortest

/-!
# Written numbers

Ways to write the shortest decimal of a double: `plain`, with as many zeros as it takes; `short`,
the same with at most ten places after the point; and `json?`, which always shows a point and goes
over to an exponent for very large and very small numbers.
-/

namespace Stylesheet
namespace Number

/-- A decimal without exponent. -/
def positional (d : Decimal) : List Char :=
  let digits := (toString d.digits).toList
  if d.exponent ≥ 0 then digits ++ List.replicate d.exponent.toNat '0'
  else
    let places := (-d.exponent).toNat
    if digits.length > places then
      digits.take (digits.length - places) ++ '.' :: digits.drop (digits.length - places)
    else '0' :: '.' :: List.replicate (places - digits.length) '0' ++ digits

/-- A decimal with an exponent: one digit, the others after a point, and an exponent with its
sign. -/
def scientific (d : Decimal) : List Char :=
  let digits := (toString d.digits).toList
  let exponent := d.exponent + digits.length - 1
  digits.take 1 ++ (if digits.length > 1 then '.' :: digits.drop 1 else []) ++
    'e' :: (if exponent < 0 then '-' else '+') :: (toString exponent.natAbs).toList

/-- The text of a number without exponent. Zero keeps its sign. -/
def plain (x : Float) : String :=
  match Binary.ofFloat x with
  | .nan => "NaN"
  | .infinite negative => if negative then "-inf" else "inf"
  | .finite negative m q =>
      let text := if m = 0 then ['0'] else positional (.shortest .larger m q)
      String.ofList (if negative then '-' :: text else text)

/-- The text of a number in a stylesheet: at most ten places after the point, so that the noise of
earlier roundings does not show, and zero without a sign. -/
def short (x : Float) : String :=
  let rounded := if x.abs < 1e15 then (x * 1e10).round / 1e10 else x
  if rounded == 0 then "0" else plain rounded

/-- The text of a number in a data file; none for infinities and what is no number. The exponent
shows from `10 ^ 16` on and below `10 ^ -5`. -/
def json? (x : Float) : Option String :=
  match Binary.ofFloat x with
  | .finite negative m q =>
      let text :=
        if m = 0 then "0.0".toList
        else
          let d := Decimal.shortest .even m q
          let magnitude := d.exponent + (toString d.digits).length
          if -5 < magnitude && magnitude ≤ 16 then
            positional d ++ if d.exponent ≥ 0 then ['.', '0'] else []
          else scientific d
      some (String.ofList (if negative then '-' :: text else text))
  | _ => none

end Number
end Stylesheet
