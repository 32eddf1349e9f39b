import Stylesheet.Number.Shortest

/-!
# Reading numbers

The double nearest to a decimal that is written with digits, at most one point, and an optional
exponent.
-/

namespace Stylesheet
namespace Number

def isDigit (c : Char) : Bool := '0' ≤ c && c ≤ '9'

/-- The number that digits stand for. -/
def ofDigits (ds : List Char) : Nat := ds.foldl (fun n d => 10 * n + (d.toNat - '0'.toNat)) 0

/-- The double nearest to a decimal. A decimal with all its digits above `10 ^ 310` is too large,
and one below `10 ^ -330` too small, for any double but an infinity or zero. -/
def nearest (d : Decimal) : Float :=
  let magnitude := d.exponent + (toString d.digits).length
  if d.digits = 0 then 0
  else if magnitude > 310 then 1 / 0
  else if magnitude < -330 then 0
  else if d.exponent ≥ 0 then Float.ofScientific d.digits false d.exponent.toNat
  else Float.ofScientific d.digits true (-d.exponent).toNat

/-- The exponent after its mark; none if no digit follows. -/
def exponent? (cs : List Char) : Option Int :=
  let ofUnsigned (ds : List Char) : Option Int :=
    if !ds.isEmpty && ds.all isDigit then some (ofDigits ds) else none
  match cs with
  | '-' :: ds => (ofUnsigned ds).map fun n => -n
  | '+' :: ds => ofUnsigned ds
  | ds => ofUnsigned ds

/-- The decimal that a text stands for: digits with at most one point and at least one digit,
then an optional exponent. -/
def decimal? (cs : List Char) : Option Decimal :=
  let before := cs.takeWhile isDigit
  let rest := cs.dropWhile isDigit
  let (after, rest) := match rest with
    | '.' :: rest => (rest.takeWhile isDigit, rest.dropWhile isDigit)
    | rest => ([], rest)
  if before.isEmpty && after.isEmpty then none
  else
    let digits := ofDigits (before ++ after)
    match rest with
    | [] => some ⟨digits, -after.length⟩
    | c :: rest =>
        if c == 'e' || c == 'E' then
          (exponent? rest).map fun e => ⟨digits, e - after.length⟩
        else none

/-- The double that a text stands for. -/
def read? (cs : List Char) : Option Float := (decimal? cs).map nearest

end Number
end Stylesheet
