/-!
# Ranges of code points

A set of characters as a list of ranges of code points, both ends included.
-/

namespace Stylesheet
namespace Text

/-- Ranges of code points, both ends included. -/
abbrev Ranges := List (Nat × Nat)

/-- Whether a character lies in one of the ranges. -/
def Ranges.has (rs : Ranges) (c : Char) : Bool :=
  rs.any fun r => r.1 ≤ c.toNat && c.toNat ≤ r.2

end Text
end Stylesheet
