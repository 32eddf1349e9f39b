/-!
# Places in a source

A span is a range of bytes of the UTF-8 form of a source; `width` measures characters in bytes.
-/

namespace Stylesheet

/-- A range of bytes of a source, the end excluded. -/
structure Span where
  start : Nat
  stop : Nat
  deriving DecidableEq, Repr, Inhabited

/-- The number of bytes of the characters in UTF-8. -/
def width : List Char → Nat
  | [] => 0
  | c :: cs => c.utf8Size + width cs

@[simp] theorem width_nil : width [] = 0 := rfl

@[simp] theorem width_append (s t : List Char) : width (s ++ t) = width s + width t := by
  induction s with
  | nil => simp
  | cons c s ih => simp [width, ih, Nat.add_assoc]

/-- The number of bytes of a text in UTF-8. -/
def byteLength (s : String) : Nat := width s.toList

end Stylesheet
