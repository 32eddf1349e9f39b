import Stylesheet.Export
import Stylesheet.Render.State

/-!
# Settings

Limits and the name of the export function as they are read from a JSON object. A field that is
missing has its standard value, and one that is unknown is ignored.

* `limits?`: the limits; each is an integer of 64 bits without a sign.
* `exportFunction?`: the name of the export function.
-/

namespace Stylesheet
namespace Settings

/-- What a field of a JSON object holds. -/
inductive Field where
  /-- A number as it is written. -/
  | number (literal : String)
  | text (s : String)
  | other
  deriving DecidableEq, Repr

/-- The natural number that a field holds, if it is an integer of 64 bits that is written without
sign, point and exponent. -/
def Field.nat? : Field → Option Nat
  | number literal =>
      if literal.toList.all Char.isDigit then
        let n := literal.toList.foldl (fun n c => 10 * n + (c.toNat - '0'.toNat)) 0
        if n < UInt64.size then some n else none
      else none
  | _ => none

def Field.text? : Field → Option String
  | text s => some s
  | _ => none

/-- The fields of a JSON object; the last of a name counts. -/
abbrev Fields := List (String × Field)

/-- What a field says, or its standard value if it is missing; none if it says something else. -/
def field {α : Type} (read? : Field → Option α) (standard : α) (fields : Fields) (name : String) :
    Option α :=
  match fields.reverse.lookup name with
  | none => some standard
  | some f => read? f

/-- The limits of a rendering; none if a field is no limit. -/
def limits? (fields : Fields) : Option Limits := do
  let limit (name : String) (standard : Nat) := field Field.nat? standard fields name
  let imports ← limit "max_import_depth" Limits.standard.imports
  let calls ← limit "max_call_depth" Limits.standard.calls
  let rounds ← limit "max_loop_iterations" Limits.standard.rounds
  return ⟨imports, calls, rounds⟩

/-- The name of the export function; none if the field is no text. -/
def exportFunction? (fields : Fields) : Option String :=
  field Field.text? Export.defaultFunction fields "export_function"

end Settings
end Stylesheet
