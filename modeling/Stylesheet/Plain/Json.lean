import Stylesheet.Plain.Basic

/-!
# Plain values as JSON

The compact JSON text of a plain value. What JSON has no word for is null.
-/

namespace Stylesheet
namespace Json

/-- A character inside a JSON string. -/
def escape (c : Char) : List Char :=
  match c with
  | '"' => ['\\', '"']
  | '\\' => ['\\', '\\']
  | '\x08' => ['\\', 'b']
  | '\x0c' => ['\\', 'f']
  | '\n' => ['\\', 'n']
  | '\r' => ['\\', 'r']
  | '\t' => ['\\', 't']
  | c =>
      if c.toNat < 0x20 then
        ['\\', 'u', '0', '0', Nat.digitChar (c.toNat / 16), Nat.digitChar (c.toNat % 16)]
      else [c]

def string (s : String) : String := "\"" ++ String.ofList (s.toList.flatMap escape) ++ "\""

def array (items : List String) : String := "[" ++ ",".intercalate items ++ "]"

def object (fields : List (String × String)) : String :=
  "\x7b" ++ ",".intercalate (fields.map fun (k, v) => string k ++ ":" ++ v) ++ "\x7d"

end Json

namespace Plain

mutual

/-- The JSON text of a plain value. -/
def json : Plain → String
  | undefined | null => "null"
  | bool b => if b then "true" else "false"
  | number x => (Number.json? x).getD "null"
  | string t => Json.string t
  | list items => Json.array (jsonItems items)
  | map entries => Json.object (jsonEntries entries)

/-- The JSON texts of the elements of a list. -/
def jsonItems : List Plain → List String
  | [] => []
  | v :: vs => v.json :: jsonItems vs

/-- The JSON texts of the values of a map. -/
def jsonEntries : List (String × Plain) → List (String × String)
  | [] => []
  | (k, v) :: rest => (k, v.json) :: jsonEntries rest

end

end Plain
end Stylesheet
