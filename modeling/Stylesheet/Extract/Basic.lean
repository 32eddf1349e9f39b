import Stylesheet.Path
import Stylesheet.Plain.Json

/-!
# Extractions

What an extraction gives: the exported variables in the order in which they were evaluated, and
the files that were imported. A variable that is assigned twice is there twice.

* `lastValue`: the last value of a variable.
* `toTable`: all variables by their names.
* `json`: an extraction as JSON.
-/

namespace Stylesheet

/-- A variable that was exported. -/
structure Exported where
  name : Plain
  value : Plain

/-- The result of an extraction. -/
structure Extraction where
  exported : List Exported
  dependencies : List Path

namespace Extraction

/-- The last value that was exported under a name; undefined if there is none. -/
def lastValue (e : Extraction) (name : String) : Plain :=
  match e.exported.reverse.find? (·.name.string? == some name) with
  | some x => x.value
  | none => .undefined

/-- The variables by the texts of their names. A later one takes the place of an earlier one. -/
def toTable (e : Extraction) : Table String Plain :=
  Table.ofList (e.exported.map fun x => (x.name.keyText, x.value))

/-- An extraction as JSON. -/
def json (e : Extraction) : String :=
  Json.object
    [("variables", Json.array (e.exported.map fun x =>
        Json.object [("name", x.name.json), ("value", x.value.json)])),
      ("dependencies", Json.array (e.dependencies.map fun p => Json.string p.text))]

end Extraction
end Stylesheet
