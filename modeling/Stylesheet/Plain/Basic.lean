import Stylesheet.Number.Notation
import Stylesheet.Table

/-!
# Plain values

Values as other programs take them: without units, quotes, separators or colors. A value that has
no plain form is undefined. Maps have texts for keys, in the order in which the keys came.
-/

namespace Stylesheet

/-- A plain value. -/
inductive Plain where
  | undefined
  | null
  | bool (b : Bool)
  | number (x : Float)
  | string (text : String)
  | list (items : List Plain)
  | map (entries : List (String × Plain))

namespace Plain

instance : Inhabited Plain := ⟨undefined⟩

def isUndefined : Plain → Bool
  | undefined => true
  | _ => false

/-- The text of a string. -/
def string? : Plain → Option String
  | string t => some t
  | _ => none

def number? : Plain → Option Float
  | number x => some x
  | _ => none

mutual

/-- The text of a value that is taken as the key of a map: the elements of a list with commas
between them, and the same text for all maps. -/
def keyText : Plain → String
  | undefined => "undefined"
  | null => "null"
  | bool b => if b then "true" else "false"
  | number x => Number.plain x
  | string t => t
  | list items => ",".intercalate (elementTexts items)
  | map _ => "[object Object]"

/-- The texts of the elements of a list, in which null and undefined leave a gap. -/
def elementTexts : List Plain → List String
  | [] => []
  | undefined :: vs | null :: vs => "" :: elementTexts vs
  | v :: vs => v.keyText :: elementTexts vs

end

/-- A map of entries; a key that comes again keeps its place and takes the new value. -/
def ofEntries (entries : List (String × Plain)) : Plain := map (Table.ofList entries).entries

end Plain
end Stylesheet
