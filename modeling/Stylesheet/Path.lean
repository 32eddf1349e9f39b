import Stylesheet.Text.Quoted

/-!
# Paths

A path is a text cut into segments by slashes. Blank segments and single dots say nothing, except
for a dot in front; two paths are the same when the components that are left are.

* `components`: what a path says.
* `parent?`, `join`, `withFileName`: paths beside and below a path, written as it is written.
* `normalized`: the path written from its components.
-/

namespace Stylesheet

/-- A path as it is written. -/
structure Path where
  text : String

namespace Path

/-- What a segment of a path says. -/
inductive Component where
  /-- The slash in front. -/
  | root
  /-- The dot in front. -/
  | here
  | up
  | name (text : List Char)
  deriving DecidableEq, Repr

/-- A text cut at its slashes. -/
def segments : List Char → List (List Char)
  | [] => [[]]
  | c :: cs =>
      match segments cs with
      | [] => [[c]]
      | s :: ss => if c = '/' then [] :: s :: ss else (c :: s) :: ss

/-- Segments with slashes between them. -/
def unsegments : List (List Char) → List Char
  | [] => []
  | [s] => s
  | s :: ss => s ++ '/' :: unsegments ss

def isAbsolute (p : Path) : Bool := p.text.toList.head? == some '/'

/-- The segments after the slash in front, if there is one. -/
def body (p : Path) : List (List Char) :=
  if p.isAbsolute then (segments p.text.toList).drop 1 else segments p.text.toList

/-- What a segment says: a single dot counts only in front. -/
def component? (first : Bool) (segment : List Char) : Option Component :=
  if segment = [] then none
  else if segment = ['.'] then if first then some .here else none
  else if segment = ['.', '.'] then some .up
  else some (.name segment)

/-- The components of a path. -/
def components (p : Path) : List Component :=
  match p.isAbsolute, p.body with
  | true, body => .root :: body.filterMap (component? false)
  | false, [] => []
  | false, s :: ss => (component? true s).toList ++ ss.filterMap (component? false)

/-- Two paths are the same when their components are. -/
instance : BEq Path := ⟨fun p q => p.components == q.components⟩

/-- Segments without those at the end that say nothing. -/
def trimEnd (absolute : Bool) (segments : List (List Char)) : List (List Char) :=
  match absolute, segments with
  | true, ss => keep ss
  | false, [] => []
  | false, s :: ss =>
      match keep ss with
      | [] => if (component? true s).isSome then [s] else []
      | ss => s :: ss
where
  keep (ss : List (List Char)) : List (List Char) :=
    (ss.reverse.dropWhile fun s => (component? false s).isNone).reverse

/-- The path of the segments, after a slash if the path is absolute. -/
def ofSegments (absolute : Bool) (ss : List (List Char)) : Path :=
  ⟨String.ofList (if absolute then '/' :: unsegments ss else unsegments ss)⟩

/-- The path without its last component; none if there is no component but the root. -/
def parent? (p : Path) : Option Path :=
  match trimEnd p.isAbsolute p.body with
  | [] => none
  | ss => some (ofSegments p.isAbsolute (trimEnd p.isAbsolute ss.dropLast))

/-- The path below this one with a given text; an absolute text stands by itself. -/
def join (p : Path) (text : String) : Path :=
  if text.toList.head? == some '/' then ⟨text⟩
  else
    match p.text.toList.getLast? with
    | none => ⟨text⟩
    | some '/' => ⟨p.text ++ text⟩
    | some _ => ⟨p.text ++ "/" ++ text⟩

/-- The last component, if it is a name. -/
def fileName? (p : Path) : Option String :=
  match p.components.getLast? with
  | some (.name s) => some (String.ofList s)
  | _ => none

/-- The path with another name in place of the last component, or below it if that is no name. -/
def withFileName (p : Path) (name : String) : Path :=
  match p.fileName?, p.parent? with
  | some _, some dir => dir.join name
  | _, _ => p.join name

/-- The file name after its last point, if something stands before the point. -/
def extension? (p : Path) : Option String := do
  let cs := (← p.fileName?).toList.reverse
  match cs.dropWhile (· ≠ '.') with
  | [] | [_] => none
  | _ => some (String.ofList (cs.takeWhile (· ≠ '.')).reverse)

def Component.text : Component → List Char
  | root => []
  | here => ['.']
  | up => ['.', '.']
  | name s => s

/-- The path written from its components. -/
def normalized (p : Path) : Path :=
  match p.components with
  | [.root] => ⟨"/"⟩
  | cs => ⟨String.ofList (unsegments (cs.map Component.text))⟩

/-- The path as messages show it. -/
def quoted (p : Path) : String := Text.quoted p.text

end Path
end Stylesheet
