import Stylesheet.Path
import Stylesheet.Render.Error

/-!
# Files

A tree of files below the current directory, and what looking up a path in it finds. A path is
followed segment by segment: a name leads into a directory, two dots lead out of it, and both ask
for a directory to stand in. Nothing is known of what lies above the current directory.
-/

namespace Stylesheet

/-- Files by the names of the directories above them and their own. -/
structure Files where
  entries : List (List (List Char) × ByteArray)

namespace Files

/-- Files by their paths. -/
def ofList (files : List (String × ByteArray)) : Files :=
  ⟨files.map fun (p, bytes) =>
    ((Path.segments p.toList).filter fun s => s ≠ [] && s ≠ ['.'], bytes)⟩

/-- What a path leads to. -/
inductive Found where
  /-- The file with these names of directories above it and its own. -/
  | file (names : List (List Char)) (bytes : ByteArray)
  /-- The directory with these names above it and its own. -/
  | directory (names : List (List Char))
  /-- A directory above the current one. -/
  | outside

/-- What is known by the given names. -/
def lookup? (fs : Files) (names : List (List Char)) : Option Found :=
  match fs.entries.lookup names with
  | some bytes => some (.file names bytes)
  | none =>
      if names = [] || fs.entries.any (fun e => names.isPrefixOf e.1) then
        some (.directory names)
      else none

/-- One segment further. -/
def step (fs : Files) (here : Found) (segment : List Char) : Except ReadFault Found :=
  match here with
  | .file _ _ => .error .notADirectory
  | .outside =>
      if segment = [] || segment = ['.'] || segment = ['.', '.'] then .ok .outside
      else .error .notFound
  | .directory names =>
      if segment = [] || segment = ['.'] then .ok here
      else if segment = ['.', '.'] then
        .ok (if names = [] then .outside else .directory names.dropLast)
      else
        match fs.lookup? (names ++ [segment]) with
        | some found => .ok found
        | none => .error .notFound

/-- What a path leads to. -/
def find (fs : Files) (p : Path) : Except ReadFault Found :=
  if p.text = "" then .error .notFound
  else
    p.body.foldlM fs.step (if p.isAbsolute then .outside else .directory [])

def isFile (fs : Files) (p : Path) : Bool :=
  match fs.find p with
  | .ok (.file _ _) => true
  | _ => false

/-- The text of a file. -/
def read (fs : Files) (p : Path) : Except ReadFault String := do
  match ← fs.find p with
  | .file _ bytes =>
      match String.fromUTF8? bytes with
      | some text => return text
      | none => .error .notUtf8
  | _ => .error .isDirectory

end Files
end Stylesheet
