import Stylesheet.Import.Files
import Stylesheet.Log

/-!
# Looking up stylesheets

The files that a request may mean, in the order in which they are tried. A request without a known
extension means a partial or a plain file with one of the extensions, or the index of a directory;
a request with an extension means the partial or the plain file. Requests that are neither
relative nor absolute are tried below each load path as well.

* `candidates`: every path that is tried.
* `resolveWhere`: the first that is a file, whatever tells which paths are.
* `resolve`: the first at which there is one of some files.
-/

namespace Stylesheet
namespace Import

/-- The extensions that are tried. -/
def extensions : List String := ["scss", "css"]

/-- The paths that are tried for a path without single dots and blank segments. -/
def forms (base : Path) : List Path :=
  match base.fileName? with
  | none => [base]
  | some name =>
      if base.extension?.any fun e => extensions.contains e || e == "sass" then
        [base.withFileName ("_" ++ name), base]
      else
        extensions.flatMap (fun e =>
          [base.withFileName ("_" ++ name ++ "." ++ e), base.withFileName (name ++ "." ++ e)]) ++
          [base.join "_index.scss", base.join "index.scss"]

/-- Whether a request says that it starts at the importing file. -/
def isRelative (request : String) : Bool :=
  ['.', '/'].isPrefixOf request.toList || ['.', '.', '/'].isPrefixOf request.toList

/-- The paths that a request may mean, before their forms. -/
def roots (loadPaths : List Path) (dir : Path) (request : String) : List Path :=
  dir.join request ::
    if isRelative request || (Path.mk request).isAbsolute then []
    else loadPaths.map (·.join request)

/-- Every path that is tried for a request from a directory, in order. -/
def candidates (loadPaths : List Path) (dir : Path) (request : String) : List Path :=
  (roots loadPaths dir request).flatMap fun root => forms root.normalized

/-- Answers a request from a directory with a path, or with the reason why there is none. -/
abbrev Resolver (σ : Type) := Path → String → StateM σ (Except String Path)

variable {σ : Type} [Log.Sink σ]

/-- The first path that is a file. -/
def firstFile (isFile : Path → Bool) : List Path → StateM σ (Option Path)
  | [] => return none
  | p :: ps => do
      Log.report .trace .lookup ("Trying " ++ p.quoted)
      if isFile p then return some p else firstFile isFile ps

/-- Why a request has no answer. -/
def notFound (dir : Path) (request : String) (tried : Nat) : String :=
  "Can't find stylesheet \"" ++ request ++ "\" from " ++ dir.quoted ++
    " (tried " ++ toString tried ++ " paths)"

/-- Resolves requests to paths that are files. -/
def resolveWhere (isFile : Path → Bool) (loadPaths : List Path) : Resolver σ :=
  fun dir request => do
    let paths := candidates loadPaths dir request
    match ← firstFile isFile paths with
    | some p => return .ok p
    | none => return .error (notFound dir request paths.length)

/-- Resolves requests to files. -/
def resolve (files : Files) (loadPaths : List Path) : Resolver σ :=
  resolveWhere files.isFile loadPaths

end Import
end Stylesheet
