/-!
# Import requests

The request that a resolver gets for the URL of an import: a package request for a URL with a
tilde, an absolute or explicitly relative path as it is, and anything else relative to the
importing file.
-/

namespace Stylesheet
namespace Import

/-- Whether a URL starts with a letter, a colon and a backslash. -/
def startsWithDrive : List Char → Bool
  | c :: ':' :: '\\' :: _ => ('a' ≤ c && c ≤ 'z') || ('A' ≤ c && c ≤ 'Z')
  | _ => false

/-- Whether a URL says itself where it starts. -/
def isAnchored (url : List Char) : Bool :=
  startsWithDrive url || ['/'].isPrefixOf url || ['.', '/'].isPrefixOf url ||
    ['.', '.', '/'].isPrefixOf url

/-- What stands after the last tilde before the first question mark, if there is one. -/
def afterTilde? : List Char → Option (List Char)
  | [] => none
  | c :: cs =>
      if c = '?' then none
      else
        match afterTilde? cs with
        | some rest => some rest
        | none => if c = '~' then some cs else none

/-- The request for the URL of an import. -/
def requestChars (url : List Char) : List Char :=
  if url.isEmpty then []
  else
    let request := if isAnchored url then url else '.' :: '/' :: url
    (afterTilde? request).getD request

/-- The request for the URL of an import. -/
def request (url : String) : String := String.ofList (requestChars url.toList)

end Import
end Stylesheet
