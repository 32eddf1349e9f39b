import Stylesheet.Expr.OfNode
import Stylesheet.Rule.Basic

/-!
# Parts of rules

The parameters of at-rules: what loops go through, the parameters of a function, and what a rule
says about the module that it loads.
-/

namespace Stylesheet
namespace Rule

/-! ### Parameters in general -/

/-- Whether a node is a name that serves as a keyword. -/
def isWord (word : String) (n : Node) : Bool := n.isLeaf .identifier word

/-- Nodes without the blanks and comments at both ends. -/
def trim (ns : List Node) : List Node :=
  ((ns.dropWhile Node.isTrivia).reverse.dropWhile Node.isTrivia).reverse

/-- Nodes cut at the commas. -/
def segments : List Node → List (List Node)
  | [] => [[]]
  | n :: ns =>
      if n.isLeaf .punctuation "," then [] :: segments ns
      else
        match segments ns with
        | [] => [[n]]
        | s :: ss => (n :: s) :: ss

/-- Nodes cut at the commas, each part trimmed, without parts that are blank. -/
def parts (ns : List Node) : List (List Node) :=
  ((segments ns).map trim).filter fun s => !s.isEmpty

/-- What an at-rule says between its keyword and its block or semicolon. -/
def parameters (children : List Node) : List Node :=
  let params := children.drop 1
  match params.getLast? with
  | some last =>
      if last.is .block || last.isLeaf .punctuation ";" then params.dropLast else params
  | none => params

/-! ### Loops -/

/-- The variables of an `@each` loop and what it goes through. -/
def each (params : List Node) : Except Fault EachHeader :=
  match params.findIdx? (isWord "in") with
  | none => .error .eachWithoutIn
  | some i =>
      let names := ((params.take i).filter (·.is .variable)).filterMap Node.text?
      if names.isEmpty then .error .eachWithoutVariable
      else .ok ⟨names.map .ofString, .ofNodes (params.drop (i + 1))⟩

/-- Where the word before the last number of a `@for` loop stands, and whether the number belongs
to the loop. -/
def bound? (params : List Node) (start : Nat) : Option (Nat × Bool) :=
  let behind (word : String) : Option Nat :=
    (params.findIdx? (isWord word)).filter (start < ·)
  ((behind "through").map (·, true)).or ((behind "to").map (·, false))

/-- The variable of a `@for` loop and what it counts. -/
def for? (params : List Node) : Except Fault ForHeader :=
  match params.findIdx? (isWord "from") with
  | none => .error .forWithoutFrom
  | some start =>
      match bound? params start with
      | none => .error .forWithoutBound
      | some (stop, inclusive) =>
          match ((params.take start).find? (·.is .variable)).bind Node.text? with
          | none => .error .forWithoutVariable
          | some name =>
              .ok ⟨.ofString name, .ofNodes ((params.take stop).drop (start + 1)),
                .ofNodes (params.drop (stop + 1)), inclusive⟩

/-! ### Functions -/

/-- A parameter of the function of the given name. -/
def parameter (function : String) (segment : List Node) : Except Fault Parameter :=
  match segment with
  | .leaf .variable name _ :: rest =>
      match trim rest with
      | [] => .ok ⟨name, none, false⟩
      | mark :: rest =>
          if mark.isLeaf .punctuation ":" then
            if (trim rest).isEmpty then .error (.invalidParameters function)
            else .ok ⟨name, some (.ofNodes (trim rest)), false⟩
          else if (mark :: rest).length = 3 && (mark :: rest).all (·.isLeaf .punctuation ".") then
            .ok ⟨name, none, true⟩
          else .error (.invalidParameters function)
  | _ => .error (.invalidParameters function)

/-- The name and the parameters of a function. Only the last parameter may take what is left. -/
def signature (params : List Node) : Except Fault Signature :=
  match params.find? (·.is .function) with
  | none => .error .missingSignature
  | some call => do
      let name := (call.children.head?.map Node.text).getD ""
      let arguments := (call.children[1]?.map Node.children).getD []
      let parameters ← (parts arguments).mapM (parameter name)
      if parameters.dropLast.any Parameter.rest then .error (.restNotLast name)
      else return ⟨name, parameters⟩

/-! ### Modules -/

/-- The last part of a URL, without underscores in front of it and without what follows a point. -/
def urlNamespace (url : String) : String :=
  let last := url.toList.reverse.takeWhile fun c => c ≠ '/' && c ≠ ':'
  String.ofList ((last.reverse.takeWhile (· ≠ '.')).dropWhile (· = '_'))

/-- A variable of a module and its value, flags left aside. -/
def configured (segment : List Node) : Except Fault (Name × Expr) :=
  match segment with
  | .leaf .variable name _ :: rest =>
      match trim rest with
      | colon :: value =>
          let value := (value.reverse.dropWhile fun n => n.is .flag || n.isTrivia).reverse
          if colon.isLeaf .punctuation ":" && !(trim value).isEmpty then
            .ok (.ofString name, .ofNodes (trim value))
          else .error .invalidConfiguration
      | [] => .error .invalidConfiguration
  | _ => .error .invalidConfiguration

/-- The variables of a module and their values. -/
def configuration (ns : List Node) : Except Fault (List (Name × Expr)) := (parts ns).mapM configured

/-- Whether a node is a star. -/
def isStar (n : Node) : Bool := n.isLeaf .operator "*"

/-- What follows the URL in a rule that loads a module. What comes last counts. -/
def loadOptions (what : Load) (header : LoadHeader) : List Node → Except Fault LoadHeader
  | [] => .ok header
  | n :: ns =>
      if isWord "as" n then
        match ns with
        | [] => .error (.missingNamespace what.keyword)
        | target :: ns =>
            if isStar target then loadOptions what { header with as := .flat } ns
            else if target.is .identifier && target.text?.isSome then
              let front := target.text.toList.getLast? == some '-'
              match ns with
              | star :: ns' =>
                  if front && isStar star then
                    loadOptions what { header with as := .withFront target.text } ns'
                  else loadOptions what { header with as := .named target.text } (star :: ns')
              | [] => loadOptions what { header with as := .named target.text } []
            else .error (.missingNamespace what.keyword)
      else if isWord "with" n then
        match ns with
        | map :: ns =>
            if map.is .parentheses then
              loadOptions what { header with configuration := some (configuration map.children) } ns
            else .error (.missingMap what.keyword)
        | [] => .error (.missingMap what.keyword)
      else if n.is .function && n.children.head?.bind Node.text? == some "with" then
        loadOptions what
          { header with configuration := n.children[1]?.map fun m => configuration m.children } ns
      else if isWord "show" n || isWord "hide" n then .ok header
      else .error (.unexpectedInRule n.print what.keyword)

/-- What a rule that loads a module says. -/
def load (what : Load) (params : List Node) : Except Fault LoadHeader :=
  match params.filter (!·.isTrivia) with
  | n :: ns =>
      if n.is .stringDouble || n.is .stringSingle then
        loadOptions what ⟨unescape n.text, .ofUrl, none⟩ ns
      else .error (.missingUrl what.keyword)
  | [] => .error (.missingUrl what.keyword)

end Rule

namespace LoadHeader

/-- The namespace of the module; none if its members come without one. -/
def namespace? (h : LoadHeader) : Option Name :=
  match h.as with
  | .ofUrl => some (.ofString (Rule.urlNamespace h.url))
  | .named space => some (.ofString space)
  | .flat | .withFront _ => none

/-- What stands in front of the names of members that come without a namespace. -/
def front (h : LoadHeader) : Name :=
  match h.as with
  | .withFront front => .ofString front
  | _ => .ofString ""

/-- What stands behind `sass:` in the URL of a built-in module. -/
def libraryName? (h : LoadHeader) : Option String :=
  if "sass:".toList.isPrefixOf h.url.toList then some (String.ofList (h.url.toList.drop 5))
  else none

end LoadHeader
end Stylesheet
