import Stylesheet.Rule.Headers

/-!
# Statements of syntax trees

The statements of a stylesheet or block become pieces, and the links of each `@if` chain are put
together. Blanks, comments and semicolons are no statements; they do not end a chain, and any
other statement does.

* `assemble`: the statements of the pieces.
* `ofNodes`: the statements of the nodes of a stylesheet or block.
-/

namespace Stylesheet

/-- A statement, or a link of a chain of conditions. -/
inductive Piece where
  | stmt (s : Stmt)
  | ifLink (condition : Expr) (body : List Stmt)
  | elseIfLink (condition : Expr) (body : List Stmt)
  | elseLink (body : List Stmt)

namespace Stmt

/-- A chain, the last link first. -/
abbrev Links := List (Expr × List Stmt)

/-- The statement of a chain without a last block. -/
def ofLinks (links : Links) : List Stmt :=
  if links.isEmpty then [] else [.choose links.reverse []]

/-- The statements of pieces, after the links of a chain that is still open. -/
def assemble (links : Links) : List Piece → List Stmt
  | [] => ofLinks links
  | .stmt s :: rest => ofLinks links ++ s :: assemble [] rest
  | .ifLink c body :: rest => ofLinks links ++ assemble [(c, body)] rest
  | .elseIfLink c body :: rest =>
      if links.isEmpty then .strayElse :: assemble [] rest
      else assemble ((c, body) :: links) rest
  | .elseLink body :: rest =>
      (if links.isEmpty then .strayElse else .choose links.reverse body) :: assemble [] rest

/-- The statement of a declaration. -/
def ofDeclaration (n : Node) : Stmt :=
  match ((n.firstChild? .property).bind (·.firstChild? .variable)).bind Node.text? with
  | none => .inert
  | some name =>
      let flags := (n.children.filter (·.is .flag)).filterMap Node.text?
      let value := ((n.firstChild? .value).map Node.children).getD []
      .declare name (.ofNodes value) (flags.contains "default") (flags.contains "global")

/-- The condition of a link after the first; none if the link has no condition. -/
def elseIf? (params : List Node) : Option Expr :=
  match params.dropWhile (·.is .space) with
  | n :: rest => if n.isLeaf .identifier "if" then some (.ofNodes rest) else none
  | [] => none

/-- The URLs of an import, up to the first name. -/
def importUrls : List Node → List String
  | [] => []
  | n :: ns =>
      if n.is .identifier then []
      else if n.is .stringDouble || n.is .stringSingle then unescape n.text :: importUrls ns
      else if n.is .function then n.print :: importUrls ns
      else importUrls ns

/-- The piece of an at-rule. -/
def ofAtRule (keyword : String) (params : List Node) (body : List Stmt) : Piece :=
  match keyword with
  | "if" => .ifLink (.ofNodes params) body
  | "else" =>
      match elseIf? params with
      | some c => .elseIfLink c body
      | none => .elseLink body
  | "import" => .stmt (.imports (importUrls params))
  | "use" => .stmt (.load .use (Rule.load .use params))
  | "forward" => .stmt (.load .forward (Rule.load .forward params))
  | "media" | "supports" | "at-root" => .stmt (.scoped keyword body)
  | "return" => .stmt (.return (.ofNodes params))
  | "each" => .stmt (.each (Rule.each params) body)
  | "for" => .stmt (.for (Rule.for? params) body)
  | "while" => .stmt (.while (.ofNodes params) body)
  | "error" => .stmt (.report .error (.ofNodes params))
  | "warn" => .stmt (.report .warn (.ofNodes params))
  | "debug" => .stmt (.report .debug (.ofNodes params))
  | "function" => .stmt (.function (Rule.signature params) body)
  | _ => .stmt (.other keyword)

mutual

/-- The piece of a node, if it is a statement. -/
def piece? : Node → Option Piece
  | .leaf _ _ _ => none
  | .single _ _ _ => none
  | .sequence k cs s =>
      match k with
      | .declaration => some (.stmt (ofDeclaration (.sequence k cs s)))
      | .rule => some (.stmt (.rule (block cs)))
      | .atRule =>
          some (ofAtRule ((cs.head?.map Node.text).getD "") (Rule.parameters cs) (block cs))
      | _ => none

/-- The statements of the first block among some nodes. -/
def block : List Node → List Stmt
  | [] => []
  | .sequence .block cs _ :: _ => assemble [] (pieces cs)
  | _ :: ns => block ns

/-- The pieces of nodes. -/
def pieces : List Node → List Piece
  | [] => []
  | n :: ns => (piece? n).toList ++ pieces ns

end

/-- The statements of the nodes of a stylesheet or block. -/
def ofNodes (ns : List Node) : List Stmt := assemble [] (pieces ns)

/-- The statements of a stylesheet. -/
def ofTree (tree : Node) : List Stmt := ofNodes tree.children

end Stmt
end Stylesheet
