import SourceSearch.Walk

/-!
# The parts of a tree

The parts of a tree are its type declarations, its members and its expressions. A part has a range,
and holds the nodes that a walk through it meets (`Part.nodes`). A walk through a unit meets every
type and every expression itself, and every member with the type or the class body that it is a
member of, so the parts and the identifiers of a unit are those of its nodes (`Node.parts`,
`Node.idents`).
-/

set_option autoImplicit false

namespace SourceSearch

/-! ## Identifiers -/

/-- The identifiers that an expression itself writes. -/
def ExprKind.idents : ExprKind → List Ident
  | .name ident => [ident]
  | .fieldAccess _ member => [member]
  | .call _ callee _ => [callee]
  | .lambda params _ => params.map (·.name)
  | .methodRef _ member => [member]
  | _ => []

/-- The identifiers that a statement itself writes: the names in its handlers. -/
def Stmt.idents : Stmt → List Ident
  | .try _ catches _ => catches.map (·.param.name)
  | _ => []

/-- The identifiers that a node itself writes. -/
def Node.idents : Node → List Ident
  | .type decl => [decl.head.name]
  | .method head _ => head.name :: head.params.map (·.name)
  | .field head _ => [head.name]
  | .stmt s => s.idents
  | .localVar v => [v.name]
  | .expr e => e.kind.idents
  | _ => []

/-! ## Parts -/

/-- A type declaration, a member or an expression. -/
inductive Part
  | type (decl : TypeDecl)
  | member (m : Member)
  | expr (e : Expr)

/-- The bytes that a member takes. -/
def Member.range : Member → TextRange
  | .field head _ => head.range
  | .method head _ => head.range
  | .initializer _ _ range => range
  | .type decl => decl.head.range

namespace Part

/-- The bytes that a part takes. -/
def range : Part → TextRange
  | .type decl => decl.head.range
  | .member m => m.range
  | .expr e => e.range

/-- The nodes that a part is and holds. -/
def nodes : Part → List Node
  | .type decl => Walk.typeDecl decl
  | .member m => Walk.member m
  | .expr e => Walk.expr e

end Part

/-- The members of the class body that an expression has. -/
def ExprKind.members : ExprKind → List Member
  | .new _ _ (some members) => members
  | _ => []

/-- A type or an expression is a part, and so are the members that it has. -/
def Node.parts : Node → List Part
  | .type decl => .type decl :: decl.members.map .member
  | .expr e => .expr e :: e.kind.members.map .member
  | _ => []

/-- The ranges of the identifiers and the parts of a node. -/
def Node.ranges (node : Node) : List TextRange :=
  node.idents.map (·.range) ++ node.parts.map Part.range

end SourceSearch
