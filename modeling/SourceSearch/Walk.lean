import SourceSearch.Tree

/-!
# Walks through a tree

The nodes of a unit in the order in which a reader of the tree meets them, each before the nodes
under it. The type of an enum constant is that of its enum and is no node; the block of an
initializer is met as its statements.
-/

set_option autoImplicit false

namespace SourceSearch

/-- What a walk meets. -/
inductive Node
  | type (decl : TypeDecl)
  | method (head : MethodHead) (body : MethodBody)
  | field (head : FieldHead) (init : Option Expr)
  | initializer (isStatic : Bool) (body : Block)
  | block (block : Block)
  | stmt (stmt : Stmt)
  | localVar (var : LocalVar)
  | expr (expr : Expr)
  | typeRef (ref : TypeRef)

namespace Walk

mutual

def typeDecl : TypeDecl → List Node
  | ⟨head, body⟩ =>
    .type ⟨head, body⟩ :: (head.superclass.toList ++ head.interfaces).map .typeRef ++ members body

def members : List Member → List Node
  | [] => []
  | m :: ms => member m ++ members ms

def member : Member → List Node
  | .field head init =>
    .field head init :: (if head.isEnumConstant then [] else [.typeRef head.type]) ++ exprOpt init
  | .method head body =>
    .method head body ::
      (head.returnType.toList ++ head.params.map (·.type) ++ head.throws).map .typeRef ++
      methodBody body
  | .initializer isStatic ⟨body, range⟩ _ => .initializer isStatic ⟨body, range⟩ :: stmts body
  | .type decl => typeDecl decl

def methodBody : MethodBody → List Node
  | .block b => block b
  | .absent => []
  | .unparsed _ => []

def block : Block → List Node
  | ⟨body, range⟩ => .block ⟨body, range⟩ :: stmts body

def blockOpt : Option Block → List Node
  | none => []
  | some b => block b

def stmts : List Stmt → List Node
  | [] => []
  | s :: ss => stmt s ++ stmts ss

def stmtOpt : Option Stmt → List Node
  | none => []
  | some s => stmt s

def localVar : LocalVar → List Node
  | ⟨type, name, init⟩ => .localVar ⟨type, name, init⟩ :: .typeRef type :: exprOpt init

def localVars : List LocalVar → List Node
  | [] => []
  | v :: vs => localVar v ++ localVars vs

def catches : List CatchClause → List Node
  | [] => []
  | ⟨param, body⟩ :: cs => .typeRef param.type :: block body ++ catches cs

def cases : List SwitchCase → List Node
  | [] => []
  | ⟨labels, body⟩ :: cs => exprs labels ++ stmts body ++ cases cs

def stmt : Stmt → List Node
  | .block b => .stmt (.block b) :: block b
  | .locals vars => .stmt (.locals vars) :: localVars vars
  | .expr e => .stmt (.expr e) :: expr e
  | .return value => .stmt (.return value) :: exprOpt value
  | .throw value => .stmt (.throw value) :: expr value
  | .ifThen cond yes no => .stmt (.ifThen cond yes no) :: expr cond ++ stmt yes ++ stmtOpt no
  | .while cond body => .stmt (.while cond body) :: expr cond ++ stmt body
  | .doWhile body cond => .stmt (.doWhile body cond) :: expr cond ++ stmt body
  | .for init cond update body =>
    .stmt (.for init cond update body) ::
      stmts init ++ exprOpt cond ++ exprs update ++ stmt body
  | .forEach var iterable body =>
    .stmt (.forEach var iterable body) :: expr iterable ++ localVar var ++ stmt body
  | .try body handlers cleanup =>
    .stmt (.try body handlers cleanup) :: block body ++ catches handlers ++ blockOpt cleanup
  | .switch selector groups => .stmt (.switch selector groups) :: expr selector ++ cases groups
  | .synchronized lock body => .stmt (.synchronized lock body) :: expr lock ++ block body
  | .assert cond message => .stmt (.assert cond message) :: expr cond ++ exprOpt message
  | .localClass decl => .stmt (.localClass decl) :: typeDecl decl
  | .break => [.stmt .break]
  | .continue => [.stmt .continue]
  | .empty => [.stmt .empty]

def exprs : List Expr → List Node
  | [] => []
  | e :: es => expr e ++ exprs es

def exprOpt : Option Expr → List Node
  | none => []
  | some e => expr e

def exprsOpt : Option (List Expr) → List Node
  | none => []
  | some es => exprs es

def membersOpt : Option (List Member) → List Node
  | none => []
  | some ms => members ms

def expr : Expr → List Node
  | ⟨kind, range⟩ => .expr ⟨kind, range⟩ :: exprKind kind

def exprKind : ExprKind → List Node
  | .literal _ => []
  | .name _ => []
  | .this => []
  | .super => []
  | .fieldAccess target _ => expr target
  | .call target _ args => exprOpt target ++ exprs args
  | .new type args body => .typeRef type :: exprs args ++ membersOpt body
  | .newArray type dims init => .typeRef type :: exprs dims ++ exprsOpt init
  | .arrayInit items => exprs items
  | .arrayAccess array index => expr array ++ expr index
  | .constructorCall _ args => exprs args
  | .classLiteral type => [.typeRef type]
  | .assign target value => expr target ++ expr value
  | .binary _ lhs rhs => expr lhs ++ expr rhs
  | .unary _ operand => expr operand
  | .cast type e => .typeRef type :: expr e
  | .instanceOf e type => expr e ++ [.typeRef type]
  | .conditional cond yes no => expr cond ++ expr yes ++ expr no
  | .paren inner => expr inner
  | .lambda params body => (params.filterMap (·.type)).map .typeRef ++ lambdaBody body
  | .methodRef target _ => expr target

def lambdaBody : LambdaBody → List Node
  | .expr e => expr e
  | .block b => block b

end

/-- The nodes of a unit; its package and its imports are none. -/
def unit (u : CompilationUnit) : List Node := u.types.flatMap typeDecl

end Walk

end SourceSearch
