import SourceSearch.Binding.Expressions

/-!
# Expressions in their places

What an expression stands for depends on the local variables that are declared where it stands.
The functions here list the expressions and written types of a body, each expression with its
locals, in reading order but for the condition of a do loop, which comes first. The parts of a
qualified name of a type have no meaning of their own and are left out.

A block, a loop with a head, a handler, a lambda and a method end the life of what they declare. The
declarations of a branch or of a case without braces outlive it.

The types that a body declares, local or anonymous, belong to the place of the body.
-/

set_option autoImplicit false

namespace SourceSearch

/-- An expression with the locals at its place, or a written type. -/
inductive Place
  | expr (locals : Locals) (expr : Expr)
  | typeRef (ref : TypeRef)

namespace BoundWorkspace

/-- The locals of a method at its start. -/
def paramLocals (s : BoundWorkspace) (scope : NameScope) (locals : Locals) (params : List Param) :
    Locals :=
  params.foldl (fun locals p => locals.declare p.name.text (s.staticTypeOfRef scope p.type)) locals

/-- The locals of a lambda at its start; a parameter without a type has an unknown one. -/
def lambdaLocals (s : BoundWorkspace) (scope : NameScope) (locals : Locals)
    (params : List LambdaParam) : Locals :=
  params.foldl (fun locals p => locals.declare p.name.text
    (match p.type with
      | some ref => s.staticTypeOfRef scope ref
      | none => .unknown)) locals

/-- The written types in the head of a method. -/
def headPlaces (head : MethodHead) : List Place :=
  (head.returnType.toList ++ head.params.map (·.type) ++ head.throws).map .typeRef

/-- The written type of a field; an enum constant has none. -/
def fieldTypePlaces (head : FieldHead) : List Place :=
  if head.isEnumConstant then [] else [.typeRef head.type]

/-- Whether a name behind a point stands for a type. -/
def isTypeAccess (s : BoundWorkspace) (scope : NameScope) (locals : Locals) (target : Expr)
    (name : Ident) : Bool :=
  match s.meaningOfMember scope (s.meaning scope locals target) name.text with
  | .type _ => true
  | _ => false

mutual

/-- The places of a type that a body declares. -/
def typePlaces (s : BoundWorkspace) (scope : NameScope) (locals : Locals) : TypeDecl → List Place
  | ⟨head, members⟩ =>
    (head.superclass.toList ++ head.interfaces).map .typeRef ++
      s.membersPlaces scope locals members

def membersPlaces (s : BoundWorkspace) (scope : NameScope) (locals : Locals) :
    List Member → List Place
  | [] => []
  | m :: ms => s.memberPlaces scope locals m ++ s.membersPlaces scope locals ms

def memberPlaces (s : BoundWorkspace) (scope : NameScope) (locals : Locals) : Member → List Place
  | .field head init => fieldTypePlaces head ++ s.exprOptPlaces scope locals init
  | .method head body =>
    headPlaces head ++ s.bodyPlaces scope (s.paramLocals scope locals head.params) body
  | .initializer _ body _ => s.blockPlaces scope locals body
  | .type decl => s.typePlaces scope locals decl

def bodyPlaces (s : BoundWorkspace) (scope : NameScope) (locals : Locals) : MethodBody → List Place
  | .block b => s.blockPlaces scope locals b
  | .absent => []
  | .unparsed _ => []

def blockPlaces (s : BoundWorkspace) (scope : NameScope) (locals : Locals) : Block → List Place
  | ⟨stmts, _⟩ => (s.stmtsPlaces scope locals stmts).1

def blockOptPlaces (s : BoundWorkspace) (scope : NameScope) (locals : Locals) :
    Option Block → List Place
  | none => []
  | some b => s.blockPlaces scope locals b

/-- The places of statements, and the locals after them. -/
def stmtsPlaces (s : BoundWorkspace) (scope : NameScope) (locals : Locals) :
    List Stmt → List Place × Locals
  | [] => ([], locals)
  | st :: rest =>
    let (first, locals) := s.stmtPlaces scope locals st
    let (others, locals) := s.stmtsPlaces scope locals rest
    (first ++ others, locals)

def stmtOptPlaces (s : BoundWorkspace) (scope : NameScope) (locals : Locals) :
    Option Stmt → List Place × Locals
  | none => ([], locals)
  | some st => s.stmtPlaces scope locals st

/-- The places of a variable, and the locals with it. -/
def varPlaces (s : BoundWorkspace) (scope : NameScope) (locals : Locals) :
    LocalVar → List Place × Locals
  | ⟨type, name, init⟩ =>
    (.typeRef type :: s.exprOptPlaces scope locals init,
      locals.declare name.text (s.localType scope locals ⟨type, name, init⟩))

def varsPlaces (s : BoundWorkspace) (scope : NameScope) (locals : Locals) :
    List LocalVar → List Place × Locals
  | [] => ([], locals)
  | v :: vs =>
    let (first, locals) := s.varPlaces scope locals v
    let (others, locals) := s.varsPlaces scope locals vs
    (first ++ others, locals)

def catchesPlaces (s : BoundWorkspace) (scope : NameScope) (locals : Locals) :
    List CatchClause → List Place
  | [] => []
  | ⟨param, body⟩ :: rest =>
    .typeRef param.type :: s.blockPlaces scope (s.paramLocals scope locals [param]) body ++
      s.catchesPlaces scope locals rest

def casesPlaces (s : BoundWorkspace) (scope : NameScope) (locals : Locals) :
    List SwitchCase → List Place × Locals
  | [] => ([], locals)
  | ⟨labels, body⟩ :: rest =>
    let (first, afterBody) := s.stmtsPlaces scope locals body
    let (others, last) := s.casesPlaces scope afterBody rest
    (s.exprsPlaces scope locals labels ++ first ++ others, last)

/-- The places of a statement, and the locals after it. -/
def stmtPlaces (s : BoundWorkspace) (scope : NameScope) (locals : Locals) :
    Stmt → List Place × Locals
  | .block b => (s.blockPlaces scope locals b, locals)
  | .locals vars => s.varsPlaces scope locals vars
  | .expr e => (s.exprPlaces scope locals e, locals)
  | .return value => (s.exprOptPlaces scope locals value, locals)
  | .throw value => (s.exprPlaces scope locals value, locals)
  | .ifThen cond yes no =>
    let (inYes, afterYes) := s.stmtPlaces scope locals yes
    let (inNo, afterNo) := s.stmtOptPlaces scope afterYes no
    (s.exprPlaces scope locals cond ++ inYes ++ inNo, afterNo)
  | .while cond body =>
    let (inBody, after) := s.stmtPlaces scope locals body
    (s.exprPlaces scope locals cond ++ inBody, after)
  | .doWhile body cond =>
    let (inBody, after) := s.stmtPlaces scope locals body
    (s.exprPlaces scope locals cond ++ inBody, after)
  | .for init cond update body =>
    let (inInit, inner) := s.stmtsPlaces scope locals init
    (inInit ++ s.exprOptPlaces scope inner cond ++ s.exprsPlaces scope inner update ++
      (s.stmtPlaces scope inner body).1, locals)
  | .forEach var iterable body =>
    let (inVar, inner) := s.varPlaces scope locals var
    (s.exprPlaces scope locals iterable ++ inVar ++ (s.stmtPlaces scope inner body).1, locals)
  | .try body handlers cleanup =>
    (s.blockPlaces scope locals body ++ s.catchesPlaces scope locals handlers ++
      s.blockOptPlaces scope locals cleanup, locals)
  | .switch selector groups =>
    let (inGroups, after) := s.casesPlaces scope locals groups
    (s.exprPlaces scope locals selector ++ inGroups, after)
  | .synchronized lock body =>
    (s.exprPlaces scope locals lock ++ s.blockPlaces scope locals body, locals)
  | .assert cond message =>
    (s.exprPlaces scope locals cond ++ s.exprOptPlaces scope locals message, locals)
  | .localClass decl => (s.typePlaces scope locals decl, locals)
  | .break => ([], locals)
  | .continue => ([], locals)
  | .empty => ([], locals)

def exprsPlaces (s : BoundWorkspace) (scope : NameScope) (locals : Locals) : List Expr → List Place
  | [] => []
  | e :: es => s.exprPlaces scope locals e ++ s.exprsPlaces scope locals es

def exprOptPlaces (s : BoundWorkspace) (scope : NameScope) (locals : Locals) :
    Option Expr → List Place
  | none => []
  | some e => s.exprPlaces scope locals e

def exprsOptPlaces (s : BoundWorkspace) (scope : NameScope) (locals : Locals) :
    Option (List Expr) → List Place
  | none => []
  | some es => s.exprsPlaces scope locals es

def membersOptPlaces (s : BoundWorkspace) (scope : NameScope) (locals : Locals) :
    Option (List Member) → List Place
  | none => []
  | some ms => s.membersPlaces scope locals ms

/-- The places of an expression and of its parts. -/
def exprPlaces (s : BoundWorkspace) (scope : NameScope) (locals : Locals) : Expr → List Place
  | ⟨kind, range⟩ => .expr locals ⟨kind, range⟩ :: s.partPlaces scope locals kind

/-- The places of the parts of an expression. -/
def partPlaces (s : BoundWorkspace) (scope : NameScope) (locals : Locals) : ExprKind → List Place
  | .literal _ => []
  | .name _ => []
  | .this => []
  | .super => []
  | .fieldAccess target name =>
    if s.isTypeAccess scope locals target name then [] else s.exprPlaces scope locals target
  | .call target _ args => s.exprOptPlaces scope locals target ++ s.exprsPlaces scope locals args
  | .new type args body =>
    .typeRef type :: s.exprsPlaces scope locals args ++ s.membersOptPlaces scope locals body
  | .newArray type dims init =>
    .typeRef type :: s.exprsPlaces scope locals dims ++ s.exprsOptPlaces scope locals init
  | .arrayInit items => s.exprsPlaces scope locals items
  | .arrayAccess array index => s.exprPlaces scope locals array ++ s.exprPlaces scope locals index
  | .constructorCall _ args => s.exprsPlaces scope locals args
  | .classLiteral type => [.typeRef type]
  | .assign target value => s.exprPlaces scope locals target ++ s.exprPlaces scope locals value
  | .binary _ lhs rhs => s.exprPlaces scope locals lhs ++ s.exprPlaces scope locals rhs
  | .unary _ operand => s.exprPlaces scope locals operand
  | .cast type e => .typeRef type :: s.exprPlaces scope locals e
  | .instanceOf e type => s.exprPlaces scope locals e ++ [.typeRef type]
  | .conditional cond yes no =>
    s.exprPlaces scope locals cond ++ s.exprPlaces scope locals yes ++
      s.exprPlaces scope locals no
  | .paren inner => s.exprPlaces scope locals inner
  | .lambda params body =>
    (params.filterMap (·.type)).map .typeRef ++
      s.lambdaPlaces scope (s.lambdaLocals scope locals params) body
  | .methodRef target _ => s.exprPlaces scope locals target

def lambdaPlaces (s : BoundWorkspace) (scope : NameScope) (locals : Locals) :
    LambdaBody → List Place
  | .expr e => s.exprPlaces scope locals e
  | .block b => s.blockPlaces scope locals b

end

end BoundWorkspace

end SourceSearch
