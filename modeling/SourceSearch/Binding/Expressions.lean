import SourceSearch.Binding.Members

/-!
# Binding expressions

What an expression stands for, and what it calls. The type of an expression is that of declarations,
never of a value put into a variable, but for variables whose declared type is the unbound name
`var`.
-/

set_option autoImplicit false

namespace SourceSearch

/-- What a call binds to: the type in which the method was looked for, if it is known, and the
method. -/
structure BoundCall where
  receiver : Option TypeKey
  method : Option BoundMethod
  deriving DecidableEq, Repr

namespace BoundWorkspace

/-- The type of a class that every environment should have; unbound where it is missing. -/
def wellKnown (scope : NameScope) (qualifiedName : String) : StaticType :=
  match scope.env.lookup? qualifiedName with
  | some key => .named key
  | none => .unresolved (Text.lastSegment qualifiedName)

/-- The type of texts. -/
def textType (scope : NameScope) : StaticType := wellKnown scope "java.lang.String"

/-- The type of a literal. -/
def literalType (scope : NameScope) : Literal → StaticType
  | .int => .primitive "int"
  | .long => .primitive "long"
  | .float => .primitive "float"
  | .double => .primitive "double"
  | .char => .primitive "char"
  | .boolean => .primitive "boolean"
  | .null => .null
  | .string => textType scope

/-- The type of an operation on operands of these types. -/
def operationType (scope : NameScope) (op : BinaryOp) (left right : StaticType) : StaticType :=
  if op.isComparison then .primitive "boolean"
  else if op = .add ∧
      (left.erasedName? = some "String" ∨ right.erasedName? = some "String") then
    textType scope
  else left

/-- What a simple name stands for: a variable, a field, a type or a package. -/
def meaningOfName (s : BoundWorkspace) (scope : NameScope) (locals : Locals) (name : String) :
    Meaning :=
  match locals.get? name with
  | some type => .value type
  | none =>
    match s.fieldAround? scope name with
    | some binding => .value (s.fieldType binding)
    | none =>
      match s.simpleType? scope name with
      | some key => .type key
      | none => if scope.env.hasPackage name then .package name else .unknown

/-- What a name behind a point stands for. -/
def meaningOfMember (s : BoundWorkspace) (scope : NameScope) (target : Meaning) (name : String) :
    Meaning :=
  match target with
  | .value (.named key) =>
    match s.field? key name with
    | some binding => .value (s.fieldType binding)
    | none => .unknown
  | .value (.array _) => if name = "length" then .value (.primitive "int") else .unknown
  | .type key =>
    match s.field? key name with
    | some binding => .value (s.fieldType binding)
    | none =>
      match s.memberType? key name with
      | some inner => .type inner
      | none => .unknown
  | .package outer =>
    let qualified := outer ++ "." ++ name
    match scope.env.lookup? qualified with
    | some key => .type key
    | none => if scope.env.hasPackage qualified then .package qualified else .unknown
  | _ => .unknown

/-- What a call without a receiver binds to. The types around the place are asked in turn, the
innermost first, and the innermost one is the receiver when none of them has the method. -/
def bindUnqualified (s : BoundWorkspace) (scope : NameScope) (name : String)
    (args : List StaticType) : BoundCall :=
  let chain := s.enclosingChain scope.enclosing
  match chain.findSome? fun key => (s.method? key name args).map fun m => (key, m) with
  | some (key, binding) => ⟨some key, some binding⟩
  | none => ⟨chain.head?, none⟩

/-- The type in which the methods of a receiver are looked for. -/
def receiverType? (scope : NameScope) : Meaning → Option TypeKey
  | .value (.named key) => some key
  | .type key => some key
  | .value (.array _) => scope.env.lookup? objectName
  | _ => none

/-- What a call binds to, given what its receiver stands for. -/
def bindCall (s : BoundWorkspace) (scope : NameScope) (target : Option Meaning) (name : String)
    (args : List StaticType) : BoundCall :=
  match target with
  | none => s.bindUnqualified scope name args
  | some target =>
    let receiver := receiverType? scope target
    ⟨receiver, receiver.bind fun key => s.method? key name args⟩

/-- What a call stands for. -/
def meaningOfCall (s : BoundWorkspace) (call : BoundCall) : Meaning :=
  match call.method with
  | some binding => .value (s.returnType binding)
  | none => .unknown

mutual

/-- What an expression stands for. -/
def meaning (s : BoundWorkspace) (scope : NameScope) (locals : Locals) : Expr → Meaning
  | ⟨kind, _⟩ => s.meaningOfKind scope locals kind

def meaningOfKind (s : BoundWorkspace) (scope : NameScope) (locals : Locals) : ExprKind → Meaning
  | .literal literal => .value (literalType scope literal)
  | .name ident => s.meaningOfName scope locals ident.text
  | .fieldAccess target member =>
    s.meaningOfMember scope (s.meaning scope locals target) member.text
  | .call target callee args =>
    s.meaningOfCall (s.bindCall scope (s.meaningOpt scope locals target) callee.text
      (s.types scope locals args))
  | .new type _ _ => .value (s.staticTypeOfRef scope type)
  | .newArray type dims _ =>
    .value ((s.staticTypeOfRef scope type).arrayOf (max dims.length 1))
  | .arrayInit _ => .unknown
  | .arrayAccess array _ =>
    match (s.meaning scope locals array).staticType with
    | .array element => .value element
    | _ => .unknown
  | .this =>
    match scope.enclosing with
    | some key => .value (.named key)
    | none => .unknown
  | .super =>
    match scope.enclosing.bind s.superclass? with
    | some key => .value (.named key)
    | none => .unknown
  | .constructorCall _ _ => .value (.primitive "void")
  | .classLiteral _ => .value (wellKnown scope "java.lang.Class")
  | .assign target _ => .value (s.meaning scope locals target).staticType
  | .binary op lhs rhs =>
    .value (operationType scope op (s.meaning scope locals lhs).staticType
      (s.meaning scope locals rhs).staticType)
  | .unary op operand =>
    if op = .not then .value (.primitive "boolean")
    else .value (s.meaning scope locals operand).staticType
  | .cast type _ => .value (s.staticTypeOfRef scope type)
  | .instanceOf _ _ => .value (.primitive "boolean")
  | .conditional _ thenExpr elseExpr =>
    match (s.meaning scope locals thenExpr).staticType with
    | .null => .value (s.meaning scope locals elseExpr).staticType
    | .unknown => .value (s.meaning scope locals elseExpr).staticType
    | type => .value type
  | .paren inner => s.meaning scope locals inner
  | .lambda _ _ => .unknown
  | .methodRef _ _ => .unknown

def meaningOpt (s : BoundWorkspace) (scope : NameScope) (locals : Locals) :
    Option Expr → Option Meaning
  | none => none
  | some e => some (s.meaning scope locals e)

/-- The types of arguments. -/
def types (s : BoundWorkspace) (scope : NameScope) (locals : Locals) : List Expr → List StaticType
  | [] => []
  | e :: es => (s.meaning scope locals e).staticType :: s.types scope locals es

end

/-- The type of an expression. -/
def typeOf (s : BoundWorkspace) (scope : NameScope) (locals : Locals) (e : Expr) : StaticType :=
  (s.meaning scope locals e).staticType

/-- What a call expression binds to. -/
def call (s : BoundWorkspace) (scope : NameScope) (locals : Locals) (target : Option Expr)
    (name : Ident) (args : List Expr) : BoundCall :=
  s.bindCall scope (s.meaningOpt scope locals target) name.text (s.types scope locals args)

/-- The type of a local variable. -/
def localType (s : BoundWorkspace) (scope : NameScope) (locals : Locals) (var : LocalVar) :
    StaticType :=
  let declared := s.staticTypeOfRef scope var.type
  match var.init with
  | some init =>
    if declared = .unresolved "var" ∧ var.type.dims = 0 then s.typeOf scope locals init
    else declared
  | none => declared

end BoundWorkspace

end SourceSearch
