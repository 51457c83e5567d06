import SourceSearch.Token

/-!
# Syntax trees

The tree of one compilation unit. Names stand as written and are bound elsewhere. Each node that a
search can report carries the bytes that it takes.

A declaration is split into a head, which names and types it, and the members, body or initial
value under it; only the latter are recursive.
-/

set_option autoImplicit false

namespace SourceSearch

/-- An identifier and its place. -/
structure Ident where
  text : String
  range : TextRange
  deriving DecidableEq, Repr

/-- A type as written, without type arguments: `p.X`, `int`, `String[]`. -/
structure TypeRef where
  segments : List String
  dims : Nat
  range : TextRange
  deriving DecidableEq, Repr

namespace TypeRef

/-- The last segment. -/
def simpleName (ref : TypeRef) : String := ref.segments.getLast?.getD ""

/-- A single segment that names a primitive type. -/
def isPrimitive (ref : TypeRef) : Bool :=
  match ref.segments with
  | [name] => (Primitive.ofSpelling? name).isSome
  | _ => false

/-- Array brackets, once per dimension. -/
def brackets (dims : Nat) : String := String.join (List.replicate dims "[]")

/-- The last segment with array brackets. -/
def displaySimple (ref : TypeRef) : String := ref.simpleName ++ brackets ref.dims

/-- All segments, joined by dots. -/
def dotted (ref : TypeRef) : String := ".".intercalate ref.segments

/-- The same type with more array dimensions. -/
def addDims (ref : TypeRef) (dims : Nat) : TypeRef := { ref with dims := ref.dims + dims }

end TypeRef

/-- The package that a unit declares. -/
structure PackageDecl where
  segments : List String
  range : TextRange
  deriving DecidableEq, Repr

/-- An import, with the place of the imported name. -/
structure ImportDecl where
  segments : List String
  onDemand : Bool
  isStatic : Bool
  range : TextRange
  deriving DecidableEq, Repr

/-- The kinds of type declarations; an annotation type counts as an interface. -/
inductive TypeDeclKind
  | classDecl | interfaceDecl | enumDecl
  deriving DecidableEq, Repr

/-- The modifiers that are kept. -/
structure Modifiers where
  isPublic : Bool := false
  isProtected : Bool := false
  isPrivate : Bool := false
  isStatic : Bool := false
  isFinal : Bool := false
  isAbstract : Bool := false
  deriving DecidableEq, Repr

namespace Modifiers

/-- Records one more modifier; those that are not kept change nothing. -/
def add (mods : Modifiers) : Modifier → Modifiers
  | .publicMod => { mods with isPublic := true }
  | .protectedMod => { mods with isProtected := true }
  | .privateMod => { mods with isPrivate := true }
  | .staticMod => { mods with isStatic := true }
  | .finalMod => { mods with isFinal := true }
  | .abstractMod => { mods with isAbstract := true }
  | _ => mods

end Modifiers

/-- A parameter of a method or of a catch clause. A variable-arity parameter counts one array
dimension more than its written type. -/
structure Param where
  type : TypeRef
  name : Ident
  isVarargs : Bool
  deriving DecidableEq, Repr

/-- A lambda parameter, without a type when it is inferred. -/
structure LambdaParam where
  type : Option TypeRef
  name : Ident
  deriving DecidableEq, Repr

/-- What a type declaration says of itself. The interfaces are those a class or an enum implements
and those an interface extends. -/
structure TypeHead where
  kind : TypeDeclKind
  modifiers : Modifiers
  name : Ident
  superclass : Option TypeRef
  interfaces : List TypeRef
  range : TextRange
  deriving DecidableEq, Repr

/-- What a field declaration says of itself. An enum constant is a field typed by its enum. -/
structure FieldHead where
  modifiers : Modifiers
  type : TypeRef
  name : Ident
  isEnumConstant : Bool
  range : TextRange
  deriving DecidableEq, Repr

/-- What a method declaration says of itself. A constructor has no return type. -/
structure MethodHead where
  modifiers : Modifiers
  returnType : Option TypeRef
  name : Ident
  params : List Param
  throws : List TypeRef
  range : TextRange
  deriving DecidableEq, Repr

/-- A method without a return type is a constructor. -/
def MethodHead.isConstructor (head : MethodHead) : Bool := head.returnType.isNone

/-- The kinds of literals. -/
inductive Literal
  | int | long | float | double | char | string | boolean | null
  deriving DecidableEq, Repr

/-- The operators between two operands. -/
inductive BinaryOp
  | or | and | bitOr | bitXor | bitAnd | eq | notEq | lt | gt | ltEq | gtEq | shl | shr | ushr
  | add | sub | mul | div | rem
  deriving DecidableEq, Repr

/-- Operators whose result is a truth value whatever the operands are. -/
def BinaryOp.isComparison : BinaryOp → Bool
  | .or | .and | .eq | .notEq | .lt | .gt | .ltEq | .gtEq => true
  | _ => false

/-- The operators on one operand. -/
inductive UnaryOp
  | neg | plus | not | bitNot | preInc | preDec | postInc | postDec
  deriving DecidableEq, Repr

mutual

/-- The declaration of a class, an interface or an enum. -/
structure TypeDecl where
  head : TypeHead
  members : List Member

/-- What a type body holds. -/
inductive Member
  | field (head : FieldHead) (init : Option Expr)
  | method (head : MethodHead) (body : MethodBody)
  | initializer (isStatic : Bool) (body : Block) (range : TextRange)
  | type (decl : TypeDecl)

/-- The body of a method: none, a block, or bytes between braces that do not parse. -/
inductive MethodBody
  | absent
  | block (block : Block)
  | unparsed (range : TextRange)

/-- Statements between braces. -/
structure Block where
  stmts : List Stmt
  range : TextRange

/-- One variable of a local declaration. -/
structure LocalVar where
  type : TypeRef
  name : Ident
  init : Option Expr

/-- A handler of a try statement. -/
structure CatchClause where
  param : Param
  body : Block

/-- A group of statements of a switch; the default group has no labels. -/
structure SwitchCase where
  labels : List Expr
  body : List Stmt

/-- Statements. Resources of a try statement are locals at the start of its body. -/
inductive Stmt
  | block (block : Block)
  | locals (vars : List LocalVar)
  | expr (expr : Expr)
  | return (value : Option Expr)
  | throw (value : Expr)
  | ifThen (cond : Expr) (thenBranch : Stmt) (elseBranch : Option Stmt)
  | while (cond : Expr) (body : Stmt)
  | doWhile (body : Stmt) (cond : Expr)
  | for (init : List Stmt) (cond : Option Expr) (update : List Expr) (body : Stmt)
  | forEach (var : LocalVar) (iterable : Expr) (body : Stmt)
  | try (body : Block) (catches : List CatchClause) (cleanup : Option Block)
  | switch (selector : Expr) (cases : List SwitchCase)
  | synchronized (lock : Expr) (body : Block)
  | assert (cond : Expr) (message : Option Expr)
  | localClass (decl : TypeDecl)
  | break
  | continue
  | empty

/-- An expression and its place. -/
structure Expr where
  kind : ExprKind
  range : TextRange

/-- The forms of expressions. A method reference to a constructor is named `new`. -/
inductive ExprKind
  | literal (literal : Literal)
  | name (name : Ident)
  | fieldAccess (target : Expr) (name : Ident)
  | call (target : Option Expr) (name : Ident) (args : List Expr)
  | new (type : TypeRef) (args : List Expr) (body : Option (List Member))
  | newArray (type : TypeRef) (dims : List Expr) (init : Option (List Expr))
  | arrayInit (items : List Expr)
  | arrayAccess (array index : Expr)
  | this
  | super
  | constructorCall (isSuper : Bool) (args : List Expr)
  | classLiteral (type : TypeRef)
  | assign (target value : Expr)
  | binary (op : BinaryOp) (lhs rhs : Expr)
  | unary (op : UnaryOp) (operand : Expr)
  | cast (type : TypeRef) (expr : Expr)
  | instanceOf (expr : Expr) (type : TypeRef)
  | conditional (cond thenExpr elseExpr : Expr)
  | paren (inner : Expr)
  | lambda (params : List LambdaParam) (body : LambdaBody)
  | methodRef (target : Expr) (name : Ident)

/-- The right side of a lambda. -/
inductive LambdaBody
  | expr (expr : Expr)
  | block (block : Block)

end

namespace TypeDecl

/-- The methods and constructors that the type itself declares. -/
def methods (decl : TypeDecl) : List (MethodHead × MethodBody) :=
  decl.members.filterMap fun
    | .method head body => some (head, body)
    | _ => none

/-- The fields that the type itself declares. -/
def fields (decl : TypeDecl) : List (FieldHead × Option Expr) :=
  decl.members.filterMap fun
    | .field head init => some (head, init)
    | _ => none

/-- The types declared directly in the type's body. -/
def nestedTypes (decl : TypeDecl) : List TypeDecl :=
  decl.members.filterMap fun
    | .type inner => some inner
    | _ => none

end TypeDecl

/-- A source file's declarations. -/
structure CompilationUnit where
  package : Option PackageDecl
  imports : List ImportDecl
  types : List TypeDecl

/-- The segments of the declared package, none for the default package. -/
def CompilationUnit.packageSegments (unit : CompilationUnit) : List String :=
  match unit.package with
  | some decl => decl.segments
  | none => []

end SourceSearch
