import SourceSearch.Binding.Places
import SourceSearch.Search.Target

/-!
# References

Whether an expression or a written type refers to a target. Every reference is told at one place:
a name, the name behind a point, a call, the creation of an object, a method reference or a written
type. References to types are also in imports and heads of types.
-/

set_option autoImplicit false

namespace SourceSearch

/-- An occurrence in a source text. -/
structure Occurrence where
  range : TextRange
  accuracy : Accuracy
  deriving DecidableEq, Repr

/-- An occurrence at a range, if it is one. -/
def Occurrence.at? (range : TextRange) (accuracy : Option Accuracy) : Option Occurrence :=
  accuracy.map fun a => ⟨range, a⟩

namespace Target

/-- The reference that a written type is. Neither a primitive type nor `var` refers to a type. -/
def inTypeRef? (target : Target) (s : BoundWorkspace) (scope : NameScope) (ref : TypeRef) :
    Option Occurrence :=
  if ref.isPrimitive || ref.segments == ["var"] then none
  else Occurrence.at? ref.range (target.typeAccuracy? (s.typeOfRef? scope ref) ref.segments)

/-- How sure it is that an expression which stands for a type is a reference. -/
def typeUse? (target : Target) (key : TypeKey) : Option Accuracy :=
  if target.isType key then some .exact else none

/-- The reference that a simple name is. -/
def inName? (target : Target) (s : BoundWorkspace) (scope : NameScope) (locals : Locals)
    (name : Ident) : Option Occurrence :=
  Occurrence.at? name.range <|
    match target.kind, s.meaningOfName scope locals name.text with
    | .type, .type key => target.typeUse? key
    | .type, .unknown => target.typeAccuracy? none [name.text]
    | .field, .value _ =>
      if (locals.get? name.text).isSome then none
      else target.fieldAccuracy? (s.fieldAround? scope name.text) name.text false
    | .field, .unknown => target.fieldAccuracy? none name.text true
    | _, _ => none

/-- How sure it is that a name behind a point is a reference to a field, given what stands before
the point. -/
def memberUse? (target : Target) (s : BoundWorkspace) (before : Meaning) (name : String) :
    Option Accuracy :=
  match before with
  | .value (.named key) => target.fieldAccuracy? (s.field? key name) name false
  | .type key => target.fieldAccuracy? (s.field? key name) name false
  | .value (.unresolved _) | .value .unknown | .unknown => target.fieldAccuracy? none name true
  | _ => none

/-- The reference that a name behind a point is. -/
def inFieldAccess? (target : Target) (s : BoundWorkspace) (scope : NameScope) (locals : Locals)
    (range : TextRange) (qualifier : Expr) (name : Ident) : Option Occurrence :=
  let before := s.meaning scope locals qualifier
  match target.kind, s.meaningOfMember scope before name.text with
  | .type, .type key => Occurrence.at? range (target.typeUse? key)
  | .field, .type _ => none
  | .field, _ => Occurrence.at? name.range (target.memberUse? s before name.text)
  | _, _ => none

/-- The reference that a call of a method is; it reaches from the name to the end of the call. -/
def inCall? (target : Target) (s : BoundWorkspace) (scope : NameScope) (locals : Locals)
    (range : TextRange) (receiver : Option Expr) (name : Ident) (args : List Expr) :
    Option Occurrence :=
  Occurrence.at? (.upTo name.range.start range.stop)
    (target.callAccuracy? (s.call scope locals receiver name args) name.text args.length)

/-- How sure it is that a call of a constructor of the type is a reference. -/
def constructorUse? (target : Target) (s : BoundWorkspace) (scope : NameScope)
    (locals : Locals) (owner : Option TypeKey) (written : String) (args : List Expr) :
    Option Accuracy :=
  target.constructorAccuracy? s owner
    (owner.bind fun key => s.constructor? key (s.types scope locals args)) written args.length

/-- The type whose constructor the first statement of a constructor calls. -/
def calledOwner? (s : BoundWorkspace) (scope : NameScope) (isSuper : Bool) : Option TypeKey :=
  if isSuper then scope.enclosing.bind s.superclass? else scope.enclosing

/-- The type that a method reference names or whose value it uses. -/
def refReceiver? : Meaning → Option TypeKey
  | .value (.named key) => some key
  | .type key => some key
  | _ => none

/-- The reference that an expression itself is, its parts aside. -/
def inExpr? (target : Target) (s : BoundWorkspace) (scope : NameScope) (locals : Locals)
    (e : Expr) : Option Occurrence :=
  match target.kind, e.kind with
  | _, .name name => target.inName? s scope locals name
  | _, .fieldAccess qualifier name => target.inFieldAccess? s scope locals e.range qualifier name
  | .method, .call receiver name args => target.inCall? s scope locals e.range receiver name args
  | .method, .new created args _ =>
    Occurrence.at? e.range (target.constructorUse? s scope locals (s.typeOfRef? scope created)
      created.simpleName args)
  | .method, .constructorCall isSuper args =>
    Occurrence.at? e.range (target.constructorUse? s scope locals (calledOwner? s scope isSuper)
      (if isSuper then "super" else "this") args)
  | .method, .methodRef receiver name =>
    Occurrence.at? e.range (target.methodRefAccuracy?
      (refReceiver? (s.meaning scope locals receiver)) name.text)
  | _, _ => none

/-- The reference at a place. -/
def at? (target : Target) (s : BoundWorkspace) (scope : NameScope) : Place → Option Occurrence
  | .expr locals e => target.inExpr? s scope locals e
  | .typeRef ref => if target.kind = .type then target.inTypeRef? s scope ref else none

end Target

end SourceSearch
