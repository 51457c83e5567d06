import SourceSearch.Binding.Supertypes

/-!
# Binding methods and fields

A method is looked for in a type and its supertypes in order, and the first type with a method of
the name that takes so many arguments decides. Of several such methods in one type the one counts
whose parameters agree with most arguments, the first of those that agree with equally many.
-/

set_option autoImplicit false

namespace SourceSearch

/-- A method together with the type that declares it. -/
structure BoundMethod where
  owner : DeclaredType
  method : DeclaredMethod
  deriving DecidableEq, Repr

/-- The handle of the method. -/
def BoundMethod.handle (binding : BoundMethod) : MethodHandle :=
  binding.method.handle binding.owner.key

/-- A field together with the type that declares it. -/
structure BoundField where
  owner : DeclaredType
  field : DeclaredField
  deriving DecidableEq, Repr

namespace BoundWorkspace

/-- The number of parameters whose erased type is that of the argument in the same place. -/
def agreement (args : List StaticType) (method : DeclaredMethod) : Nat :=
  (method.erasedParams.zip args).countP fun (param, arg) => arg.erasedName? == some param

/-- The candidate with the highest agreement, the first of several. -/
def bestOverload? (args : List StaticType) : List DeclaredMethod → Option DeclaredMethod
  | [] => none
  | first :: others =>
    some (others.foldl (fun best m => if agreement args best < agreement args m then m else best)
      first)

/-- The method of a type itself that a call of the name binds to. -/
def ownMethod? (info : DeclaredType) (name : String) (args : List StaticType) :
    Option DeclaredMethod :=
  bestOverload? args ((info.methodsNamed name).filter (·.acceptsArity args.length))

/-- The types in which methods of a receiver are looked for. Interfaces have the methods of the
class that all classes extend. -/
def methodOrder (s : BoundWorkspace) (receiver : TypeKey) : List TypeKey :=
  s.lookupOrder receiver ++
    if (s.declared? receiver).any (·.isInterface) then (s.implicitObject? receiver).toList else []

/-- The method that a call binds to on a receiver. -/
def method? (s : BoundWorkspace) (receiver : TypeKey) (name : String) (args : List StaticType) :
    Option BoundMethod :=
  (s.methodOrder receiver).findSome? fun key =>
    (s.declared? key).bind fun info =>
      (ownMethod? info name args).map fun method => ⟨info, method⟩

/-- The constructor that the creation of an object binds to. -/
def constructor? (s : BoundWorkspace) (owner : TypeKey) (args : List StaticType) :
    Option BoundMethod :=
  (s.declared? owner).bind fun info =>
    (bestOverload? args
      (info.methods.filter fun m => m.isConstructor && m.acceptsArity args.length)).map
      fun method => ⟨info, method⟩

/-- The field of that name which a type declares or inherits. -/
def field? (s : BoundWorkspace) (receiver : TypeKey) (name : String) : Option BoundField :=
  (s.lookupOrder receiver).findSome? fun key =>
    (s.declared? key).bind fun info => (info.field? name).map fun field => ⟨info, field⟩

/-- The type of a field. -/
def fieldType (s : BoundWorkspace) (binding : BoundField) : StaticType :=
  s.staticTypeOfMemberRef binding.owner.key binding.field.type

/-- The type of a call; a constructor makes an object of its type. -/
def returnType (s : BoundWorkspace) (binding : BoundMethod) : StaticType :=
  match binding.method.returnType with
  | some ref => s.staticTypeOfMemberRef binding.owner.key ref
  | none => .named binding.owner.key

/-- The field that a simple name stands for at a place. -/
def fieldAround? (s : BoundWorkspace) (scope : NameScope) (name : String) : Option BoundField :=
  (s.enclosingChain scope.enclosing).findSome? fun key => s.field? key name

end BoundWorkspace

end SourceSearch
