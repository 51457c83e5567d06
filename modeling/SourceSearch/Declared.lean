import SourceSearch.Tree
import SourceSearch.Identity

/-!
# Declared types and their members

The declarations of a unit are its named types with their methods and fields, an outer type before
its member types. Written types inside a declaration stay as written.
-/

set_option autoImplicit false

namespace SourceSearch

/-- A method or constructor of a type. -/
structure DeclaredMethod where
  name : String
  params : List TypeRef
  returnType : Option TypeRef
  isConstructor : Bool
  isStatic : Bool
  isVarargs : Bool
  nameRange : TextRange
  deriving DecidableEq, Repr

namespace DeclaredMethod

/-- The method that a tree declares. -/
def ofHead (head : MethodHead) : DeclaredMethod where
  name := head.name.text
  params := head.params.map (·.type)
  returnType := head.returnType
  isConstructor := head.isConstructor
  isStatic := head.modifiers.isStatic
  isVarargs := head.params.getLast?.any (·.isVarargs)
  nameRange := head.name.range

/-- The simple names of the parameter types, with array brackets. -/
def erasedParams (method : DeclaredMethod) : List String := method.params.map (·.displaySimple)

/-- The handle of the method in its type. -/
def handle (method : DeclaredMethod) (owner : TypeKey) : MethodHandle :=
  ⟨owner, method.name, method.erasedParams⟩

/-- Whether a call with so many arguments can be bound to the method. -/
def acceptsArity (method : DeclaredMethod) (arity : Nat) : Bool :=
  if method.isVarargs then decide (arity + 1 ≥ method.params.length)
  else arity == method.params.length

/-- Whether two methods have the same name and the same erased parameters. -/
def sameSignature (a b : DeclaredMethod) : Bool :=
  a.name == b.name && a.erasedParams == b.erasedParams

end DeclaredMethod

/-- A field of a type. -/
structure DeclaredField where
  name : String
  type : TypeRef
  isStatic : Bool
  nameRange : TextRange
  deriving DecidableEq, Repr

namespace DeclaredField

/-- The field that a tree declares; all fields of interfaces are static. -/
def ofHead (kind : TypeDeclKind) (head : FieldHead) : DeclaredField where
  name := head.name.text
  type := head.type
  isStatic := head.modifiers.isStatic || kind == .interfaceDecl
  nameRange := head.name.range

/-- The handle of the field in its type. -/
def handle (field : DeclaredField) (owner : TypeKey) : FieldHandle := ⟨owner, field.name⟩

end DeclaredField

/-- A declared type. The place of its declaration in the tree is a list of indices, the first into
the types of the unit and each other one into the members of the type before it. -/
structure DeclaredType where
  key : TypeKey
  kind : TypeDeclKind
  modifiers : Modifiers
  package : String
  outer : Option String
  superclass : Option TypeRef
  interfaces : List TypeRef
  methods : List DeclaredMethod
  fields : List DeclaredField
  memberTypes : List String
  nameRange : TextRange
  path : List Nat
  deriving DecidableEq, Repr

namespace DeclaredType

/-- The name without package and outer types. -/
def simpleName (info : DeclaredType) : String := info.key.simpleName

/-- The name with package and outer types. -/
def qualifiedName (info : DeclaredType) : String := info.key.qualifiedName

/-- Whether the type is an interface. -/
def isInterface (info : DeclaredType) : Bool := info.kind == .interfaceDecl

/-- The methods of that name; constructors have no name of their own. -/
def methodsNamed (info : DeclaredType) (name : String) : List DeclaredMethod :=
  info.methods.filter fun m => m.name == name && !m.isConstructor

/-- The first field of that name. -/
def field? (info : DeclaredType) (name : String) : Option DeclaredField :=
  info.fields.find? (·.name == name)

/-- How a method of the type is shown: `p.X.bar() -> void`, and `p.X.X()` for a constructor. -/
def methodLabel (info : DeclaredType) (method : DeclaredMethod) : String :=
  let call := info.qualifiedName ++ "." ++ method.name ++ "(" ++
    ", ".intercalate method.erasedParams ++ ")"
  match method.returnType with
  | some type => call ++ " -> " ++ type.displaySimple
  | none => call

/-- How a field of the type is shown. -/
def fieldLabel (info : DeclaredType) (field : DeclaredField) : String :=
  info.qualifiedName ++ "." ++ field.name

end DeclaredType

/-- The member declared at the path below a type. -/
def TypeDecl.at? (decl : TypeDecl) : List Nat → Option TypeDecl
  | [] => some decl
  | index :: path =>
    match decl.members[index]? with
    | some (.type inner) => inner.at? path
    | _ => none

/-- The declaration of a type in the unit that it was collected from. -/
def DeclaredType.decl? (info : DeclaredType) (unit : CompilationUnit) : Option TypeDecl :=
  match info.path with
  | [] => none
  | first :: path => unit.types[first]?.bind (·.at? path)

namespace DeclaredType

/-- The declared type of one tree. -/
def ofDecl (origin : Origin) (package : String) (outer : Option String) (qualified : String)
    (path : List Nat) (decl : TypeDecl) : DeclaredType where
  key := ⟨origin, qualified⟩
  kind := decl.head.kind
  modifiers := decl.head.modifiers
  package := package
  outer := outer
  superclass := decl.head.superclass
  interfaces := decl.head.interfaces
  methods := decl.methods.map fun m => .ofHead m.1
  fields := decl.fields.map fun f => .ofHead decl.head.kind f.1
  memberTypes := decl.nestedTypes.map (·.head.name.text)
  nameRange := decl.head.name.range
  path := path

mutual

/-- The declared types of a tree, its own type first. -/
def collectDecl (origin : Origin) (package : String) (outer : Option String) (qualified : String)
    (path : List Nat) : TypeDecl → List DeclaredType
  | ⟨head, members⟩ =>
    ofDecl origin package outer qualified path ⟨head, members⟩ ::
      collectMembers origin package qualified path 0 members

/-- The declared types of the members from `index` on. -/
def collectMembers (origin : Origin) (package : String) (outer : String) (path : List Nat)
    (index : Nat) : List Member → List DeclaredType
  | [] => []
  | .type ⟨head, members⟩ :: rest =>
    collectDecl origin package (some outer) (outer ++ "." ++ head.name.text) (path ++ [index])
      ⟨head, members⟩ ++ collectMembers origin package outer path (index + 1) rest
  | .field _ _ :: rest => collectMembers origin package outer path (index + 1) rest
  | .method _ _ :: rest => collectMembers origin package outer path (index + 1) rest
  | .initializer _ _ _ :: rest => collectMembers origin package outer path (index + 1) rest

end

end DeclaredType

/-- The named types of a unit, in the order of their declarations. -/
def collectTypes (unit : CompilationUnit) (origin : Origin) : List DeclaredType :=
  let package := ".".intercalate unit.packageSegments
  (unit.types.zipIdx.map fun (decl, index) =>
    DeclaredType.collectDecl origin package none (Text.qualify package decl.head.name.text) [index]
      decl).flatten

end SourceSearch
