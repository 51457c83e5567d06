import SourceSearch.Environment
import SourceSearch.Binding.StaticType

/-!
# Binding names of types

A simple name is looked for among the types around the place where it stands and their members, then
the imports of single types, the package, the imports of whole packages, and the package
`java.lang`. Members are inherited, so the search needs the direct supertypes of types; here they
are given, and the module on supertypes says what they are.
-/

set_option autoImplicit false

namespace SourceSearch

/-- The direct supertypes of a type. -/
structure Supertypes where
  superclass : Option TypeKey := none
  interfaces : List TypeKey := []
  deriving DecidableEq, Repr

/-- A workspace with what binding needs to know of it: the environments of all projects, the direct
supertypes of types, and a limit on the length of chains of types. -/
structure BoundWorkspace where
  workspace : Workspace
  environments : Table String Environment
  supertypes : TypeKey → Supertypes
  chainLimit : Nat

/-- A place in a source file: the file with its tree, the environment of its project, and the
innermost type around the place. -/
structure NameScope where
  file : SourceFile
  unit : CompilationUnit
  env : Environment
  enclosing : Option TypeKey

namespace NameScope

/-- The same place in another type. -/
def inside (scope : NameScope) (enclosing : Option TypeKey) : NameScope :=
  { scope with enclosing := enclosing }

/-- The import of a single type that brings in the name. -/
def importOf? (scope : NameScope) (name : String) : Option ImportDecl :=
  scope.unit.imports.find? fun i =>
    !i.onDemand && !i.isStatic && i.segments.getLast? == some name

/-- The type of a simple name in the imports of whole packages. -/
def onDemand? (scope : NameScope) (name : String) : Option TypeKey :=
  (scope.unit.imports.filter fun i => i.onDemand && !i.isStatic).findSome? fun i =>
    scope.env.lookup? (".".intercalate i.segments ++ "." ++ name)

/-- The type of a simple name outside the types of the file: in its imports, its package, or
`java.lang`. The import of a single type decides alone. -/
def topLevelType? (scope : NameScope) (name : String) : Option TypeKey :=
  match scope.importOf? name with
  | some i => scope.env.lookup? (".".intercalate i.segments)
  | none =>
    scope.env.lookup? (Text.qualify (".".intercalate scope.unit.packageSegments) name) <|>
      scope.onDemand? name <|> scope.env.lookup? ("java.lang." ++ name)

end NameScope

namespace BoundWorkspace

/-- The declaration of a type. -/
def declared? (s : BoundWorkspace) (key : TypeKey) : Option DeclaredType :=
  s.workspace.declared? key

/-- A place at the top of a file, or in a type of the file. -/
def scope? (s : BoundWorkspace) (file : SourceFile) (enclosing : Option TypeKey) :
    Option NameScope := do
  return ⟨file, ← file.unit?, ← s.environments.get? file.project, enclosing⟩

/-- The place where a source type's own declarations stand. -/
def declarationScope? (s : BoundWorkspace) (key : TypeKey) : Option NameScope := do
  s.scope? (← s.workspace.source? (← key.origin.file?)) (some key)

/-- The type around a member type. -/
def outer? (s : BoundWorkspace) (key : TypeKey) : Option TypeKey :=
  (s.declared? key).bind fun info => info.outer.map fun name => ⟨key.origin, name⟩

/-- A type and the types around it, the innermost first; the fuel bounds their number. -/
def outerChain (s : BoundWorkspace) : (fuel : Nat) → TypeKey → List TypeKey
  | 0, _ => []
  | fuel + 1, key =>
    key :: match s.outer? key with
      | some outer => s.outerChain fuel outer
      | none => []

/-- The types around a place, the innermost first. -/
def enclosingChain (s : BoundWorkspace) : Option TypeKey → List TypeKey
  | some key => s.outerChain (key.qualifiedName.length + 1) key
  | none => []

/-! ## Inheritance -/

/-- A type, its superclass, the superclass of that and so on, up to a type met before. -/
def superclassChain (s : BoundWorkspace) : (fuel : Nat) → TypeKey → List TypeKey → List TypeKey
  | 0, _, found => found
  | fuel + 1, key, found =>
    if found.contains key then found
    else
      match (s.supertypes key).superclass with
      | some superclass => s.superclassChain fuel superclass (found ++ [key])
      | none => found ++ [key]

/-- Adds the interfaces, those that they extend, and so on, level by level. -/
def addInterfaces (s : BoundWorkspace) : (fuel : Nat) → List TypeKey → List TypeKey → List TypeKey
  | 0, _, found => found
  | fuel + 1, interfaces, found =>
    let fresh := interfaces.eraseDups.filter fun key => !found.contains key
    if fresh.isEmpty then found
    else
      s.addInterfaces fuel (fresh.flatMap fun key => (s.supertypes key).interfaces)
        (found ++ fresh)

/-- A type, its superclasses, then all interfaces, nearest first: the order in which members are
looked for. -/
def lookupOrder (s : BoundWorkspace) (key : TypeKey) : List TypeKey :=
  let classes := s.superclassChain s.chainLimit key []
  s.addInterfaces s.chainLimit (classes.flatMap fun key => (s.supertypes key).interfaces) classes

/-- The direct supertypes, the superclass first. -/
def directSupertypes (s : BoundWorkspace) (key : TypeKey) : List TypeKey :=
  (s.supertypes key).superclass.toList ++ (s.supertypes key).interfaces

/-- All supertypes, nearest first. -/
def allSupertypes (s : BoundWorkspace) (key : TypeKey) : List TypeKey :=
  (s.lookupOrder key).filter (· ≠ key)

/-- Whether a type is another one or inherits from it. -/
def isSubtype (s : BoundWorkspace) (sub sup : TypeKey) : Bool :=
  sub == sup || (s.lookupOrder sub).contains sup

/-! ## Names -/

/-- The member type of that name which a type declares or inherits. -/
def memberType? (s : BoundWorkspace) (owner : TypeKey) (name : String) : Option TypeKey :=
  (s.lookupOrder owner).findSome? fun key =>
    let candidate : TypeKey := ⟨key.origin, key.qualifiedName ++ "." ++ name⟩
    (s.declared? candidate).map fun _ => candidate

/-- The member type at the end of a path of names. -/
def memberTypeAt? (s : BoundWorkspace) (key : TypeKey) : List String → Option TypeKey
  | [] => some key
  | name :: path => (s.memberType? key name).bind fun inner => s.memberTypeAt? inner path

/-- The type of a simple name among the types around the place and their members. -/
def typeAround? (s : BoundWorkspace) (scope : NameScope) (name : String) : Option TypeKey :=
  (s.enclosingChain scope.enclosing).findSome? fun key =>
    if key.simpleName = name then some key else s.memberType? key name

/-- The type of a simple name. -/
def simpleType? (s : BoundWorkspace) (scope : NameScope) (name : String) : Option TypeKey :=
  s.typeAround? scope name <|> scope.topLevelType? name

/-- The type of a dotted name: a member of the type of its first segment, or a qualified name. -/
def typeOfName? (s : BoundWorkspace) (scope : NameScope) : List String → Option TypeKey
  | [] => none
  | first :: rest =>
    ((s.simpleType? scope first).bind fun key => s.memberTypeAt? key rest) <|>
      if rest.isEmpty then none else scope.env.lookup? (".".intercalate (first :: rest))

/-- The type that a written type names; a primitive type has no declaration. -/
def typeOfRef? (s : BoundWorkspace) (scope : NameScope) (ref : TypeRef) : Option TypeKey :=
  if ref.isPrimitive then none else s.typeOfName? scope ref.segments

/-- The type of a qualified name as an archive sees it: from its own types first, then from all
archives in order. -/
def binaryType? (s : BoundWorkspace) (archive : ArchiveId) (qualifiedName : String) :
    Option TypeKey :=
  ((s.workspace.archive? archive).bind (·.lookup? qualifiedName)) <|>
    s.workspace.archives.values.findSome? (·.lookup? qualifiedName)

/-- The type that a written type names in the declaration of a member. -/
def typeOfMemberRef? (s : BoundWorkspace) (owner : TypeKey) (ref : TypeRef) : Option TypeKey :=
  if ref.isPrimitive then none
  else
    match owner.origin with
    | .source _ => (s.declarationScope? owner).bind fun scope => s.typeOfRef? scope ref
    | .archive id => s.binaryType? id ref.dotted

/-- The static type of a written type whose declaration, if it is no primitive type, is `key`. -/
def staticTypeOf (ref : TypeRef) (key : Option TypeKey) : StaticType :=
  if ref.isPrimitive then (StaticType.primitive ref.simpleName).arrayOf ref.dims
  else
    match key with
    | some key => (StaticType.named key).arrayOf ref.dims
    | none => (StaticType.unresolved ref.simpleName).arrayOf ref.dims

/-- The static type of a type written at a place. -/
def staticTypeOfRef (s : BoundWorkspace) (scope : NameScope) (ref : TypeRef) : StaticType :=
  staticTypeOf ref (s.typeOfRef? scope ref)

/-- The static type of a type written in the declaration of a member. -/
def staticTypeOfMemberRef (s : BoundWorkspace) (owner : TypeKey) (ref : TypeRef) : StaticType :=
  staticTypeOf ref (s.typeOfMemberRef? owner ref)

end BoundWorkspace

end SourceSearch
