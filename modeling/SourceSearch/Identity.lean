import SourceSearch.Text.Split

/-!
# Identities

Files, projects and archives have numbers, given out in order and never twice. A type is known by
the place of its declaration and its qualified name, so two projects with the same text declare
different types. A method is known by its type, its name and the erased types of its parameters.

Each identity has a text for people (`display`) and a text that tells it apart from all others
(`describe`).
-/

set_option autoImplicit false

namespace SourceSearch

/-- The number of a source file. -/
structure FileId where
  index : Nat
  deriving DecidableEq, Repr

/-- The number of a project. -/
structure ProjectId where
  index : Nat
  deriving DecidableEq, Repr

/-- The number of an archive. -/
structure ArchiveId where
  index : Nat
  deriving DecidableEq, Repr

namespace FileId

def display (id : FileId) : String := "file#" ++ toString id.index

def describe (id : FileId) : String := "FileId(" ++ toString id.index ++ ")"

end FileId

namespace ProjectId

def display (id : ProjectId) : String := "project#" ++ toString id.index

def describe (id : ProjectId) : String := "ProjectId(" ++ toString id.index ++ ")"

end ProjectId

namespace ArchiveId

def display (id : ArchiveId) : String := "archive#" ++ toString id.index

def describe (id : ArchiveId) : String := "ArchiveId(" ++ toString id.index ++ ")"

end ArchiveId

/-- The numbers that come next. -/
structure IdSupply where
  nextFile : Nat := 0
  nextProject : Nat := 0
  nextArchive : Nat := 0
  deriving DecidableEq, Repr

namespace IdSupply

/-- Gives out the number of a file. -/
def file (ids : IdSupply) : FileId × IdSupply :=
  (⟨ids.nextFile⟩, { ids with nextFile := ids.nextFile + 1 })

/-- Gives out the number of a project. -/
def project (ids : IdSupply) : ProjectId × IdSupply :=
  (⟨ids.nextProject⟩, { ids with nextProject := ids.nextProject + 1 })

/-- Gives out the number of an archive. -/
def archive (ids : IdSupply) : ArchiveId × IdSupply :=
  (⟨ids.nextArchive⟩, { ids with nextArchive := ids.nextArchive + 1 })

end IdSupply

/-- Where a type is declared: in a source file or in an archive. -/
inductive Origin
  | source (file : FileId)
  | archive (id : ArchiveId)
  deriving DecidableEq, Repr

namespace Origin

/-- The source file, unless the type is in an archive. -/
def file? : Origin → Option FileId
  | .source file => some file
  | .archive _ => none

def describe : Origin → String
  | .source file => file.describe
  | .archive id => id.describe

end Origin

/-- A type: `p.X`, or `p.X.Inner` for a member type. -/
structure TypeKey where
  origin : Origin
  qualifiedName : String
  deriving DecidableEq, Repr

namespace TypeKey

/-- The name without package and outer types. -/
def simpleName (key : TypeKey) : String := Text.lastSegment key.qualifiedName

/-- The package or the outer type. -/
def qualifier (key : TypeKey) : String := Text.qualifier key.qualifiedName

def describe (key : TypeKey) : String := key.qualifiedName ++ "@" ++ key.origin.describe

end TypeKey

/-- A method; a parameter type is a simple name with array brackets. -/
structure MethodHandle where
  owner : TypeKey
  selector : String
  params : List String
  deriving DecidableEq, Repr

namespace MethodHandle

/-- The number of parameters. -/
def arity (handle : MethodHandle) : Nat := handle.params.length

/-- Constructors are named like their type. -/
def isConstructor (handle : MethodHandle) : Bool := handle.selector == handle.owner.simpleName

def describe (handle : MethodHandle) : String :=
  handle.owner.describe ++ "." ++ handle.selector ++ "(" ++ ", ".intercalate handle.params ++ ")"

end MethodHandle

/-- A field. -/
structure FieldHandle where
  owner : TypeKey
  name : String
  deriving DecidableEq, Repr

def FieldHandle.describe (handle : FieldHandle) : String :=
  handle.owner.describe ++ "." ++ handle.name

/-- What a scope can be built from and a pattern can be made of. -/
inductive Element
  | project (name : String)
  | unit (file : FileId)
  | type (key : TypeKey)
  | method (handle : MethodHandle)
  | field (handle : FieldHandle)
  deriving DecidableEq, Repr

end SourceSearch
