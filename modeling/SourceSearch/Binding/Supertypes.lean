import SourceSearch.Binding.Names

/-!
# Supertypes

The supertypes of a type are written outside its body, so their names are bound at the place of its
declaration. Binding a name can need supertypes again, those of the types around. `refine` binds the
supertypes of all types by means of a table of supertypes, and `settle` starts from the table where
no type has any and refines it until nothing changes.
-/

set_option autoImplicit false

namespace SourceSearch

/-- The qualified name of the class that all classes extend. -/
def objectName : String := "java.lang.Object"

namespace BoundWorkspace

/-- The class that all classes extend, as seen from the declaration of a type. -/
def implicitObject? (s : BoundWorkspace) (key : TypeKey) : Option TypeKey :=
  match key.origin with
  | .source file => do
    let source ← s.workspace.source? file
    (← s.environments.get? source.project).lookup? objectName
  | .archive id => s.binaryType? id objectName

/-- The type of a supertype that the declaration of a type writes. -/
def typeOfHeadRef? (s : BoundWorkspace) (info : DeclaredType) (key : TypeKey) (ref : TypeRef) :
    Option TypeKey :=
  match key.origin with
  | .source file => do
    let source ← s.workspace.source? file
    let scope ← s.scope? source (info.outer.map fun name => ⟨key.origin, name⟩)
    s.typeOfRef? scope ref
  | .archive id => s.binaryType? id ref.dotted

/-- The superclass of a type: the one it writes, or the class that all classes extend. No type is
its own superclass. -/
def superclassOf? (s : BoundWorkspace) (info : DeclaredType) (key : TypeKey) : Option TypeKey :=
  let superclass :=
    match info.superclass with
    | some ref => s.typeOfHeadRef? info key ref
    | none =>
      if info.isInterface || info.qualifiedName == objectName then none
      else s.implicitObject? key
  superclass.filter (· ≠ key)

/-- The direct supertypes of a type, bound by means of the given ones. -/
def bindSupertypes (s : BoundWorkspace) (key : TypeKey) : Supertypes :=
  match s.declared? key with
  | none => {}
  | some info =>
    { superclass := s.superclassOf? info key
      interfaces := info.interfaces.filterMap (s.typeOfHeadRef? info key) }

end BoundWorkspace

/-- All declared types of a workspace. -/
def Workspace.typeKeys (ws : Workspace) : List TypeKey :=
  (ws.sources.values.flatMap fun file => file.types.map (·.key)) ++
    ws.archives.values.flatMap fun archive => archive.types.map (·.key)

namespace BoundWorkspace

/-- Supertypes of some types. -/
abbrev SupertypeTable := List (TypeKey × Supertypes)

/-- A workspace with the supertypes of a table; other types have none. -/
def withTable (ws : Workspace) (environments : Table String Environment) (chainLimit : Nat)
    (table : SupertypeTable) : BoundWorkspace where
  workspace := ws
  environments := environments
  supertypes key := (table.lookup key).getD {}
  chainLimit := chainLimit

/-- Binds the supertypes of the types by means of a table. -/
def refine (ws : Workspace) (environments : Table String Environment) (keys : List TypeKey)
    (table : SupertypeTable) : SupertypeTable :=
  let s := withTable ws environments (keys.length + 2) table
  keys.map fun key => (key, s.bindSupertypes key)

/-- Refines a table until nothing changes, at most `fuel` times. -/
def settle (ws : Workspace) (environments : Table String Environment) (keys : List TypeKey) :
    (fuel : Nat) → SupertypeTable → SupertypeTable
  | 0, table => table
  | fuel + 1, table =>
    let next := refine ws environments keys table
    if next = table then table else settle ws environments keys fuel next

/-- The environments of all projects. -/
def environmentsOf (ws : Workspace) : Table String Environment :=
  ws.projects.entries.foldl (fun envs e => envs.insert e.1 (.ofProject ws e.2)) ∅

/-- What binding needs to know of a workspace. -/
def ofWorkspace (ws : Workspace) : BoundWorkspace :=
  let environments := environmentsOf ws
  let keys := ws.typeKeys
  withTable ws environments (keys.length + 2)
    (settle ws environments keys (keys.length + 2) [])

/-- The superclass of a type. -/
def superclass? (s : BoundWorkspace) (key : TypeKey) : Option TypeKey :=
  (s.supertypes key).superclass

end BoundWorkspace

end SourceSearch
