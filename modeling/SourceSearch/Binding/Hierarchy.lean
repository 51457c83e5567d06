import SourceSearch.Binding.Expressions

/-!
# Type hierarchies

The supertypes and subtypes of a type. Supertypes are bound where each type is declared. Subtypes
are looked for where the type can be seen: in its own project and all that depend on it, or, for a
type of an archive, in the archive and all projects with the archive and their dependents.
-/

set_option autoImplicit false

namespace SourceSearch

/-- A type with its supertypes, nearest first, and its subtypes, by distance and then in the order
of projects, paths and declarations. -/
structure TypeHierarchy where
  focus : TypeKey
  supertypes : List TypeKey
  subtypes : List TypeKey
  deriving DecidableEq, Repr

namespace TypeHierarchy

/-- The type, its supertypes, then its subtypes. -/
def types (h : TypeHierarchy) : List TypeKey := h.focus :: h.supertypes ++ h.subtypes

/-- Whether a type is in the hierarchy. -/
def contains (h : TypeHierarchy) (key : TypeKey) : Bool := h.types.contains key

/-- Whether a type is a proper supertype. -/
def isSupertype (h : TypeHierarchy) (key : TypeKey) : Bool := h.supertypes.contains key

/-- Whether a type is a proper subtype. -/
def isSubtype (h : TypeHierarchy) (key : TypeKey) : Bool := h.subtypes.contains key

end TypeHierarchy

/-- The projects that declare a type or have its archive. -/
def Workspace.homeProjects (ws : Workspace) (key : TypeKey) : List String :=
  match key.origin with
  | .source _ => (ws.projectOf? key).toList
  | .archive id =>
    (ws.projects.values.filter fun p => (ws.libraries p).any (·.id == id)).map (·.name)

/-- The projects in which a type can be named, by name. -/
def Workspace.projectsSeeing (ws : Workspace) (key : TypeKey) : List String :=
  let roots := ws.homeProjects key
  let seeing := roots ++ roots.flatMap ws.dependents
  ws.projects.keys.filter seeing.contains

/-- The types of a project's compilation units, by path. -/
def Workspace.projectTypes (ws : Workspace) (name : String) : List TypeKey :=
  match ws.project? name with
  | some project => (project.parsedUnits ws.sources).flatMap fun file => file.types.map (·.key)
  | none => []

namespace BoundWorkspace

/-- The types that may be subtypes of a type. -/
def subtypeCandidates (s : BoundWorkspace) (focus : TypeKey) : List TypeKey :=
  (s.workspace.projectsSeeing focus).flatMap s.workspace.projectTypes ++
    match focus.origin with
    | .source _ => []
    | .archive id =>
      match s.workspace.archive? id with
      | some archive => archive.types.map (·.key)
      | none => []

/-- Adds the direct subtypes of the types that came last, their direct subtypes, and so on, level by
level. Each candidate stands with its direct supertypes. -/
def addSubtypes (candidates : List (TypeKey × List TypeKey)) :
    (fuel : Nat) → List TypeKey → List TypeKey → List TypeKey
  | 0, _, found => found
  | fuel + 1, last, found =>
    let below := last.flatMap fun sup =>
      (candidates.filter fun c => c.2.contains sup).map (·.1)
    let fresh := below.eraseDups.filter fun key => !found.contains key
    if fresh.isEmpty then found else addSubtypes candidates fuel fresh (found ++ fresh)

/-- All proper subtypes of a type. -/
def subtypes (s : BoundWorkspace) (focus : TypeKey) : List TypeKey :=
  let candidates := (s.subtypeCandidates focus).map fun key => (key, s.directSupertypes key)
  (addSubtypes candidates (candidates.length + 1) [focus] [focus]).drop 1

/-- The hierarchy of a type. -/
def hierarchy (s : BoundWorkspace) (focus : TypeKey) : TypeHierarchy :=
  ⟨focus, s.allSupertypes focus, s.subtypes focus⟩

end BoundWorkspace

end SourceSearch
