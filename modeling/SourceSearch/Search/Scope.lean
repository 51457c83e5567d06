import SourceSearch.Binding.Hierarchy
import SourceSearch.Search.Pattern

/-!
# Where to search

A scope lists documents, which are source files and archives as seen from a project, in the order of
projects and paths. In a document everything can count, or only what stands in certain types.
-/

set_option autoImplicit false

namespace SourceSearch

/-- A source file or an archive. -/
inductive DocumentId
  | source (file : FileId)
  | archive (id : ArchiveId)
  deriving DecidableEq, Repr

/-- The document that declares the types of an origin. -/
def Origin.document : Origin → DocumentId
  | .source file => .source file
  | .archive id => .archive id

/-- What counts in a document: everything, or what stands in these types. -/
inductive Coverage
  | all
  | types (keys : List TypeKey)
  deriving DecidableEq, Repr

namespace Coverage

/-- Whether a place counts, given the types around it. -/
def encloses (coverage : Coverage) (around : List TypeKey) : Bool :=
  match coverage with
  | .all => true
  | .types keys => around.any keys.contains

/-- What counts by one coverage or the other. -/
def union : Coverage → Coverage → Coverage
  | .all, _ => .all
  | .types _, .all => .all
  | .types mine, .types theirs => .types (mine ++ theirs.filter fun key => !mine.contains key)

end Coverage

/-- A document of a scope, with the project and the resource that its matches are shown with. -/
structure Document where
  id : DocumentId
  project : String
  resource : String
  coverage : Coverage
  deriving DecidableEq, Repr

/-- How a scope was made. -/
inductive ScopeKind
  | elements
  | hierarchy (focus : TypeKey)
  | workspace
  deriving DecidableEq, Repr

/-- A scope: the projects that it was made over, in the order in which they came, and its documents
by project and resource. -/
structure SearchScope where
  kind : ScopeKind
  projects : List String
  documents : List Document
  deriving DecidableEq, Repr

/-- A scope in the making: documents by project and resource. -/
structure ScopeDraft where
  projects : List String := []
  documents : Table String (Table String Document) := ∅

namespace ScopeDraft

/-- The documents, by project and resource. -/
def toList (draft : ScopeDraft) : List Document :=
  draft.documents.values.flatMap (·.values)

/-- Records a project. -/
def addProject (draft : ScopeDraft) (name : String) : ScopeDraft :=
  if draft.projects.contains name then draft
  else { draft with projects := draft.projects ++ [name] }

/-- Whether the document is an archive that another project has brought in. -/
def isTaken (draft : ScopeDraft) (doc : Document) : Bool :=
  match doc.id with
  | .source _ => false
  | .archive _ => draft.toList.any fun d => d.id == doc.id && d.project != doc.project

/-- Adds a document. One that is there counts for more from then on, and an archive stays with the
first project that it was added for. -/
def add (draft : ScopeDraft) (doc : Document) : ScopeDraft :=
  if draft.isTaken doc then draft
  else
    let ofProject := (draft.documents.get? doc.project).getD ∅
    let merged :=
      match ofProject.get? doc.resource with
      | some known => { known with coverage := known.coverage.union doc.coverage }
      | none => doc
    { draft with
      documents := draft.documents.insert doc.project (ofProject.insert doc.resource merged) }

/-- Adds a source file. -/
def addSource (draft : ScopeDraft) (source : SourceFile) (coverage : Coverage) : ScopeDraft :=
  (draft.addProject source.project).add ⟨.source source.id, source.project, source.path, coverage⟩

/-- Adds an archive as seen from a project. -/
def addArchive (draft : ScopeDraft) (archive : Archive) (project : String) (coverage : Coverage) :
    ScopeDraft :=
  draft.add ⟨.archive archive.id, project, archive.path, coverage⟩

/-- Adds the units and the archives of a project. -/
def addWholeProject (ws : Workspace) (draft : ScopeDraft) (project : Project) : ScopeDraft :=
  let withSources := (project.parsedUnits ws.sources).foldl (·.addSource · .all)
    (draft.addProject project.name)
  (ws.libraries project).foldl (·.addArchive · project.name .all) withSources

/-- The finished scope. -/
def finish (draft : ScopeDraft) (kind : ScopeKind) : SearchScope :=
  ⟨kind, draft.projects, draft.toList⟩

/-- The first of the projects, by name, whose classpath names the archive. -/
def holderOf? (ws : Workspace) (id : ArchiveId) (among : List String) : Option String :=
  ws.projects.keys.find? fun name =>
    among.contains name &&
      (ws.project? name).any fun p => (ws.libraries p).any (·.id == id)

/-- Adds the code of a type. The code of an archive's type is seen from the first project with the
archive, and from nowhere if there is none. -/
def addType (ws : Workspace) (draft : ScopeDraft) (key : TypeKey) : Except Error ScopeDraft :=
  if (ws.declared? key).isNone then .error (.elementNotFound key.qualifiedName)
  else
    match key.origin with
    | .source file =>
      match ws.source? file with
      | some source => .ok (draft.addSource source (.types [key]))
      | none => .ok draft
    | .archive id =>
      match holderOf? ws id ws.projects.keys, ws.archive? id with
      | some project, some archive =>
        .ok ((draft.addProject project).addArchive archive project (.types [key]))
      | _, _ => .ok draft

/-- Adds an element. -/
def addElement (ws : Workspace) (draft : ScopeDraft) : Element → Except Error ScopeDraft
  | .project name =>
    match ws.project? name with
    | some project => .ok (addWholeProject ws draft project)
    | none => .error (.projectNotFound name)
  | .unit file =>
    match ws.source? file with
    | some source => .ok (draft.addSource source .all)
    | none => .error (.elementNotFound file.describe)
  | .type key => addType ws draft key
  | .method handle => addType ws draft handle.owner
  | .field handle => addType ws draft handle.owner

end ScopeDraft

namespace SearchScope

/-- The scope of elements: projects with their archives but without the projects they require, whole
files, and the code of types. -/
def ofElements (ws : Workspace) (elements : List Element) : Except Error SearchScope := do
  let draft ← elements.foldlM (ScopeDraft.addElement ws) {}
  return draft.finish .elements

/-- The numbers of the archives that declare the types, in order. -/
def archivesOf (types : List TypeKey) : List Nat :=
  ((types.filterMap fun key =>
    match key.origin with
    | .archive id => some id.index
    | .source _ => none).eraseDups).mergeSort (fun a b => decide (a ≤ b))

/-- The scope of a hierarchy: the code of its types, looked for in all projects that see one of its
source types, or one of all its types when none is in a source file. -/
def ofHierarchy (s : BoundWorkspace) (hierarchy : TypeHierarchy) : SearchScope :=
  let ws := s.workspace
  let coverage := Coverage.types hierarchy.types.eraseDups
  let sourceTypes := hierarchy.types.filter (·.origin.file?.isSome)
  let roots := if sourceTypes.isEmpty then hierarchy.types else sourceTypes
  let seeing := roots.flatMap ws.projectsSeeing
  let candidates := ws.projects.keys.filter seeing.contains
  let withSources := candidates.foldl (fun (draft : ScopeDraft) name =>
    match ws.project? name with
    | some project =>
      (project.parsedUnits ws.sources).foldl (·.addSource · coverage) (draft.addProject name)
    | none => draft) {}
  let withArchives := (archivesOf hierarchy.types).foldl (fun (draft : ScopeDraft) index =>
    match ScopeDraft.holderOf? ws ⟨index⟩ candidates, ws.archive? ⟨index⟩ with
    | some project, some archive => draft.addArchive archive project coverage
    | _, _ => draft) withSources
  withArchives.finish (.hierarchy hierarchy.focus)

/-- The scope of the hierarchy of a type. -/
def hierarchy (s : BoundWorkspace) (focus : TypeKey) : Except Error SearchScope :=
  if (s.declared? focus).isNone then .error (.elementNotFound focus.qualifiedName)
  else .ok (ofHierarchy s (s.hierarchy focus))

/-- The scope of all projects with their archives. -/
def workspace (ws : Workspace) : SearchScope :=
  (ws.projects.values.foldl (ScopeDraft.addWholeProject ws) {}).finish .workspace

/-- Whether the scope was made over the project. -/
def includesProject (scope : SearchScope) (name : String) : Bool := scope.projects.contains name

/-- Whether the file is a document of the scope. -/
def includesFile (scope : SearchScope) (file : FileId) : Bool :=
  scope.documents.any (·.id == .source file)

/-- Whether the code directly in a type counts. -/
def enclosesType (scope : SearchScope) (s : BoundWorkspace) (key : TypeKey) : Bool :=
  scope.documents.any fun d =>
    d.id == key.origin.document && d.coverage.encloses (s.enclosingChain (some key))

end SearchScope

end SourceSearch
