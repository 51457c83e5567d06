import SourceSearch.ClassLibrary
import SourceSearch.Project
import SourceSearch.Signature
import SourceSearch.Store.Register

/-!
# Workspaces

A workspace holds projects by name, the contents and the parsed form of their files, archives by
path and the variables that name archives. It is a value: an edit makes another workspace, and those
who hold the old one see no change.
-/

set_option autoImplicit false

namespace SourceSearch

/-- A state of all projects, files, archives and variables. -/
structure Workspace where
  ids : IdSupply
  projects : Table String Project
  contents : Table Nat String
  sources : Table Nat SourceFile
  archives : Register Archive
  vars : Register String

namespace Workspace

/-- The workspace with nothing but the class library. -/
def initial : Workspace :=
  let (id, ids) := IdSupply.archive {}
  { ids := ids
    projects := ∅
    contents := ∅
    sources := ∅
    archives := Register.empty.insert ClassLibrary.path (ClassLibrary.archive id)
    vars := Register.empty.insert ClassLibrary.variableName ClassLibrary.path }

/-! ## Projects and files -/

/-- The project of that name. -/
def project? (ws : Workspace) (name : String) : Option Project := ws.projects.get? name

/-- The project of that name, which has to exist. -/
def requireProject (ws : Workspace) (name : String) : Except Error Project :=
  match ws.project? name with
  | some project => .ok project
  | none => .error (.projectNotFound name)

/-- The parsed form of a compilation unit. -/
def source? (ws : Workspace) (file : FileId) : Option SourceFile := ws.sources.get? file.index

/-- Cuts `/Project/path/To.java` into the project and the path below it. Slashes at the end do not
count, and the path may not lead through `.` or `..`. -/
def splitPath (path : String) : Except Error (String × String) :=
  match path.toList with
  | '/' :: cs =>
    let trimmed := (cs.reverse.dropWhile (· == '/')).reverse
    let project := trimmed.takeWhile (· ≠ '/')
    let rest := (trimmed.dropWhile (· ≠ '/')).drop 1
    if project.isEmpty || (Text.splitAtChar '/' rest).any (fun s => s == ['.'] || s == ['.', '.'])
    then .error (.invalidPath path)
    else .ok (String.ofList project, String.ofList rest)
  | _ => .error (.invalidPath path)

/-- The folder of a path below a project. -/
def parentFolder (rel : String) : String := String.ofList (Text.beforeLast (· == '/') rel.toList)

/-- The compilation unit at a path. -/
def compilationUnit (ws : Workspace) (path : String) : Except Error FileId := do
  let (name, rel) ← splitPath path
  let project ← ws.requireProject name
  match project.file? rel with
  | some file =>
    if (ws.source? file).isSome then return file else throw (.resourceNotFound path)
  | none => throw (.resourceNotFound path)

/-- Whether the project requires the current one and is not `name`. -/
def isDependent (name current : String) (project : Project) : Bool :=
  project.requires current && project.name ≠ name

/-- The projects that depend on the current one and are not found yet, by name. -/
def newDependents (ws : Workspace) (name current : String) (found : List String) : List String :=
  (ws.projects.values.filter fun p => !found.contains p.name && isDependent name current p).map
    (·.name)

/-- How many projects are not found yet. -/
def unfound (ws : Workspace) (found : List String) : Nat :=
  ws.projects.values.countP fun p => !found.contains p.name

/-- Each project that is found is one less to find. -/
theorem unfound_append_newDependents (ws : Workspace) (name current : String)
    (found : List String) :
    ws.unfound (found ++ ws.newDependents name current found) +
      (ws.newDependents name current found).length ≤ ws.unfound found := by
  have hold : ws.unfound (found ++ ws.newDependents name current found) ≤
      ws.projects.values.countP fun p => !found.contains p.name && !isDependent name current p := by
    refine List.countP_mono_left fun p hp hleft => ?_
    have hnot : p.name ∉ found ++ ws.newDependents name current found := by
      simpa [List.contains_eq_mem] using hleft
    have hfound : p.name ∉ found := fun h => hnot (List.mem_append_left _ h)
    cases hdependent : isDependent name current p with
    | false => simp [hfound]
    | true =>
      refine absurd (List.mem_append_right _ (List.mem_map.2 ⟨p, ?_, rfl⟩)) hnot
      exact List.mem_filter.2 ⟨hp, by simp [hfound, hdependent]⟩
  have hsplit : ws.unfound found = (ws.newDependents name current found).length +
      ws.projects.values.countP fun p => !found.contains p.name && !isDependent name current p := by
    rw [unfound, List.countP_eq_countP_filter_add _ _ (isDependent name current),
      List.countP_filter, List.countP_filter, newDependents, List.length_map,
      List.countP_eq_length_filter]
  omega

/-- Follows requirements backwards: the project on top of the pending ones is taken off, and those
that require it are found and go on top, unless they were found before. -/
def findDependents (ws : Workspace) (name : String) :
    (pending : List String) → (found : List String) → List String
  | [], found => found
  | current :: pending, found =>
    let new := ws.newDependents name current found
    ws.findDependents name (new.reverse ++ pending) (found ++ new)
termination_by pending found => ws.unfound found + pending.length
decreasing_by
  have hless := ws.unfound_append_newDependents name current found
  simp only [List.length_append, List.length_reverse, List.length_cons]
  omega

/-- The projects that require the project, directly or through others, by name. -/
def dependents (ws : Workspace) (name : String) : List String :=
  ws.projects.keys.filter (ws.findDependents name [name] []).contains

/-! ## Archives -/

/-- The archive of that number. -/
def archive? (ws : Workspace) (id : ArchiveId) : Option Archive :=
  ws.archives.values.find? (·.id == id)

/-- The archive at a path. -/
def archiveAt? (ws : Workspace) (path : String) : Option Archive := ws.archives.get? path

/-- The archive that an entry of a classpath names. -/
def library? (ws : Workspace) : ClasspathEntry → Option Archive
  | .library path => ws.archiveAt? path
  | .variable name => (ws.vars.get? name).bind ws.archiveAt?
  | .project _ _ => none

/-- Adds an archive at the end unless it is there. -/
def addArchive (archives : List Archive) (archive : Archive) : List Archive :=
  if archives.any (·.id == archive.id) then archives else archives ++ [archive]

/-- The archives that a project's own classpath names, in order. -/
def libraries (ws : Workspace) (project : Project) : List Archive :=
  (project.classpath.filterMap ws.library?).foldl addArchive []

/-! ## Types and members -/

/-- The declaration of a type. -/
def declared? (ws : Workspace) (key : TypeKey) : Option DeclaredType :=
  match key.origin with
  | .source file => (ws.source? file).bind (·.declared? key.qualifiedName)
  | .archive id => (ws.archive? id).bind (·.declared? key.qualifiedName)

/-- The project that declares a type of a source file. -/
def projectOf? (ws : Workspace) (key : TypeKey) : Option String :=
  (key.origin.file?.bind ws.source?).map (·.project)

/-- The first type of the simple name in a compilation unit. -/
def findType (ws : Workspace) (file : FileId) (simpleName : String) : Except Error TypeKey :=
  match (ws.source? file).bind (·.typeNamed? simpleName) with
  | some info => .ok info.key
  | none => .error (.elementNotFound (simpleName ++ " in " ++ file.describe))

/-- The method of a type by its name and the signatures of its parameters. -/
def findMethod (ws : Workspace) (owner : TypeKey) (selector : String) (signatures : List String) :
    Except Error MethodHandle :=
  let wanted := MethodHandle.ofSignatures owner selector signatures
  match ws.declared? owner with
  | none => .error (.elementNotFound owner.qualifiedName)
  | some info =>
    if info.methods.any fun m => m.handle owner = wanted then .ok wanted
    else .error (.elementNotFound wanted.describe)

/-- The field of a type by its name. -/
def findField (ws : Workspace) (owner : TypeKey) (name : String) : Except Error FieldHandle :=
  match (ws.declared? owner).bind (·.field? name) with
  | some field => .ok (field.handle owner)
  | none => .error (.elementNotFound (owner.qualifiedName ++ "." ++ name))

end Workspace

end SourceSearch
