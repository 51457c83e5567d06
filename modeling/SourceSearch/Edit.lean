import SourceSearch.Workspace

/-!
# Edits of a workspace

An edit makes a new workspace or fails and makes none, so an edit that fails takes no numbers
either. `Workspace.apply` performs an edit; `Workspace.after` and `Workspace.afterAll` say what a
workspace is after edits that may fail.
-/

set_option autoImplicit false

namespace SourceSearch

/-- A change of a workspace. -/
inductive Edit
  | createProject (config : ProjectConfig)
  | deleteProject (name : String)
  | deleteProjects (names : List String)
  | copyProject (source target : String)
  | createFolder (path : String)
  | createFile (path text : String)
  | setFile (path text : String)
  | deleteFile (path : String)
  | registerArchive (path : String) (sources : List (String × String))
      (module : Option ModuleDescription)
  | setVariable (name path : String)
  deriving DecidableEq, Repr

/-- What an edit made, if it made something with a number. -/
inductive Edit.Made
  | nothing
  | project (id : ProjectId)
  | file (id : FileId)
  | archive (id : ArchiveId)
  deriving DecidableEq, Repr

namespace Workspace

/-- Brings the tables of a project up to date with its files. -/
def refreshProject (ws : Workspace) (name : String) : Workspace :=
  { ws with projects := ws.projects.modify name (·.refresh ws.sources) }

/-- Makes a project. Its name is not empty, holds no slash and is new. -/
def createProject (ws : Workspace) (config : ProjectConfig) :
    Except Error (ProjectId × Workspace) :=
  if config.name = "" ∨ '/' ∈ config.name.toList then .error (.invalidPath config.name)
  else if ws.projects.contains config.name then .error (.projectExists config.name)
  else
    let (id, ids) := ws.ids.project
    .ok (id, { ws with
      ids := ids
      projects := ws.projects.insert config.name (.ofConfig id config) })

/-- Takes a project away with all its files. -/
def deleteProject (ws : Workspace) (name : String) : Except Error Workspace := do
  let project ← ws.requireProject name
  let files := project.files.values.map (·.index)
  return { ws with
    projects := ws.projects.erase name
    contents := files.foldl (·.erase ·) ws.contents
    sources := files.foldl (·.erase ·) ws.sources }

/-- Takes away all projects of the list that exist. -/
def deleteProjects (ws : Workspace) : List String → Except Error Workspace
  | [] => .ok ws
  | name :: names =>
    if ws.projects.contains name then do (← ws.deleteProject name).deleteProjects names
    else ws.deleteProjects names

/-- Sets the text of a file, and parses it if it is a compilation unit. -/
def writeFile (ws : Workspace) (project : Project) (rel : String) (file : FileId) (text : String) :
    Workspace :=
  { ws with
    contents := ws.contents.insert file.index text
    sources :=
      if project.isCompilationUnit rel then
        ws.sources.insert file.index (.ofText file project.name rel text)
      else ws.sources }

/-- Adds a file to a project that exists. -/
def addFile (ws : Workspace) (project : Project) (rel text : String) : FileId × Workspace :=
  let (file, ids) := ws.ids.file
  let added := { ws with
    ids := ids
    projects := ws.projects.insert project.name
      { project with files := project.files.insert rel file } }
  (file, (added.writeFile project rel file text).refreshProject project.name)

/-- Copies the files at the paths into a project, in order. -/
def copyFiles (source target : String) :
    List (String × FileId) → Workspace → Except Error Workspace
  | [], ws => .ok ws
  | (rel, file) :: rest, ws => do
    match ws.contents.get? file.index with
    | none => throw (.resourceNotFound ("/" ++ source ++ "/" ++ rel))
    | some text =>
      let project ← ws.requireProject target
      copyFiles source target rest (ws.addFile project rel text).2

/-- Copies a project with its folders and files. -/
def copyProject (ws : Workspace) (source target : String) :
    Except Error (ProjectId × Workspace) := do
  let copied ← ws.requireProject source
  let (id, created) ← ws.createProject (copied.configAs target)
  let withFolders := { created with
    projects := created.projects.modify target fun p =>
      copied.folders.keys.foldl (·.addFolder ·) p }
  return (id, ← copyFiles source target copied.files.entries withFolders)

/-- Makes a folder and all folders on the way to it. -/
def createFolder (ws : Workspace) (path : String) : Except Error Workspace := do
  let (name, rel) ← splitPath path
  if rel = "" then throw (.invalidPath path)
  let project ← ws.requireProject name
  if project.hasFolder rel || (project.file? rel).isSome then throw (.resourceExists path)
  return { ws with projects := ws.projects.insert name (project.addFolder rel) }

/-- Makes a file in a folder that exists. -/
def createFile (ws : Workspace) (path text : String) : Except Error (FileId × Workspace) := do
  let (name, rel) ← splitPath path
  if rel = "" then throw (.invalidPath path)
  let project ← ws.requireProject name
  if (project.file? rel).isSome || project.hasFolder rel then throw (.resourceExists path)
  let parent := parentFolder rel
  if !project.hasFolder parent then throw (.folderNotFound ("/" ++ name ++ "/" ++ parent))
  return ws.addFile project rel text

/-- Gives a file another text. -/
def setFile (ws : Workspace) (path text : String) : Except Error Workspace := do
  let (name, rel) ← splitPath path
  let project ← ws.requireProject name
  match project.file? rel with
  | none => throw (.resourceNotFound path)
  | some file => return (ws.writeFile project rel file text).refreshProject name

/-- Takes a file away. -/
def deleteFile (ws : Workspace) (path : String) : Except Error Workspace := do
  let (name, rel) ← splitPath path
  let project ← ws.requireProject name
  match project.file? rel with
  | none => throw (.resourceNotFound path)
  | some file =>
    let removed := { ws with
      projects := ws.projects.insert name { project with files := project.files.erase rel }
      contents := ws.contents.erase file.index
      sources := ws.sources.erase file.index }
    return removed.refreshProject name

/-- Compiles sources into an archive at a new path. -/
def registerArchive (ws : Workspace) (path : String) (sources : List (String × String))
    (module : Option ModuleDescription) : Except Error (ArchiveId × Workspace) := do
  if ws.archives.contains path then throw (.resourceExists path)
  let (id, ids) := ws.ids.archive
  let archive ← Archive.ofSources id path sources module
  return (id, { ws with ids := ids, archives := ws.archives.insert path archive })

/-- Binds a variable to a registered archive. -/
def setVariable (ws : Workspace) (name path : String) : Except Error Workspace :=
  if ws.archives.contains path then
    .ok { ws with vars := ws.vars.insert name path }
  else .error (.archiveNotFound path)

/-- Performs an edit. -/
def apply (ws : Workspace) : Edit → Except Error (Edit.Made × Workspace)
  | .createProject config => do
    let (id, next) ← ws.createProject config
    return (.project id, next)
  | .deleteProject name => return (.nothing, ← ws.deleteProject name)
  | .deleteProjects names => return (.nothing, ← ws.deleteProjects names)
  | .copyProject source target => do
    let (id, next) ← ws.copyProject source target
    return (.project id, next)
  | .createFolder path => return (.nothing, ← ws.createFolder path)
  | .createFile path text => do
    let (id, next) ← ws.createFile path text
    return (.file id, next)
  | .setFile path text => return (.nothing, ← ws.setFile path text)
  | .deleteFile path => return (.nothing, ← ws.deleteFile path)
  | .registerArchive path sources module => do
    let (id, next) ← ws.registerArchive path sources module
    return (.archive id, next)
  | .setVariable name path => return (.nothing, ← ws.setVariable name path)

/-- The workspace after an edit, which is the same one when the edit fails. -/
def after (ws : Workspace) (edit : Edit) : Workspace :=
  match ws.apply edit with
  | .ok (_, next) => next
  | .error _ => ws

/-- The workspace after several edits, any of which may fail. -/
def afterAll (ws : Workspace) (edits : List Edit) : Workspace := edits.foldl after ws

end Workspace

end SourceSearch
