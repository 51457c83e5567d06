import SourceSearch.Edit
import SourceSearch.Manifest
import SourceSearch.Store.Directory

/-!
# Loading a workspace from a directory

The directory holds a manifest. Archives are registered first, then variables are bound, and then
each project is made with the folders and the files that are below the folder of its name. Files
whose bytes are no text are passed over.
-/

set_option autoImplicit false

namespace SourceSearch

namespace Manifest

/-- The manifest of a directory. -/
def ofDirectory (dir : Directory) : Except Error Manifest :=
  match dir.text? fileName with
  | none => .error .unreadable
  | some text =>
    match read? text with
    | none => .error .badManifest
    | some manifest => .ok manifest

end Manifest

namespace Workspace

/-- The source texts of an archive in a directory. -/
def archiveSources (dir : Directory) : List (String × String) :=
  dir.texts.filter fun file => ".java".toList.isSuffixOf file.1.toList

/-- Registers an archive whose sources have to be there. -/
def loadArchive (dir : Directory) (ws : Workspace) (archive : ArchiveManifest) :
    Except Error Workspace := do
  match dir.open? archive.sources with
  | none => throw .unreadable
  | some sources =>
    let (_, next) ← ws.registerArchive archive.path (archiveSources sources) archive.module
    return next

/-- Makes a folder of a project unless the project came with it. -/
def loadFolder (project : String) (ws : Workspace) (folder : String) : Except Error Workspace := do
  if (← ws.requireProject project).hasFolder folder then return ws
  ws.createFolder ("/" ++ project ++ "/" ++ folder)

/-- Makes a file of a project. -/
def loadFile (project : String) (ws : Workspace) (file : String × String) :
    Except Error Workspace := do
  let (_, next) ← ws.createFile ("/" ++ project ++ "/" ++ file.1) file.2
  return next

/-- Makes a project; one without a folder stays empty. -/
def loadProject (dir : Directory) (ws : Workspace) (project : ProjectManifest) :
    Except Error Workspace := do
  let (_, created) ← ws.createProject project.config
  match dir.open? project.name with
  | none => return created
  | some content =>
    let withFolders ← content.folders.keys.foldlM (loadFolder project.name) created
    content.texts.foldlM (loadFile project.name) withFolders

/-- Performs what a manifest says. -/
def loadManifest (dir : Directory) (manifest : Manifest) (ws : Workspace) :
    Except Error Workspace := do
  let withArchives ← manifest.archives.foldlM (loadArchive dir) ws
  let withVars ← manifest.vars.entries.foldlM (fun ws v => ws.setVariable v.1 v.2)
    withArchives
  manifest.projects.foldlM (loadProject dir) withVars

/-- The workspace of a directory. -/
def load (dir : Directory) : Except Error Workspace := do
  loadManifest dir (← Manifest.ofDirectory dir) .initial

end Workspace

end SourceSearch
