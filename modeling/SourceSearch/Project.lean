import SourceSearch.Archive
import SourceSearch.Classpath
import SourceSearch.Store.Table

/-!
# Projects

A project holds folders and files by path. The files that end in `.java` below a source folder are
its compilation units; from them it keeps two tables, the types by qualified name and the packages.
Of two declarations of one name the one in the first path counts.
-/

set_option autoImplicit false

namespace SourceSearch

/-- A project of a workspace. -/
structure Project where
  id : ProjectId
  name : String
  sourceFolders : List String
  classpath : List ClasspathEntry
  module : Option ModuleDescription
  folders : Table String Unit
  files : Table String FileId
  types : Table String TypeKey
  packages : List String

namespace Project

/-- A project without files; its source folders exist. -/
def ofConfig (id : ProjectId) (config : ProjectConfig) : Project where
  id := id
  name := config.name
  sourceFolders := config.sourceFolders
  classpath := config.classpath
  module := config.module
  folders := (config.sourceFolders.filter (· ≠ "")).foldl (·.insert · ()) ∅
  files := ∅
  types := ∅
  packages := []

/-- The configuration that makes a like project under another name. -/
def configAs (project : Project) (name : String) : ProjectConfig :=
  ⟨name, project.sourceFolders, project.classpath, project.module⟩

/-- The projects that the classpath names. -/
def requiredProjects (project : Project) : List String :=
  project.classpath.filterMap fun
    | .project name _ => some name
    | _ => none

/-- Whether the classpath names the project. -/
def requires (project : Project) (name : String) : Bool := project.requiredProjects.contains name

/-- Whether there is such a folder; the root always exists. -/
def hasFolder (project : Project) (path : String) : Bool :=
  path == "" || project.folders.contains path

/-- The folders on the way to a path, and the path itself; blank parts of it do not count. -/
def folderPaths (path : String) : List String :=
  let segments := (Text.split '/' path).filter (· ≠ "")
  (List.range segments.length).map fun n => "/".intercalate (segments.take (n + 1))

/-- Adds a folder and all folders on the way to it. -/
def addFolder (project : Project) (path : String) : Project :=
  { project with folders := (folderPaths path).foldl (·.insert · ()) project.folders }

/-- The file at a path. -/
def file? (project : Project) (path : String) : Option FileId := project.files.get? path

/-- Whether the path is that of a compilation unit. -/
def isCompilationUnit (project : Project) (path : String) : Bool :=
  ".java".toList.isSuffixOf path.toList &&
    project.sourceFolders.any fun folder =>
      folder == "" || (folder ++ "/").toList.isPrefixOf path.toList

/-- The compilation units, by path. -/
def compilationUnits (project : Project) : List (String × FileId) :=
  project.files.entries.filter fun e => project.isCompilationUnit e.1

/-- The first type of the qualified name. -/
def lookup? (project : Project) (qualifiedName : String) : Option TypeKey :=
  project.types.get? qualifiedName

/-- Whether a unit is in the package or in one inside it. -/
def hasPackage (project : Project) (package : String) : Bool := project.packages.contains package

/-- The parsed files of the compilation units, by path. -/
def parsedUnits (project : Project) (sources : Table Nat SourceFile) : List SourceFile :=
  project.compilationUnits.filterMap fun e => sources.get? e.2.index

/-- The packages of the files that parse, each with its outer packages. -/
def packagesOf (files : List SourceFile) : List String :=
  ((files.filter (·.unit?.isSome)).flatMap fun file => packagePath file.package).eraseDups

/-- The first type of each qualified name. -/
def typesOf (files : List SourceFile) : Table String TypeKey :=
  (files.flatMap (·.types)).foldl
    (fun types info => types.insertIfNew info.key.qualifiedName info.key) ∅

/-- Brings the tables of types and packages up to date. -/
def refresh (project : Project) (sources : Table Nat SourceFile) : Project :=
  let files := project.parsedUnits sources
  { project with types := typesOf files, packages := packagesOf files }

end Project

end SourceSearch
