import SourceSearch.Module

/-!
# Project configurations

A project reads its source folders first and then the entries of its classpath in order: an archive
by path, an archive by the name of a variable, or another project, which can be passed on to those
who require this one.
-/

set_option autoImplicit false

namespace SourceSearch

/-- An entry of a classpath. -/
inductive ClasspathEntry
  | library (path : String)
  | variable (name : String)
  | project (name : String) (exported : Bool)
  deriving DecidableEq, Repr

/-- What a project is made with. A source folder is a path below the project, empty for its root. -/
structure ProjectConfig where
  name : String
  sourceFolders : List String
  classpath : List ClasspathEntry
  module : Option ModuleDescription
  deriving DecidableEq, Repr

namespace ProjectConfig

/-- Takes the slashes off both ends. -/
def trimSlashes (folder : String) : String :=
  let cs := folder.toList.dropWhile (· == '/')
  String.ofList (cs.reverse.dropWhile (· == '/')).reverse

/-- A configuration whose source folders are written with or without slashes around them. -/
def ofFolders (name : String) (folders : List String) (classpath : List ClasspathEntry)
    (module : Option ModuleDescription) : ProjectConfig :=
  ⟨name, folders.map trimSlashes, classpath, module⟩

end ProjectConfig

end SourceSearch
