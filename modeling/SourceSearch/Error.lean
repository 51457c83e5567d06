/-!
# Errors

What can go wrong with a workspace or a search. That a name is not found is an answer and no error.
-/

set_option autoImplicit false

namespace SourceSearch

/-- Causes of failure, each with what it is about. -/
inductive Error
  | projectExists (name : String)
  | projectNotFound (name : String)
  | resourceExists (path : String)
  | resourceNotFound (path : String)
  | folderNotFound (path : String)
  | invalidPath (path : String)
  | unknownVariable (name : String)
  | archiveNotFound (path : String)
  | elementNotFound (element : String)
  | invalidPattern (pattern : String)
  | badSource (path message : String)
  | badManifest
  | unreadable
  deriving DecidableEq, Repr

/-- The message for people. -/
def Error.message : Error → String
  | .projectExists name => "Project already exists: " ++ name
  | .projectNotFound name => "Project not found: " ++ name
  | .resourceExists path => "Resource already exists: " ++ path
  | .resourceNotFound path => "Resource not found: " ++ path
  | .folderNotFound path => "Folder not found: " ++ path
  | .invalidPath path => "Invalid workspace path: " ++ path
  | .unknownVariable name => "Unknown classpath variable: " ++ name
  | .archiveNotFound path => "Archive not found: " ++ path
  | .elementNotFound element => "Java element not found: " ++ element
  | .invalidPattern pattern => "Invalid search pattern: " ++ pattern
  | .badSource path message => "Syntax error in " ++ path ++ ": " ++ message
  | .badManifest => "Invalid workspace manifest"
  | .unreadable => "IO error"

end SourceSearch
