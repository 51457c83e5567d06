import SourceSearch.Parser.Declarations
import SourceSearch.Declared

/-!
# Source files

A source file is parsed once. A file that does not parse keeps its text and its error, declares no
types and has no place where anything could be found.
-/

set_option autoImplicit false

namespace SourceSearch

/-- A source file of a project, at a path below the project's root. -/
structure SourceFile where
  id : FileId
  project : String
  path : String
  text : String
  parsed : Except ParseError CompilationUnit
  types : List DeclaredType

namespace SourceFile

/-- Parses the text. -/
def ofText (id : FileId) (project path text : String) : SourceFile :=
  let parsed := parse text
  let types :=
    match parsed with
    | .ok unit => collectTypes unit (.source id)
    | .error _ => []
  ⟨id, project, path, text, parsed, types⟩

/-- The tree, unless the text does not parse. -/
def unit? (file : SourceFile) : Option CompilationUnit :=
  match file.parsed with
  | .ok unit => some unit
  | .error _ => none

/-- Why the text does not parse. -/
def syntaxError? (file : SourceFile) : Option ParseError :=
  match file.parsed with
  | .ok _ => none
  | .error e => some e

/-- Where the text does not parse. -/
def syntaxErrorAt? (file : SourceFile) : Option LineCol :=
  file.syntaxError?.map fun e => (LineStarts.ofText file.text).lineCol e.offset

/-- The first declaration of the qualified name. -/
def declared? (file : SourceFile) (qualifiedName : String) : Option DeclaredType :=
  file.types.find? (·.key.qualifiedName == qualifiedName)

/-- The first type of the simple name, outer types before their members. -/
def typeNamed? (file : SourceFile) (simpleName : String) : Option DeclaredType :=
  file.types.find? (·.simpleName == simpleName)

/-- The package, empty for the default package and for a text that does not parse. -/
def package (file : SourceFile) : String :=
  match file.unit? with
  | some unit => ".".intercalate unit.packageSegments
  | none => ""

/-- The path of the file in the workspace. -/
def workspacePath (file : SourceFile) : String := "/" ++ file.project ++ "/" ++ file.path

/-- The text in a range. -/
def textAt? (file : SourceFile) (range : TextRange) : Option String := slice file.text range

/-- The last type whose declaration encloses the range, which is the innermost one. -/
def enclosingType? (file : SourceFile) (range : TextRange) : Option TypeKey :=
  file.unit?.bind fun unit =>
    (file.types.filter fun info =>
      (info.decl? unit).any (·.head.range.encloses range)).getLast?.map (·.key)

end SourceFile

end SourceSearch
