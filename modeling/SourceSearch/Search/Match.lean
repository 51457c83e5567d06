import SourceSearch.Identity
import SourceSearch.Text.Range

/-!
# Matches and how they are shown

A match is shown on one line: its resource, the project on demand, the element that it is in or is,
the matched text, and on demand how sure the match is.
-/

set_option autoImplicit false

namespace SourceSearch

/-- How sure a match is: bound to the target, or only named like it. -/
inductive Accuracy
  | exact | inaccurate
  deriving DecidableEq, Repr

/-- How an accuracy is shown. -/
def Accuracy.display : Accuracy → String
  | .exact => "EXACT_MATCH"
  | .inaccurate => "INACCURATE_MATCH"

/-- What kind of occurrence a match is. -/
inductive MatchKind
  | declaration | reference | implementor
  deriving DecidableEq, Repr

/-- An occurrence. The resource is a path below the project, or the path of an archive, in which
there are neither ranges nor text. -/
structure Match where
  project : String
  resource : String
  element : String
  range : Option TextRange
  source : Option String
  accuracy : Accuracy
  kind : MatchKind
  file : Option FileId
  deriving DecidableEq, Repr

/-- What is shown of each match. -/
structure MatchFormat where
  showProject : Bool
  showAccuracy : Bool
  deriving DecidableEq, Repr

namespace MatchFormat

/-- The line of a match. -/
def line (format : MatchFormat) (found : Match) : String :=
  found.resource ++
    (if format.showProject then " [in " ++ found.project ++ "]" else "") ++
    " " ++ found.element ++
    (match found.source with
      | some text => " [" ++ text ++ "]"
      | none => "") ++
    (if format.showAccuracy then " " ++ found.accuracy.display else "")

/-- The lines of several matches, with newlines between them. -/
def render (format : MatchFormat) (found : List Match) : String :=
  "\n".intercalate (found.map format.line)

end MatchFormat

end SourceSearch
