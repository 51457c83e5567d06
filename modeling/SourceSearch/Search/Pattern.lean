import SourceSearch.Error
import SourceSearch.Signature
import SourceSearch.Search.Glob
import SourceSearch.Text.Identifier
import SourceSearch.Text.Lowercase
import SourceSearch.Text.Quoted

/-!
# What to search for

A pattern names an element, or gives a name with wildcards that elements may have. It also says
which occurrences count.
-/

set_option autoImplicit false

namespace SourceSearch

/-- The occurrences that count. An implementor is a type that names the target in its head. -/
inductive LimitTo
  | declarations | references | allOccurrences | implementors
  deriving DecidableEq, Repr

namespace LimitTo

/-- Whether declarations count. -/
def includesDeclarations : LimitTo → Bool
  | .declarations | .allOccurrences => true
  | .references | .implementors => false

/-- Whether references count. -/
def includesReferences : LimitTo → Bool
  | .references | .allOccurrences => true
  | .declarations | .implementors => false

end LimitTo

/-- The kind of element that a name is looked for among. -/
inductive ElementKind
  | type | method | field
  deriving DecidableEq, Repr

/-- A name with wildcards. -/
structure NamePattern where
  text : String
  caseSensitive : Bool
  deriving DecidableEq, Repr

namespace NamePattern

/-- Whether the name has a wildcard. -/
def hasWildcards (pattern : NamePattern) : Bool :=
  pattern.text.toList.any fun c => c == '*' || c == '?'

/-- The only name that matches, if there is only one. -/
def exactWord? (pattern : NamePattern) : Option String :=
  if pattern.caseSensitive && !pattern.hasWildcards then some pattern.text else none

/-- The bytes of a text, in lower case where case does not matter. -/
def bytes (pattern : NamePattern) (text : String) : List UInt8 :=
  let folded :=
    if pattern.caseSensitive then text else String.ofList (Lowercase.ofList text.toList)
  folded.toList.flatMap String.utf8EncodeChar

/-- Whether a name matches. -/
def matches? (pattern : NamePattern) (name : String) : Bool :=
  Glob.isMatch (pattern.bytes pattern.text) (pattern.bytes name)

end NamePattern

/-- What a search looks for. Parameters of a named method are erased types. -/
inductive Subject
  | type (key : TypeKey)
  | method (handle : MethodHandle)
  | field (handle : FieldHandle)
  | name (kind : ElementKind) (qualifier : Option NamePattern) (name : NamePattern)
      (params : Option (List String))
  deriving DecidableEq, Repr

/-- What to search for, and which occurrences of it. -/
structure SearchPattern where
  subject : Subject
  limitTo : LimitTo
  deriving DecidableEq, Repr

namespace Element

/-- The text that an error shows for an element without a pattern. -/
def describe : Element → String
  | .project name => "Project(" ++ Quoted.encode name ++ ")"
  | .unit file => "CompilationUnit(" ++ file.describe ++ ")"
  | .type key => "Type(" ++ key.describe ++ ")"
  | .method handle => "Method(" ++ handle.describe ++ ")"
  | .field handle => "Field(" ++ handle.describe ++ ")"

end Element

namespace SearchPattern

/-- The pattern of an element, which has to be a type, a method or a field. -/
def ofElement (element : Element) (limitTo : LimitTo) : Except Error SearchPattern :=
  match element with
  | .type key => .ok ⟨.type key, limitTo⟩
  | .method handle => .ok ⟨.method handle, limitTo⟩
  | .field handle => .ok ⟨.field handle, limitTo⟩
  | .project _ | .unit _ =>
    .error (.invalidPattern (element.describe ++ " is not a searchable element"))

/-- A wildcard. -/
def isWildcard (c : Char) : Bool := c == '*' || c == '?'

/-- Whether a part of a dotted name is an identifier with wildcards. -/
def isSegment : List Char → Bool
  | [] => false
  | c :: cs =>
    (isIdentStart c || isWildcard c) && cs.all fun c => isIdentContinue c || isWildcard c

/-- Erased parameters from the text between parentheses; none of them may be blank unless all of
the text is. -/
def readParams? (inner : List Char) : Option (List String) :=
  if (trimBlank inner).isEmpty then some []
  else
    let params := (Text.splitAtChar ',' inner).map trimBlank
    if params.any (·.isEmpty) then none
    else some (params.map fun p => Signature.erase (String.ofList p))

/-- The dotted name and the parameters of a pattern. Only methods have parameters, and their list
starts at the first parenthesis and ends with the text. -/
def readCall? (kind : ElementKind) (cs : List Char) : Option (List Char × Option (List String)) :=
  if kind = .method ∧ '(' ∈ cs then do
    let inner ← Text.dropEnding? [')'] ((cs.dropWhile (· != '(')).drop 1)
    let params ← readParams? inner
    return (cs.takeWhile (· != '('), some params)
  else some (cs, none)

/-- Reads `Object`, `java.lang.Obj*`, `p.X.foo(Object, int)` or `X.f`. -/
def ofString (text : String) (kind : ElementKind) (limitTo : LimitTo) (caseSensitive : Bool) :
    Except Error SearchPattern :=
  let cs := trimBlank text.toList
  let invalid := Error.invalidPattern (String.ofList cs)
  match readCall? kind cs with
  | none => .error invalid
  | some (path, params) =>
    if (Text.splitAtChar '.' path).all isSegment then
      let name := String.ofList (Text.afterLast (· == '.') path)
      let qualifier :=
        if '.' ∈ path then some (String.ofList (Text.beforeLast (· == '.') path)) else none
      .ok ⟨.name kind (qualifier.map (⟨·, caseSensitive⟩)) ⟨name, caseSensitive⟩ params,
        limitTo⟩
    else .error invalid

end SearchPattern

end SourceSearch
