import SourceSearch.Search.Reference
import SourceSearch.Search.Scope

/-!
# The matches in a document

A source file is looked at import by import and type by type. Each named type has its head and its
own members, and each of these shows its matches under one label; what a body declares is shown
under the label of the member with the body. An archive has declarations and implementors only, and
neither ranges nor text.

Whether a match counts in the document is a matter of the types around it alone.
-/

set_option autoImplicit false

namespace SourceSearch

/-- An element that can be shown, with the occurrences in it. -/
structure Finding where
  label : String
  kind : MatchKind
  occurrence : Occurrence
  deriving DecidableEq, Repr

namespace Finding

/-- A declaration under its own name, if it is one of the target. -/
def declaration? (label : String) (name : TextRange) (isTarget : Bool) : Option Finding :=
  if isTarget then some ⟨label, .declaration, name, .exact⟩ else none

/-- References in an element. -/
def references (label : String) (found : List Occurrence) : List Finding :=
  found.map fun o => ⟨label, .reference, o⟩

end Finding

namespace Target

/-! ## Declarations -/

/-- The declarations in a type: itself, and its own methods and fields. -/
def declarations (target : Target) (info : DeclaredType) (decl : TypeDecl) : List Finding :=
  (Finding.declaration? info.qualifiedName decl.head.name.range (target.isType info.key)).toList ++
    decl.members.filterMap fun
      | .method head _ =>
        let m := DeclaredMethod.ofHead head
        Finding.declaration? (info.methodLabel m) head.name.range (target.isMethodOf info m)
      | .field head _ =>
        let f := DeclaredField.ofHead decl.head.kind head
        Finding.declaration? (info.fieldLabel f) head.name.range (target.isFieldOf info f)
      | .initializer _ _ _ => none
      | .type _ => none

/-! ## Supertypes -/

/-- The supertypes in the head of a type that are the target, bound where the type stands. -/
def inHead (target : Target) (s : BoundWorkspace) (scope : NameScope) (head : TypeHead) :
    List Occurrence :=
  (head.superclass.toList ++ head.interfaces).filterMap fun ref =>
    Occurrence.at? ref.range (target.typeAccuracy? (s.typeOfRef? scope ref) ref.segments)

/-- The target's implementors, each at the supertype that makes it one. -/
def implementors (target : Target) (s : BoundWorkspace) (outside : NameScope) (info : DeclaredType)
    (decl : TypeDecl) : List Finding :=
  (target.inHead s outside decl.head).map fun o => ⟨info.qualifiedName, .implementor, o⟩

/-! ## References -/

/-- The label of a member of a type, and the places in it; nested types stand for themselves. -/
def memberPlaces (s : BoundWorkspace) (inside : NameScope) (info : DeclaredType)
    (kind : TypeDeclKind) : Member → Option (String × List Place)
  | .method head body =>
    some (info.methodLabel (.ofHead head), s.memberPlaces inside .none (.method head body))
  | .field head init =>
    some (info.fieldLabel (.ofHead kind head), s.memberPlaces inside .none (.field head init))
  | .initializer isStatic body range =>
    some (info.qualifiedName ++ (if isStatic then ".static \x7b\x7d" else ".\x7b\x7d"),
      s.memberPlaces inside .none (.initializer isStatic body range))
  | .type _ => none

/-- The references in a type: in its head, bound where the type stands, and in its own members. -/
def references (target : Target) (s : BoundWorkspace) (outside inside : NameScope)
    (info : DeclaredType) (decl : TypeDecl) : List Finding :=
  let heads := (decl.head.superclass.toList ++ decl.head.interfaces).map Place.typeRef
  let members := decl.members.filterMap (memberPlaces s inside info decl.head.kind)
  Finding.references info.qualifiedName (heads.filterMap (target.at? s outside)) ++
    members.flatMap fun (label, places) =>
      Finding.references label (places.filterMap (target.at? s inside))

/-- The segments of an import that name a type, unless it imports a package or nothing of a type. -/
def importedType? (i : ImportDecl) : Option (List String) :=
  let segments := if i.isStatic then i.segments.dropLast else i.segments
  if i.onDemand || segments.isEmpty then none else some segments

/-- The reference that an import is. -/
def inImport? (target : Target) (scope : NameScope) (i : ImportDecl) : Option Finding := do
  let segments ← importedType? i
  let bound := scope.env.lookup? (".".intercalate segments)
  let accuracy ← target.typeAccuracy? bound segments
  return ⟨"import " ++ ".".intercalate i.segments, .reference, i.range, accuracy⟩

/-- The references in imports. -/
def inImports (target : Target) (scope : NameScope) : List Finding :=
  if target.kind = .type then scope.unit.imports.filterMap (target.inImport? scope) else []

/-! ## Source files -/

/-- What counts in a type itself, the types nested in it aside. -/
def inType (target : Target) (s : BoundWorkspace) (limitTo : LimitTo) (scope : NameScope)
    (info : DeclaredType) : List Finding :=
  match info.decl? scope.unit with
  | none => []
  | some decl =>
    let outside := scope.inside (info.outer.map fun name => ⟨info.key.origin, name⟩)
    let inside := scope.inside (some info.key)
    (if limitTo.includesDeclarations then target.declarations info decl else []) ++
      (if limitTo.includesReferences then target.references s outside inside info decl else []) ++
      if limitTo = .implementors then target.implementors s outside info decl else []

/-- A finding in a source file as a match of a document. -/
def sourceMatch (doc : Document) (file : SourceFile) (found : Finding) : Match where
  project := doc.project
  resource := doc.resource
  element := found.label
  range := some found.occurrence.range
  source := file.textAt? found.occurrence.range
  accuracy := found.occurrence.accuracy
  kind := found.kind
  file := some file.id

/-- What counts in a source file: imports, which no type is around, and then type by type. -/
def findings (target : Target) (s : BoundWorkspace) (limitTo : LimitTo) (coverage : Coverage)
    (file : SourceFile) : List Finding :=
  match s.scope? file none with
  | none => []
  | some scope =>
    (if limitTo.includesReferences && coverage.encloses [] then target.inImports scope else []) ++
      (file.types.filter fun info => coverage.encloses (s.enclosingChain (some info.key))).flatMap
        (target.inType s limitTo scope)

/-- The matches in a source file. -/
def inSource (target : Target) (s : BoundWorkspace) (limitTo : LimitTo) (doc : Document)
    (file : SourceFile) : List Match :=
  (target.findings s limitTo doc.coverage file).map (sourceMatch doc file)

/-! ## Archives -/

/-- The declarations of an archive's type that are the target. -/
def binaryDeclarations (target : Target) (info : DeclaredType) : List String :=
  match target.kind with
  | .type => if target.isType info.key then [info.qualifiedName] else []
  | .method => (info.methods.filter (target.isMethodOf info)).map info.methodLabel
  | .field => (info.fields.filter (target.isFieldOf info)).map info.fieldLabel

/-- Whether an archive's type writes a supertype that is the target. -/
def isBinaryImplementor (target : Target) (s : BoundWorkspace) (info : DeclaredType) : Bool :=
  (info.superclass.toList ++ info.interfaces).any fun ref =>
    (s.typeOfMemberRef? info.key ref).any target.isType

/-- The labels of what counts in a type of an archive, and its kind. -/
def inBinaryType (target : Target) (s : BoundWorkspace) (limitTo : LimitTo) (info : DeclaredType) :
    List (String × MatchKind) :=
  if limitTo = .implementors then
    if target.isBinaryImplementor s info then [(info.qualifiedName, .implementor)] else []
  else if limitTo.includesDeclarations then
    (target.binaryDeclarations info).map fun label => (label, .declaration)
  else []

/-- A match of an archive. -/
def binaryMatch (doc : Document) (label : String) (kind : MatchKind) : Match where
  project := doc.project
  resource := doc.resource
  element := label
  range := none
  source := none
  accuracy := .exact
  kind := kind
  file := none

/-- The matches in an archive, in the order of the names of types. -/
def inArchive (target : Target) (s : BoundWorkspace) (limitTo : LimitTo) (doc : Document)
    (archive : Archive) : List Match :=
  let types := archive.types.mergeSort fun a b => decide (a.qualifiedName ≤ b.qualifiedName)
  (types.filter fun info => doc.coverage.encloses (s.enclosingChain (some info.key))).flatMap
    fun info => (target.inBinaryType s limitTo info).map fun m => binaryMatch doc m.1 m.2

end Target

end SourceSearch
