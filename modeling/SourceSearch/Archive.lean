import SourceSearch.SourceFile
import SourceSearch.Module
import SourceSearch.Error

/-!
# Archives

An archive is a library that projects share. It is compiled from sources of which only the
declarations count. Every type that a declaration writes is replaced by its qualified name as far as
the archive itself declares it, which is what a compiled class would record.
-/

set_option autoImplicit false

namespace SourceSearch

/-- The package and its outer packages, the outermost first; blank parts of a name do not count. -/
def packagePath (package : String) : List String :=
  let segments := (Text.split '.' package).filter (· ≠ "")
  (List.range segments.length).map fun n => ".".intercalate (segments.take (n + 1))

/-- A registered library. -/
structure Archive where
  id : ArchiveId
  path : String
  module : Option ModuleDescription
  types : List DeclaredType

namespace Archive

/-- The first type of the qualified name. -/
def declared? (archive : Archive) (qualifiedName : String) : Option DeclaredType :=
  archive.types.find? (·.key.qualifiedName == qualifiedName)

/-- The key of the first type of the qualified name. -/
def lookup? (archive : Archive) (qualifiedName : String) : Option TypeKey :=
  (archive.declared? qualifiedName).map (·.key)

/-- Whether a type is declared in the package or in one inside it. -/
def hasPackage (archive : Archive) (package : String) : Bool :=
  archive.types.any fun info => (packagePath info.package).contains package

end Archive

namespace Qualification

/-- Where a written type stands: the imports of its unit, all names that the archive declares, the
type around it and the package of that type. -/
structure Site where
  imports : List ImportDecl
  declared : List String
  scope : String
  package : String

/-- The search for a member type of the types around the site, the innermost first. A type around
the site is found by its own name too. -/
def inOuterTypes? (site : Site) (name : String) : (fuel : Nat) → (current : String) → Option String
  | 0, _ => none
  | fuel + 1, current =>
    if current = site.package then none
    else
      let candidate := current ++ "." ++ name
      if site.declared.contains candidate then some candidate
      else if Text.lastSegment current = name then some current
      else if '.' ∈ current.toList then inOuterTypes? site name fuel (Text.qualifier current)
      else none

/-- The name that an import of a single type brings in. -/
def importedName? (site : Site) (name : String) : Option String :=
  (site.imports.find? fun i => !i.onDemand && !i.isStatic && i.segments.getLast? == some name).map
    fun i => ".".intercalate i.segments

/-- The declared name that an import of a whole package brings in. -/
def onDemandName? (site : Site) (name : String) : Option String :=
  (site.imports.filter fun i => i.onDemand && !i.isStatic).findSome? fun i =>
    let candidate := ".".intercalate i.segments ++ "." ++ name
    if site.declared.contains candidate then some candidate else none

/-- A candidate that the archive declares. -/
def ifDeclared (site : Site) (candidate : String) : Option String :=
  if site.declared.contains candidate then some candidate else none

/-- The qualified name that a simple name stands for. -/
def resolve? (site : Site) (name : String) : Option String :=
  inOuterTypes? site name (site.scope.length + 1) site.scope <|> importedName? site name <|>
    ifDeclared site (Text.qualify site.package name) <|> onDemandName? site name <|>
    ifDeclared site ("java.lang." ++ name)

/-- A written type with its first name qualified, if that name stands for anything. -/
def typeRef (site : Site) (ref : TypeRef) : TypeRef :=
  if ref.isPrimitive then ref
  else
    match ref.segments with
    | [] => ref
    | first :: rest =>
      match resolve? site first with
      | some qualified => { ref with segments := Text.split '.' qualified ++ rest }
      | none => ref

/-- A method with its written types qualified. -/
def method (site : Site) (m : DeclaredMethod) : DeclaredMethod :=
  { m with params := m.params.map (typeRef site), returnType := m.returnType.map (typeRef site) }

/-- A type with the written types of its declarations qualified. -/
def declaredType (imports : List ImportDecl) (declared : List String) (info : DeclaredType) :
    DeclaredType :=
  let site : Site := ⟨imports, declared, info.key.qualifiedName, info.package⟩
  { info with
    superclass := info.superclass.map (typeRef site)
    interfaces := info.interfaces.map (typeRef site)
    methods := info.methods.map (method site)
    fields := info.fields.map fun f => { f with type := typeRef site f.type } }

end Qualification

namespace Archive

/-- The archive of parsed units. -/
def ofUnits (id : ArchiveId) (path : String) (units : List CompilationUnit)
    (module : Option ModuleDescription) : Archive :=
  let collected := units.map fun unit => (unit.imports, collectTypes unit (.archive id))
  let declared := (collected.flatMap (·.2)).map (·.key.qualifiedName)
  ⟨id, path, module, collected.flatMap fun (imports, infos) =>
    infos.map (Qualification.declaredType imports declared)⟩

/-- The archive of named source texts, all of which have to parse. -/
def ofSources (id : ArchiveId) (path : String) (sources : List (String × String))
    (module : Option ModuleDescription) : Except Error Archive := do
  let units ← sources.mapM fun (name, text) =>
    match parse text with
    | .ok unit => .ok unit
    | .error e => .error (Error.badSource (path ++ "!/" ++ name) e.display)
  return ofUnits id path units module

end Archive

end SourceSearch
