import SourceSearch.Workspace

/-!
# What a project sees

The environment of a project lists where types can come from, in order: its own sources, then each
entry of its classpath. A required project brings its sources and those of the projects that it
exports, but none of its archives. The first provider that declares a type which the reader may see
decides a look-up.
-/

set_option autoImplicit false

namespace SourceSearch

/-- A place that types come from. -/
inductive Provider
  | sources (project : Project)
  | archive (archive : Archive)

namespace Provider

/-- The module of the provider. -/
def module : Provider → Option ModuleDescription
  | .sources project => project.module
  | .archive library => library.module

/-- The first type of the qualified name. -/
def lookup? : Provider → String → Option TypeKey
  | .sources project, name => project.lookup? name
  | .archive library, name => library.lookup? name

/-- Whether the provider has the package or one inside it. -/
def hasPackage : Provider → String → Bool
  | .sources project, package => project.hasPackage package
  | .archive library, package => library.hasPackage package

/-- Whether these are the sources of the project. -/
def isSourcesOf (name : String) : Provider → Bool
  | .sources project => project.name == name
  | .archive _ => false

/-- Whether this is the archive of that number. -/
def isArchive (id : ArchiveId) : Provider → Bool
  | .sources _ => false
  | .archive library => library.id == id

end Provider

/-- Whether the reader sees some package of the provider that is this one or lies inside it. -/
def Reader.seesPackage (reader : Reader) (provider : Option ModuleDescription)
    (package : String) : Bool :=
  match provider with
  | none => reader.moduleName?.isNone
  | some module =>
    reader.moduleName? == some module.name ||
      (reader.reads module.name && module.exports.any fun exported =>
        exported == package || (package ++ ".").toList.isPrefixOf exported.toList)

/-- The answer to a look-up of a type. -/
inductive NameAnswer
  | source (key : TypeKey)
  | binary (key : TypeKey)
  | notFound
  deriving DecidableEq, Repr

namespace NameAnswer

/-- The answer that a key amounts to. -/
def ofKey? : Option TypeKey → NameAnswer
  | none => .notFound
  | some key =>
    match key.origin with
    | .source _ => .source key
    | .archive _ => .binary key

/-- The key of the type that was found. -/
def key? : NameAnswer → Option TypeKey
  | .source key => some key
  | .binary key => some key
  | .notFound => none

/-- Whether a type was found. -/
def isFound (answer : NameAnswer) : Bool := answer.key?.isSome

end NameAnswer

/-- The view that a project has of the workspace. -/
structure Environment where
  workspace : Workspace
  project : Project
  providers : List Provider

namespace Environment

/-- Adds an archive to the providers unless it is among them. -/
def addArchive (archive : Archive) (providers : List Provider) : List Provider :=
  if providers.any (·.isArchive archive.id) then providers else providers ++ [.archive archive]

/-- Adds the sources of a project and what it brings along to the providers, unless its sources are
among them. The fuel bounds the chain of required projects. -/
def expand (ws : Workspace) : (fuel : Nat) → (isRoot : Bool) → Project → List Provider →
    List Provider
  | 0, _, _, providers => providers
  | fuel + 1, isRoot, project, providers =>
    if providers.any (·.isSourcesOf project.name) then providers
    else
      project.classpath.foldl (fun providers entry =>
        match entry with
        | .project name exported =>
          if isRoot || exported then
            match ws.project? name with
            | some required => expand ws fuel false required providers
            | none => providers
          else providers
        | library =>
          if isRoot then
            match ws.library? library with
            | some archive => addArchive archive providers
            | none => providers
          else providers)
        (providers ++ [.sources project])

/-- The environment of a project. -/
def ofProject (ws : Workspace) (project : Project) : Environment :=
  ⟨ws, project, expand ws (ws.projects.entries.length + 1) true project []⟩

/-- The project's own code as a reader. -/
def reader (env : Environment) : Reader := .ofModule env.project.module

/-- Whether the sources of the project are among the providers. -/
def seesProject (env : Environment) (name : String) : Bool :=
  env.providers.any (·.isSourcesOf name)

/-- Whether the archive is among the providers. -/
def seesArchive (env : Environment) (id : ArchiveId) : Bool := env.providers.any (·.isArchive id)

/-- The package of a type. -/
def packageOf (ws : Workspace) (key : TypeKey) : String :=
  match ws.declared? key with
  | some info => info.package
  | none => key.qualifier

/-- The type of the qualified name that a reader sees. -/
def lookupFor? (env : Environment) (reader : Reader) (qualifiedName : String) : Option TypeKey :=
  env.providers.findSome? fun provider =>
    (provider.lookup? qualifiedName).filter fun key =>
      reader.sees provider.module (packageOf env.workspace key)

/-- The type of the qualified name that the project's own code sees. -/
def lookup? (env : Environment) (qualifiedName : String) : Option TypeKey :=
  env.lookupFor? env.reader qualifiedName

/-- Whether a reader sees the package. -/
def hasPackageFor (env : Environment) (reader : Reader) (package : String) : Bool :=
  env.providers.any fun provider =>
    provider.hasPackage package && reader.seesPackage provider.module package

/-- Whether the project's own code sees the package. -/
def hasPackage (env : Environment) (package : String) : Bool :=
  env.hasPackageFor env.reader package

/-- A name in a package given by its segments. -/
def inPackage (package : List String) (name : String) : String :=
  if package.isEmpty then name else ".".intercalate package ++ "." ++ name

/-- The type of a qualified name given by its segments. -/
def findType (env : Environment) (reader : Reader) (segments : List String) : NameAnswer :=
  if segments.isEmpty then .notFound
  else .ofKey? (env.lookupFor? reader (".".intercalate segments))

/-- The type of a name in a package. -/
def findTypeInPackage (env : Environment) (reader : Reader) (name : String)
    (package : List String) : NameAnswer :=
  if name = "" then .notFound else .ofKey? (env.lookupFor? reader (inPackage package name))

/-- Whether a name in a package is a package. -/
def isPackage (env : Environment) (reader : Reader) (parent : List String) (name : String) : Bool :=
  name ≠ "" && env.hasPackageFor reader (inPackage parent name)

end Environment

/-- The environment of the project of that name. -/
def Workspace.environment? (ws : Workspace) (name : String) : Option Environment :=
  (ws.project? name).map (.ofProject ws)

end SourceSearch
