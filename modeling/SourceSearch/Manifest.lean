import SourceSearch.Classpath
import SourceSearch.Json.Printer
import SourceSearch.Json.Reader
import SourceSearch.Store.Register

/-!
# Workspace manifests

A manifest names the archives of a workspace with the folders of their sources, the variables of
classpaths, and the projects. It is written as JSON.

Each part is an object whose members may stand in any order, or an array of them in the fixed order,
from the end of which members with a default can be left out. Members of other names are ignored. A
member that occurs twice is an error, but for variables, where the last value wins and keeps the
first place.
-/

set_option autoImplicit false

namespace SourceSearch

/-- An archive and the folder of its sources. -/
structure ArchiveManifest where
  path : String
  sources : String
  module : Option ModuleDescription
  deriving DecidableEq, Repr

/-- A project as a manifest gives it. -/
structure ProjectManifest where
  name : String
  sourceFolders : List String
  classpath : List ClasspathEntry
  module : Option ModuleDescription
  deriving DecidableEq, Repr

/-- The configuration of a project. -/
def ProjectManifest.config (project : ProjectManifest) : ProjectConfig :=
  .ofFolders project.name project.sourceFolders project.classpath project.module

/-- What a workspace is made of. -/
structure Manifest where
  archives : List ArchiveManifest
  vars : Register String
  projects : List ProjectManifest
  deriving DecidableEq, Repr

namespace Manifest

/-- The name of the file in which a manifest stands. -/
def fileName : String := "workspace.json"

/-! ## Reading -/

/-- The values of the members of that name. -/
def occurrences (members : List (Option String × Json)) (name : String) : List Json :=
  (members.filter fun m => m.1 == some name).map (·.2)

/-- The named members of an object, each at most once. -/
def membersOf? (names : List String) (members : List (Option String × Json)) :
    Option (List (Option Json)) :=
  if members.all (·.1.isSome) then
    names.mapM fun name =>
      match occurrences members name with
      | [] => some none
      | [value] => some (some value)
      | _ => none
  else none

/-- The members that an array gives in order. -/
def itemsOf? (names : List String) (items : List Json) : Option (List (Option Json)) :=
  if items.length ≤ names.length then
    some (items.map some ++ List.replicate (names.length - items.length) none)
  else none

/-- The named members of an object or an array. -/
def fields? (names : List String) : Json → Option (List (Option Json))
  | .object members => membersOf? names members
  | .array items => itemsOf? names items
  | _ => none

/-- A text. -/
def text? : Json → Option String
  | .string text => text
  | _ => none

/-- A truth value. -/
def bool? : Json → Option Bool
  | .bool b => some b
  | _ => none

/-- A list whose items are read by `item`. -/
def list? {α : Type} (item : Json → Option α) : Json → Option (List α)
  | .array items => items.mapM item
  | _ => none

/-- A member that has a default. -/
def withDefault? {α : Type} (default : α) (read : Json → Option α) : Option Json → Option α
  | none => some default
  | some value => read value

/-- A value that may be null. -/
def nullable? {α : Type} (read : Json → Option α) : Json → Option (Option α)
  | .null => some none
  | value => (read value).map some

/-- A module. -/
def module? (value : Json) : Option ModuleDescription := do
  match ← fields? ["name", "requires", "exports"] value with
  | [name, requires, exports] =>
    return ⟨← text? (← name), ← withDefault? [] (list? text?) requires,
      ← withDefault? [] (list? text?) exports⟩
  | _ => none

/-- The fields of an entry of the kind. -/
def entryOfKind? (kind : String) (fields : List String → Option (List (Option Json))) :
    Option ClasspathEntry := do
  if kind = "library" then
    match ← fields ["path"] with
    | [path] => return .library (← text? (← path))
    | _ => none
  else if kind = "variable" then
    match ← fields ["name"] with
    | [name] => return .variable (← text? (← name))
    | _ => none
  else if kind = "project" then
    match ← fields ["name", "exported"] with
    | [name, exported] =>
      return .project (← text? (← name)) (← withDefault? false bool? exported)
    | _ => none
  else none

/-- How deep the ignored members of an entry may nest. -/
def entryDepth : Nat := 122

/-- An entry of a classpath, told by its member `kind`, or by its first item. An entry is looked at
as a whole, so even a member that it ignores has to be plain. -/
def entry? : Json → Option ClasspathEntry
  | .object members =>
    match occurrences members "kind" with
    | [kind] => do
      let others := members.filter fun m => m.1 != some "kind"
      if Json.membersArePlain entryDepth others then
        entryOfKind? (← text? kind) (membersOf? · others)
      else none
    | _ => none
  | .array (kind :: items) => do
    if Json.arePlain entryDepth items then entryOfKind? (← text? kind) (itemsOf? · items)
    else none
  | _ => none

/-- An archive. -/
def archive? (value : Json) : Option ArchiveManifest := do
  match ← fields? ["path", "sources", "module"] value with
  | [path, sources, module] =>
    return ⟨← text? (← path), ← text? (← sources), ← withDefault? none (nullable? module?) module⟩
  | _ => none

/-- A project. -/
def project? (value : Json) : Option ProjectManifest := do
  match ← fields? ["name", "source_folders", "classpath", "module"] value with
  | [name, folders, classpath, module] =>
    return ⟨← text? (← name), ← withDefault? [""] (list? text?) folders,
      ← withDefault? [] (list? entry?) classpath, ← withDefault? none (nullable? module?) module⟩
  | _ => none

/-- The variables of an object. -/
def vars? : Json → Option (Register String)
  | .object members => do
    let pairs ← members.mapM fun m => do return (← m.1, ← text? m.2)
    return pairs.foldl (fun vars m => vars.insert m.1 m.2) .empty
  | _ => none

/-- The manifest that a value stands for. -/
def ofJson? (value : Json) : Option Manifest := do
  match ← fields? ["archives", "variables", "projects"] value with
  | [archives, vars, projects] =>
    return ⟨← withDefault? [] (list? archive?) archives, ← withDefault? .empty vars? vars,
      ← withDefault? [] (list? project?) projects⟩
  | _ => none

/-- The manifest of a text. -/
def read? (text : String) : Option Manifest := (Json.read? text).bind ofJson?

/-! ## Writing -/

/-- The member of a module, left out when there is none. -/
def moduleMember : Option ModuleDescription → List (String × Json)
  | none => []
  | some module =>
    [("module", .ofMembers [("name", .ofText module.name), ("requires", .ofTexts module.requires),
      ("exports", .ofTexts module.exports)])]

/-- An archive as a value. -/
def archiveJson (archive : ArchiveManifest) : Json :=
  .ofMembers ([("path", .ofText archive.path), ("sources", .ofText archive.sources)] ++
    moduleMember archive.module)

/-- An entry as a value. -/
def entryJson : ClasspathEntry → Json
  | .library path => .ofMembers [("kind", .ofText "library"), ("path", .ofText path)]
  | .variable name => .ofMembers [("kind", .ofText "variable"), ("name", .ofText name)]
  | .project name exported =>
    .ofMembers [("kind", .ofText "project"), ("name", .ofText name), ("exported", .bool exported)]

/-- A project as a value. -/
def projectJson (project : ProjectManifest) : Json :=
  .ofMembers ([("name", .ofText project.name), ("source_folders", .ofTexts project.sourceFolders),
    ("classpath", .array (project.classpath.map entryJson))] ++ moduleMember project.module)

/-- A manifest as a value. -/
def toJson (manifest : Manifest) : Json :=
  .ofMembers [
    ("archives", .array (manifest.archives.map archiveJson)),
    ("variables", .ofMembers (manifest.vars.entries.map fun v => (v.1, .ofText v.2))),
    ("projects", .array (manifest.projects.map projectJson))]

/-- The text of a manifest. -/
def write (manifest : Manifest) : String := manifest.toJson.print

end Manifest

end SourceSearch
