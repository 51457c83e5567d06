import SourceSearch.Proofs.AlikeWorkspaces
import SourceSearch.Proofs.RenamedSearches

/-!
# Edit histories

How a workspace came about cannot be told from a search: where two sequences of edits lead to alike
workspaces, searches for corresponding elements in corresponding scopes find the same matches and
show the same text (`answer_eq_of_alike`). Projects correspond by their names, files and archives by
their paths, types by their places and qualified names, and members by their types and signatures.

Of two reachable workspaces that are alike, the second is the first under other numbers
(`Alike.renamedBy`), and what corresponds to an element is the renamed element (`eq_element`). Errors
can show the number of a file, so of searches that fail it is only said that both of them do.
-/

set_option autoImplicit false

namespace SourceSearch

/-! ## What is asked -/

/-- A scope that is asked for. -/
inductive ScopeRequest
  | elements (elements : List Element)
  | hierarchy (focus : TypeKey)
  | workspace
  deriving DecidableEq, Repr

/-- The scope that is asked for in a workspace. -/
def ScopeRequest.scope (ws : Workspace) : ScopeRequest → Except Error SearchScope
  | .elements listed => SearchScope.ofElements ws listed
  | .hierarchy focus => SearchScope.hierarchy (.ofWorkspace ws) focus
  | .workspace => .ok (.workspace ws)

/-- The matches of a pattern in the scope that is asked for. -/
def Workspace.answer (ws : Workspace) (pattern : SearchPattern) (request : ScopeRequest) :
    Except Error (List Match) := do
  (Searchable.ofWorkspace ws).search pattern (← request.scope ws)

/-- A match without the number of its file. -/
def Match.unnumbered (found : Match) : Match := { found with file := none }

namespace Workspace

variable (ws ws' : Workspace)

/-! ## What corresponds -/

/-- The file at the same place. -/
def SameFile (file file' : FileId) : Prop :=
  ∃ name path, ws.fileAt? name path = some file ∧ ws'.fileAt? name path = some file'

/-- The same file, or the archive of the same path. -/
inductive SameOrigin : Origin → Origin → Prop
  | source {file file' : FileId} (files : SameFile ws ws' file file') :
    SameOrigin (.source file) (.source file')
  | archive {path : String} {archive archive' : Archive} (first : ws.archiveAt? path = some archive)
    (second : ws'.archiveAt? path = some archive') :
    SameOrigin (.archive archive.id) (.archive archive'.id)

/-- The type of the same qualified name there. -/
structure SameType (key key' : TypeKey) : Prop where
  origin : SameOrigin ws ws' key.origin key'.origin
  qualifiedName : key'.qualifiedName = key.qualifiedName

/-- The method of the same name and parameters. -/
structure SameMethod (handle handle' : MethodHandle) : Prop where
  owner : SameType ws ws' handle.owner handle'.owner
  selector : handle'.selector = handle.selector
  params : handle'.params = handle.params

/-- The field of the same name. -/
structure SameField (handle handle' : FieldHandle) : Prop where
  owner : SameType ws ws' handle.owner handle'.owner
  name : handle'.name = handle.name

/-- The element of the same name, path or type. -/
inductive SameElement : Element → Element → Prop
  | project (name : String) : SameElement (.project name) (.project name)
  | unit {file file' : FileId} (files : SameFile ws ws' file file') :
    SameElement (.unit file) (.unit file')
  | type {key key' : TypeKey} (types : SameType ws ws' key key') :
    SameElement (.type key) (.type key')
  | method {handle handle' : MethodHandle} (methods : SameMethod ws ws' handle handle') :
    SameElement (.method handle) (.method handle')
  | field {handle handle' : FieldHandle} (fields : SameField ws ws' handle handle') :
    SameElement (.field handle) (.field handle')

/-- The element that corresponds, or the same name with wildcards. -/
inductive SameSubject : Subject → Subject → Prop
  | type {key key' : TypeKey} (types : SameType ws ws' key key') :
    SameSubject (.type key) (.type key')
  | method {handle handle' : MethodHandle} (methods : SameMethod ws ws' handle handle') :
    SameSubject (.method handle) (.method handle')
  | field {handle handle' : FieldHandle} (fields : SameField ws ws' handle handle') :
    SameSubject (.field handle) (.field handle')
  | name (kind : ElementKind) (qualifier : Option NamePattern) (name : NamePattern)
      (params : Option (List String)) :
    SameSubject (.name kind qualifier name params) (.name kind qualifier name params)

/-- The pattern for the same element or name with the same limit. -/
structure SamePattern (pattern pattern' : SearchPattern) : Prop where
  subject : SameSubject ws ws' pattern.subject pattern'.subject
  limitTo : pattern'.limitTo = pattern.limitTo

/-- The scope of the elements that correspond, one by one, of the same hierarchy, or of the
workspace. -/
inductive SameRequest : ScopeRequest → ScopeRequest → Prop
  | elements {elements elements' : List Element}
      (each : List.Forall₂ (SameElement ws ws') elements elements') :
    SameRequest (.elements elements) (.elements elements')
  | hierarchy {focus focus' : TypeKey} (types : SameType ws ws' focus focus') :
    SameRequest (.hierarchy focus) (.hierarchy focus')
  | workspace : SameRequest .workspace .workspace

variable {ws ws'}

/-! ## What corresponds is renamed -/

section Renamed

variable {r : Renaming} (h : ws.RenamedBy r ws')
  (hfile : ∀ {file file'}, SameFile ws ws' file file' → file' = r.file file)

include h hfile

theorem SameOrigin.eq_origin {origin origin' : Origin} (hsame : SameOrigin ws ws' origin origin') :
    origin' = r.origin origin := by
  cases hsame with
  | source files => exact congrArg Origin.source (hfile files)
  | archive first second =>
    rw [h.archiveAt?, first] at second
    obtain rfl := Option.some.inj second
    rfl

theorem SameType.eq_key {key key' : TypeKey} (hsame : SameType ws ws' key key') :
    key' = r.key key := by
  cases key'
  exact congrArg₂ TypeKey.mk (hsame.origin.eq_origin h hfile) hsame.qualifiedName

theorem SameMethod.eq_method {handle handle' : MethodHandle}
    (hsame : SameMethod ws ws' handle handle') : handle' = r.method handle := by
  cases handle'
  exact MethodHandle.mk.injEq .. ▸ ⟨hsame.owner.eq_key h hfile, hsame.selector, hsame.params⟩

theorem SameField.eq_field {handle handle' : FieldHandle}
    (hsame : SameField ws ws' handle handle') : handle' = r.field handle := by
  cases handle'
  exact congrArg₂ FieldHandle.mk (hsame.owner.eq_key h hfile) hsame.name

theorem SameElement.eq_element {element element' : Element}
    (hsame : SameElement ws ws' element element') : element' = r.element element := by
  cases hsame with
  | project name => rfl
  | unit files => exact congrArg Element.unit (hfile files)
  | type types => exact congrArg Element.type (types.eq_key h hfile)
  | method methods => exact congrArg Element.method (methods.eq_method h hfile)
  | field fields => exact congrArg Element.field (fields.eq_field h hfile)

theorem SameElement.eq_map {elements elements' : List Element}
    (hsame : List.Forall₂ (SameElement ws ws') elements elements') :
    elements' = elements.map r.element := by
  induction hsame with
  | nil => rfl
  | cons hfirst _ ih => rw [List.map_cons, hfirst.eq_element h hfile, ← ih]

theorem SameSubject.eq_subject {subject subject' : Subject}
    (hsame : SameSubject ws ws' subject subject') : subject' = r.subject subject := by
  cases hsame with
  | type types => exact congrArg Subject.type (types.eq_key h hfile)
  | method methods => exact congrArg Subject.method (methods.eq_method h hfile)
  | field fields => exact congrArg Subject.field (fields.eq_field h hfile)
  | name kind qualifier name params => rfl

theorem SamePattern.eq_pattern {pattern pattern' : SearchPattern}
    (hsame : SamePattern ws ws' pattern pattern') : pattern' = r.pattern pattern := by
  cases pattern'
  exact congrArg₂ SearchPattern.mk (hsame.subject.eq_subject h hfile) hsame.limitTo

/-- The scopes that are asked for correspond. -/
theorem SameRequest.toOption_scope {request request' : ScopeRequest}
    (hsame : SameRequest ws ws' request request') :
    (request'.scope ws').toOption = (request.scope ws).toOption.map r.scope := by
  cases hsame with
  | elements each =>
    rw [SameElement.eq_map h hfile each]
    exact h.toOption_ofElements _
  | hierarchy types =>
    rw [types.eq_key h hfile]
    exact h.ofWorkspace.toOption_hierarchy _
  | workspace => exact congrArg some h.workspace

/-- **The answers** are the same but for the numbers of files. -/
theorem RenamedBy.toOption_answer (hws : ws.FilesInStep) (hws' : ws'.FilesInStep)
    {pattern pattern' : SearchPattern} (hpattern : SamePattern ws ws' pattern pattern')
    {request request' : ScopeRequest} (hrequest : SameRequest ws ws' request request') :
    (ws'.answer pattern' request').toOption =
      (ws.answer pattern request).toOption.map (List.map r.found) := by
  apply toOption_bind_of_map (hrequest.toOption_scope h hfile)
  intro scope
  rw [hpattern.eq_pattern h hfile]
  exact h.search hws hws' pattern scope

end Renamed

/-- **Edit histories do not matter.** If two sequences of edits lead to alike workspaces, searches
for corresponding patterns in corresponding scopes both fail, or both succeed with the same matches
in the same order, except for the numbers of files, and so with the same text in every format. -/
theorem answer_eq_of_alike (edits edits' : List Edit)
    (h : (initial.afterAll edits).Alike (initial.afterAll edits'))
    {pattern pattern' : SearchPattern}
    (hpattern : SamePattern (initial.afterAll edits) (initial.afterAll edits') pattern pattern')
    {request request' : ScopeRequest}
    (hrequest : SameRequest (initial.afterAll edits) (initial.afterAll edits') request request') :
    let found := ((initial.afterAll edits).answer pattern request).toOption
    let found' := ((initial.afterAll edits').answer pattern' request').toOption
    found'.map (List.map Match.unnumbered) = found.map (List.map Match.unnumbered) ∧
    ∀ format : MatchFormat, found'.map format.render = found.map format.render := by
  intro found found'
  have hws := inStep_afterAll edits
  have hws' := inStep_afterAll edits'
  have harchives := h.archives_eq hws.archives hws'.archives (archivesNumbered_afterAll edits)
    (archivesNumbered_afterAll edits')
  have hrenamed := h.renamedBy hws.files hws'.files hws.archives harchives
  have hfile : ∀ {file file'},
      SameFile (initial.afterAll edits) (initial.afterAll edits') file file' →
      file' = (renamingTo _ _ hws.files hws'.files).file file := by
    rintro file file' ⟨name, path, hf, hf'⟩
    exact (numberIn_of_fileAt? hws.files hf hf').symm
  have hfound : found' = found.map (List.map (Renaming.found _)) :=
    hrenamed.toOption_answer hfile hws.files hws'.files hpattern hrequest
  constructor
  · rw [hfound, Option.map_map]
    congr 1
    funext found
    rw [Function.comp, List.map_map]
    rfl
  · intro format
    rw [hfound, Option.map_map]
    congr 1
    funext found
    rw [Function.comp, MatchFormat.render, List.map_map]
    rfl

/-- A class that extends another one. -/
def extendingText : String := "class B extends A \x7b A a; \x7d"

/-- A project with two classes. -/
def madeOnce : List Edit :=
  [.createProject ⟨"P", [""], [], none⟩, .createFile "/P/A.java" "class A \x7b\x7d",
    .createFile "/P/B.java" extendingText]

/-- The same project, made in another order after one that is gone. -/
def madeAgain : List Edit :=
  [.createProject ⟨"Q", [""], [], none⟩, .createFile "/Q/A.java" "class A \x7b\x7d",
    .deleteProject "Q", .createProject ⟨"P", [""], [], none⟩,
    .createFile "/P/B.java" extendingText, .createFile "/P/A.java" "class A \x7b \x7d",
    .setFile "/P/A.java" "class A \x7b\x7d"]

/-- The files have other numbers, which no search shows. -/
theorem answer_madeAgain_eq :
    let ws := initial.afterAll madeOnce
    let ws' := initial.afterAll madeAgain
    let pattern := fun file => SearchPattern.mk (.type ⟨.source file, "A"⟩) .references
    let request := fun file => ScopeRequest.elements [.project "P", .unit file]
    let found := (ws.answer (pattern ⟨0⟩) (request ⟨1⟩)).toOption
    let found' := (ws'.answer (pattern ⟨2⟩) (request ⟨1⟩)).toOption
    ws.Alike ws' ∧ SamePattern ws ws' (pattern ⟨0⟩) (pattern ⟨2⟩) ∧
      SameRequest ws ws' (request ⟨1⟩) (request ⟨1⟩) ∧ found.isSome = true ∧
      found'.map (List.map Match.unnumbered) = found.map (List.map Match.unnumbered) ∧
      ∀ format : MatchFormat, found'.map format.render = found.map format.render := by
  intro ws ws' pattern request found found'
  have halike : ws.Alike ws' := ⟨by decide +kernel, rfl, fun _ => rfl⟩
  have hfile : SameFile ws ws' ⟨0⟩ ⟨2⟩ := ⟨"P", "A.java", by decide +kernel, by decide +kernel⟩
  have hunit : SameFile ws ws' ⟨1⟩ ⟨1⟩ := ⟨"P", "B.java", by decide +kernel, by decide +kernel⟩
  have hpattern : SamePattern ws ws' (pattern ⟨0⟩) (pattern ⟨2⟩) :=
    ⟨.type ⟨.source hfile, rfl⟩, rfl⟩
  have hrequest : SameRequest ws ws' (request ⟨1⟩) (request ⟨1⟩) :=
    .elements (.cons (.project "P") (.cons (.unit hunit) .nil))
  have hfound : found.isSome = true := by decide +kernel
  exact ⟨halike, hpattern, hrequest, hfound,
    answer_eq_of_alike madeOnce madeAgain halike hpattern hrequest⟩

end Workspace

end SourceSearch
