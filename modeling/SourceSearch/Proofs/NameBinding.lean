import Mathlib.Data.Option.Basic
import SourceSearch.Binding.Expressions
import SourceSearch.Proofs.Visibility

/-!
# Names bind to types of the name

A name is bound to a type around its place, to a member type, or by a look-up in the environment of
its project, and whichever way it is, the type is found for the end of the name
(`FoundFor.of_typeOfName?`). So the simple name of the type is the last segment of the name
(`FoundFor.simpleName_eq`), for a written type as for any other (`simpleName_of_typeOfRef?`). The
same goes for names that stand for a type in an expression, and a field that a name binds to has
that name.
-/

set_option autoImplicit false

namespace SourceSearch

variable {ws : Workspace} {s : BoundWorkspace}

/-- `s` binds names in the workspace by means of the environments of its projects. -/
structure BoundWorkspace.IsOver (ws : Workspace) (s : BoundWorkspace) : Prop where
  workspace : s.workspace = ws
  environments : s.environments = BoundWorkspace.environmentsOf ws

theorem BoundWorkspace.isOver_ofWorkspace (ws : Workspace) :
    (BoundWorkspace.ofWorkspace ws).IsOver ws := ⟨rfl, rfl⟩

theorem BoundWorkspace.isOver_withTable (ws : Workspace) (chainLimit : Nat)
    (table : SupertypeTable) :
    (BoundWorkspace.withTable ws (environmentsOf ws) chainLimit table).IsOver ws := ⟨rfl, rfl⟩

theorem BoundWorkspace.chainLimit_pos (ws : Workspace) : 0 < (ofWorkspace ws).chainLimit :=
  Nat.succ_pos _

/-- A place has the environment of the project of its file. -/
def NameScope.HasEnvOf (ws : Workspace) (scope : NameScope) : Prop :=
  ∃ project, ws.project? scope.file.project = some project ∧ scope.env = .ofProject ws project

/-- A place has the environment of the project of its file, and its unit is written in words. -/
structure NameScope.IsIn (ws : Workspace) (scope : NameScope) : Prop where
  env : ∃ project, ws.project? scope.file.project = some project ∧
    scope.env = .ofProject ws project
  unit : scope.unit.WrittenIn IsWord

theorem NameScope.IsIn.inside {scope : NameScope} (h : scope.IsIn ws)
    (enclosing : Option TypeKey) : (scope.inside enclosing).IsIn ws := ⟨h.env, h.unit⟩

/-- What a place in a file is. -/
theorem BoundWorkspace.IsOver.of_scope? (hover : s.IsOver ws) {file : SourceFile}
    {enclosing : Option TypeKey} {scope : NameScope}
    (hscope : s.scope? file enclosing = some scope) :
    file.unit? = some scope.unit ∧ scope.file = file ∧ scope.enclosing = enclosing ∧
      ∃ project, ws.project? file.project = some project ∧ scope.env = .ofProject ws project := by
  obtain ⟨unit, hunit, hscope⟩ := Option.bind_eq_some_iff.1 hscope
  obtain ⟨env, henv, hscope⟩ := Option.bind_eq_some_iff.1 hscope
  cases hscope
  rw [hover.environments, BoundWorkspace.get?_environmentsOf] at henv
  obtain ⟨project, hproject, rfl⟩ := Option.map_eq_some_iff.1 henv
  exact ⟨hunit, rfl, rfl, project, hproject, rfl⟩

/-- A file that parses has a place at its top, with the environment of its project. -/
theorem BoundWorkspace.IsOver.exists_scope? (hover : s.IsOver ws) (h : ws.FilesInStep) {id : FileId}
    {file : SourceFile} (hfile : ws.source? id = some file) {unit : CompilationUnit}
    (hunit : file.unit? = some unit) :
    ∃ env, s.scope? file none = some ⟨file, unit, env, none⟩ := by
  obtain ⟨project, hproject⟩ := h.exists_project hfile
  refine ⟨.ofProject ws project, ?_⟩
  rw [BoundWorkspace.scope?, hunit, hover.environments, BoundWorkspace.get?_environmentsOf,
    hproject]
  rfl

/-- A place in a parsed file. -/
theorem BoundWorkspace.IsOver.isIn_of_scope? (hover : s.IsOver ws) (h : ws.InStep) {id : FileId}
    {file : SourceFile} (hfile : ws.source? id = some file) {enclosing : Option TypeKey}
    {scope : NameScope} (hscope : s.scope? file enclosing = some scope) : scope.IsIn ws := by
  obtain ⟨hunit, rfl, -, henv⟩ := hover.of_scope? hscope
  exact ⟨henv, (h.files.unit_written hfile hunit).imp fun _ => isWord_of_mem_wordsOfText⟩

/-- **A look-up at a place** answers with a type of the name, declared where the project sees it. -/
theorem NameScope.HasEnvOf.of_lookup? {scope : NameScope} (hscope : scope.HasEnvOf ws)
    (h : ws.InStep) {qualifiedName : String} {key : TypeKey}
    (hkey : scope.env.lookup? qualifiedName = some key) :
    key.qualifiedName = qualifiedName ∧ ws.SeesOrigin scope.file.project key.origin := by
  obtain ⟨project, hproject, henv⟩ := hscope
  have hname := (h.files.project_name hproject).1
  rw [henv] at hkey
  rw [← hname] at hproject ⊢
  exact Environment.of_lookupFor? h hproject hkey

namespace NameScope.IsIn

variable {scope : NameScope}

theorem of_lookup? (hscope : scope.IsIn ws) (h : ws.InStep) {qualifiedName : String} {key : TypeKey}
    (hkey : scope.env.lookup? qualifiedName = some key) :
    key.qualifiedName = qualifiedName ∧ ws.SeesOrigin scope.file.project key.origin :=
  HasEnvOf.of_lookup? hscope.env h hkey

/-- The imports of a place have no dots in their segments. -/
theorem no_dot_import (hscope : scope.IsIn ws) {i : ImportDecl} (hi : i ∈ scope.unit.imports) :
    ∀ segment ∈ i.segments, '.' ∉ segment.toList :=
  fun segment hmem => (hscope.unit.imports i hi segment hmem).no_dot

end NameScope.IsIn

namespace BoundWorkspace

variable {scope : NameScope} {name : String} {key : TypeKey}

/-! ## How types are found -/

/-- How a type is found for a name at a place: it is one of the types around the place, it is a
member of a type that is found, or it is looked up under a dotted name that ends as this one. -/
inductive FoundFor (s : BoundWorkspace) (scope : NameScope) : String → TypeKey → Prop
  | around {key : TypeKey} (hkey : key ∈ s.enclosingChain scope.enclosing) :
      FoundFor s scope key.simpleName key
  | member {first name : String} {owner key : TypeKey} (howner : FoundFor s scope first owner)
      (hkey : s.memberType? owner name = some key) : FoundFor s scope name key
  | lookup {dotted name : String} {key : TypeKey} (hkey : scope.env.lookup? dotted = some key)
      (hend : Text.lastSegment dotted = Text.lastSegment name) : FoundFor s scope name key

/-- Imports, the package and `java.lang` are look-ups. -/
theorem FoundFor.of_topLevelType? (hkey : scope.topLevelType? name = some key) :
    s.FoundFor scope name key := by
  unfold NameScope.topLevelType? at hkey
  split at hkey
  next i himport =>
    have hlast : i.segments.getLast? = some name := by
      have himports := List.find?_some himport
      simp only [Bool.and_eq_true, beq_iff_eq] at himports
      exact himports.2
    exact .lookup hkey (by rw [Text.lastSegment_joined, hlast, Option.getD_some])
  next =>
    rcases (Option.orElse_eq_some _ _ _).1 hkey with hkey | ⟨-, hkey⟩
    · exact .lookup hkey (Text.lastSegment_qualified _ name)
    · rcases (Option.orElse_eq_some _ _ _).1 hkey with hkey | ⟨-, hkey⟩
      · obtain ⟨i, -, hfound⟩ := List.exists_of_findSome?_eq_some hkey
        exact .lookup hfound (Text.lastSegment_inside _ name)
      · exact .lookup hkey (Text.lastSegment_inside "java.lang" name)

/-- A simple name stands for a type around the place, a member of one, or a type that is looked
up. -/
theorem FoundFor.of_simpleType? (hkey : s.simpleType? scope name = some key) :
    s.FoundFor scope name key := by
  rcases (Option.orElse_eq_some _ _ _).1 hkey with hkey | ⟨-, hkey⟩
  · obtain ⟨around, haround, hfound⟩ := List.exists_of_findSome?_eq_some hkey
    split at hfound
    next heq =>
      obtain rfl := Option.some.inj hfound
      exact heq ▸ .around haround
    next => exact .member (.around haround) hfound
  · exact .of_topLevelType? hkey

theorem FoundFor.of_memberTypeAt? {owner : TypeKey} (howner : s.FoundFor scope name owner)
    {path : List String} (hkey : s.memberTypeAt? owner path = some key) :
    s.FoundFor scope (path.getLast?.getD name) key := by
  induction path generalizing owner name with
  | nil =>
    obtain rfl := Option.some.inj hkey
    exact howner
  | cons first path ih =>
    obtain ⟨inner, hinner, hrest⟩ := Option.bind_eq_some_iff.1 hkey
    rw [List.getLast?_cons, Option.getD_some]
    exact ih (.member howner hinner) hrest

/-- **A dotted name** stands for a type that is found for its last segment. -/
theorem FoundFor.of_typeOfName? {segments : List String}
    (hkey : s.typeOfName? scope segments = some key) :
    ∃ last, segments.getLast? = some last ∧ s.FoundFor scope last key := by
  cases segments with
  | nil => cases hkey
  | cons first rest =>
    refine ⟨rest.getLast?.getD first, List.getLast?_cons, ?_⟩
    rcases (Option.orElse_eq_some _ _ _).1 hkey with hkey | ⟨-, hkey⟩
    · obtain ⟨outer, houter, hinner⟩ := Option.bind_eq_some_iff.1 hkey
      exact (FoundFor.of_simpleType? houter).of_memberTypeAt? hinner
    · split at hkey
      next => cases hkey
      next =>
        refine .lookup hkey ?_
        rw [Text.lastSegment_joined, List.getLast?_cons, Option.getD_some]

/-! ## The names of types -/

/-- A member type has the last segment of the name that was asked for. -/
theorem simpleName_eq_of_memberType? {owner : TypeKey}
    (hkey : s.memberType? owner name = some key) : key.simpleName = Text.lastSegment name := by
  obtain ⟨other, -, hfound⟩ := List.exists_of_findSome?_eq_some hkey
  obtain ⟨info, -, rfl⟩ := Option.map_eq_some_iff.1 hfound
  exact Text.lastSegment_inside other.qualifiedName name

/-- A member type has the name that was asked for. -/
theorem simpleName_of_memberType? {owner : TypeKey} (hname : '.' ∉ name.toList)
    (hkey : s.memberType? owner name = some key) : key.simpleName = name :=
  (simpleName_eq_of_memberType? hkey).trans (Text.lastSegment_eq_self hname)

/-- **A type that is found for a name** has its last segment as the simple name. -/
theorem FoundFor.simpleName_eq (hfound : s.FoundFor scope name key) (hscope : scope.HasEnvOf ws)
    (h : ws.InStep) : key.simpleName = Text.lastSegment name := by
  cases hfound with
  | around => exact (Text.lastSegment_lastSegment key.qualifiedName).symm
  | member _ hkey => exact simpleName_eq_of_memberType? hkey
  | lookup hkey hend => rw [TypeKey.simpleName, (hscope.of_lookup? h hkey).1, hend]

/-- **The type of a simple name** has that name. -/
theorem simpleName_of_simpleType? (hscope : scope.IsIn ws) (h : ws.InStep)
    (hname : '.' ∉ name.toList) (hkey : s.simpleType? scope name = some key) :
    key.simpleName = name :=
  ((FoundFor.of_simpleType? hkey).simpleName_eq hscope.env h).trans (Text.lastSegment_eq_self hname)

/-- The type of a dotted name has the last segment as its name. -/
theorem simpleName_of_typeOfName? (hscope : scope.IsIn ws) (h : ws.InStep) {segments : List String}
    (hsegments : ∀ segment ∈ segments, '.' ∉ segment.toList)
    (hkey : s.typeOfName? scope segments = some key) :
    segments.getLast? = some key.simpleName := by
  obtain ⟨last, hlast, hfound⟩ := FoundFor.of_typeOfName? hkey
  rw [hfound.simpleName_eq hscope.env h,
    Text.lastSegment_eq_self (hsegments last (List.mem_of_getLast? hlast)), hlast]

/-- **The type of a written type** has the last segment as its name. -/
theorem simpleName_of_typeOfRef? (hscope : scope.IsIn ws) (h : ws.InStep) {ref : TypeRef}
    (href : ref.WrittenIn IsWord) {key : TypeKey} (hkey : s.typeOfRef? scope ref = some key) :
    ref.isPrimitive = false ∧ ref.segments.getLast? = some key.simpleName := by
  unfold typeOfRef? at hkey
  split at hkey
  next => cases hkey
  next hprimitive =>
    refine ⟨by simpa using hprimitive, ?_⟩
    rcases href with ⟨p, hp⟩ | ⟨-, hall⟩
    · exact absurd (TypeRef.isPrimitive_of_spelling hp) hprimitive
    · exact simpleName_of_typeOfName? hscope h (fun segment hmem => (hall segment hmem).no_dot) hkey

/-! ## Names in expressions -/

/-- A simple name that stands for a type is the type's name. -/
theorem simpleName_of_meaningOfName (hscope : scope.IsIn ws) (h : ws.InStep) {locals : Locals}
    {name : String} (hname : '.' ∉ name.toList) {key : TypeKey}
    (hkey : s.meaningOfName scope locals name = .type key) : key.simpleName = name := by
  unfold meaningOfName at hkey
  split at hkey
  · cases hkey
  · split at hkey
    · cases hkey
    · split at hkey
      next found hfound =>
        cases hkey
        exact simpleName_of_simpleType? hscope h hname hfound
      next => split at hkey <;> cases hkey

/-- A name behind a point that stands for a type is the type's name. -/
theorem simpleName_of_meaningOfMember (hscope : scope.IsIn ws) (h : ws.InStep) {before : Meaning}
    {name : String} (hname : '.' ∉ name.toList) {key : TypeKey}
    (hkey : s.meaningOfMember scope before name = .type key) : key.simpleName = name := by
  unfold meaningOfMember at hkey
  split at hkey
  · split at hkey <;> cases hkey
  · split at hkey <;> cases hkey
  · split at hkey
    · cases hkey
    · split at hkey
      next inner hinner =>
        cases hkey
        exact simpleName_of_memberType? hname hinner
      next => cases hkey
  · dsimp only at hkey
    split at hkey
    next found hfound =>
      cases hkey
      unfold TypeKey.simpleName
      rw [(hscope.of_lookup? h hfound).1, Text.lastSegment_append _ hname]
    next => split at hkey <;> cases hkey
  · cases hkey

/-- A field that a name binds to has that name. -/
theorem name_of_field? {receiver : TypeKey} {name : String} {binding : BoundField}
    (hbinding : s.field? receiver name = some binding) : binding.field.name = name := by
  obtain ⟨key, -, hfound⟩ := List.exists_of_findSome?_eq_some hbinding
  obtain ⟨info, -, hfield⟩ := Option.bind_eq_some_iff.1 hfound
  obtain ⟨field, hnamed, rfl⟩ := Option.map_eq_some_iff.1 hfield
  have hname := List.find?_some hnamed
  exact beq_iff_eq.1 hname

theorem name_of_fieldAround? {name : String} {binding : BoundField}
    (hbinding : s.fieldAround? scope name = some binding) : binding.field.name = name := by
  obtain ⟨key, -, hfound⟩ := List.exists_of_findSome?_eq_some hbinding
  exact name_of_field? hfound

/-! ## Names in archives -/

/-- **The type that an archive finds** under a qualified name is declared under it by an archive. -/
theorem exists_declared_of_binaryType? {id : ArchiveId} {qualifiedName : String} {key : TypeKey}
    (hkey : s.binaryType? id qualifiedName = some key) :
    ∃ archive ∈ s.workspace.archives.values, ∃ info ∈ archive.types, info.key = key ∧
      key.qualifiedName = qualifiedName := by
  obtain ⟨archive, hmem, hfound⟩ : ∃ archive ∈ s.workspace.archives.values,
      archive.lookup? qualifiedName = some key := by
    rcases (Option.orElse_eq_some _ _ _).1 hkey with hkey | ⟨-, hkey⟩
    · obtain ⟨archive, hlisted, hfound⟩ := Option.bind_eq_some_iff.1 hkey
      exact ⟨archive, List.mem_of_find?_eq_some hlisted, hfound⟩
    · exact List.exists_of_findSome?_eq_some hkey
  obtain ⟨info, hinfo, rfl⟩ := Option.map_eq_some_iff.1 hfound
  have hname := List.find?_some hinfo
  exact ⟨archive, hmem, info, List.mem_of_find?_eq_some hinfo, rfl, beq_iff_eq.1 hname⟩

theorem qualifiedName_of_binaryType? {id : ArchiveId} {qualifiedName : String} {key : TypeKey}
    (hkey : s.binaryType? id qualifiedName = some key) : key.qualifiedName = qualifiedName := by
  obtain ⟨-, -, -, -, -, hname⟩ := exists_declared_of_binaryType? hkey
  exact hname

end BoundWorkspace

end SourceSearch
