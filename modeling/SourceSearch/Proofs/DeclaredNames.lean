import Mathlib.Data.List.Pairwise
import SourceSearch.Proofs.NameBinding

/-!
# Names bind to declared types

In a workspace in step with its texts every name that is bound to a type is bound to one that is
declared. The environment of a project finds declared types only (`mem_typeKeys_of_lookupFor?`), a
member type is declared by what is asked (`mem_typeKeys_of_memberType?`), and the types around a
declared type are declared too (`mem_typeKeys_of_mem_enclosingChain`). So whatever is found for a
name is declared (`FoundFor.mem_typeKeys`), and a written type and a name in an expression stand for
declared types (`mem_typeKeys_of_typeOfRef?`, `mem_typeKeys_of_meaningOfMember`).
-/

set_option autoImplicit false

namespace SourceSearch

variable {ws : Workspace} {s : BoundWorkspace}

/-! ## The types around a type -/

namespace DeclaredType

variable {origin : Origin} {package : String}

/-- The type around a declared type, if there is one, is `outer` or one of `infos`. -/
def OuterIn (outer : Option String) (infos : List DeclaredType) (info : DeclaredType) : Prop :=
  info.outer = outer ∨ ∃ other ∈ infos, info.outer = some other.qualifiedName

theorem OuterIn.mono {outer : Option String} {infos infos' : List DeclaredType}
    {info : DeclaredType} (h : info.OuterIn outer infos) (hsubset : infos ⊆ infos') :
    info.OuterIn outer infos' :=
  h.imp_right fun ⟨other, hmem, heq⟩ => ⟨other, hsubset hmem, heq⟩

mutual

theorem outerIn_of_mem_collectDecl :
    ∀ (decl : TypeDecl) {outer : Option String} {qualified : String} {path : List Nat}
      {info : DeclaredType}, info ∈ collectDecl origin package outer qualified path decl →
      info.OuterIn outer (collectDecl origin package outer qualified path decl)
  | ⟨head, members⟩, outer, qualified, path, info, hinfo => by
    rw [collectDecl] at hinfo ⊢
    rcases List.mem_cons.1 hinfo with rfl | hinfo
    · exact Or.inl rfl
    · rcases outerIn_of_mem_collectMembers members hinfo with heq | ⟨other, hother, heq⟩
      · exact Or.inr ⟨_, List.mem_cons_self, heq⟩
      · exact Or.inr ⟨other, List.mem_cons_of_mem _ hother, heq⟩

theorem outerIn_of_mem_collectMembers :
    ∀ (members : List Member) {outer : String} {path : List Nat} {index : Nat}
      {info : DeclaredType}, info ∈ collectMembers origin package outer path index members →
      info.OuterIn (some outer) (collectMembers origin package outer path index members)
  | [], _, _, _, _, hinfo => by
    rw [collectMembers] at hinfo
    cases hinfo
  | .type ⟨head, inner⟩ :: rest, outer, path, index, info, hinfo => by
    rw [collectMembers] at hinfo ⊢
    rcases List.mem_append.1 hinfo with hinfo | hinfo
    · exact (outerIn_of_mem_collectDecl _ hinfo).mono (List.subset_append_left _ _)
    · exact (outerIn_of_mem_collectMembers rest hinfo).mono (List.subset_append_right _ _)
  | .field _ _ :: rest, _, _, _, _, hinfo => by
    rw [collectMembers] at hinfo ⊢
    exact outerIn_of_mem_collectMembers rest hinfo
  | .method _ _ :: rest, _, _, _, _, hinfo => by
    rw [collectMembers] at hinfo ⊢
    exact outerIn_of_mem_collectMembers rest hinfo
  | .initializer _ _ _ :: rest, _, _, _, _, hinfo => by
    rw [collectMembers] at hinfo ⊢
    exact outerIn_of_mem_collectMembers rest hinfo

end

end DeclaredType

/-- **The type around a member type** is among the types of the unit. -/
theorem exists_outer_of_mem_collectTypes {unit : CompilationUnit} {origin : Origin}
    {info : DeclaredType} (hinfo : info ∈ collectTypes unit origin) {name : String}
    (houter : info.outer = some name) :
    ∃ other ∈ collectTypes unit origin, other.qualifiedName = name := by
  unfold collectTypes at hinfo ⊢
  obtain ⟨infos, hinfos, hinfo⟩ := List.mem_flatten.1 hinfo
  obtain ⟨⟨decl, index⟩, hdecl, rfl⟩ := List.mem_map.1 hinfos
  rcases DeclaredType.outerIn_of_mem_collectDecl decl hinfo with hnone | ⟨other, hother, heq⟩
  · rw [houter] at hnone
    cases hnone
  · exact ⟨other, List.mem_flatten.2 ⟨_, hinfos, hother⟩, Option.some.inj (heq.symm.trans houter)⟩

/-- What an archive declares is declared by one of its units, and stands in the same type there. -/
theorem exists_unit_of_mem_ofUnits {id : ArchiveId} {path : String} {units : List CompilationUnit}
    {module : Option ModuleDescription} {info : DeclaredType}
    (hinfo : info ∈ (Archive.ofUnits id path units module).types) :
    ∃ unit ∈ units, ∃ plain ∈ collectTypes unit (.archive id),
      plain.key = info.key ∧ plain.outer = info.outer ∧
      ∀ other ∈ collectTypes unit (.archive id),
        ∃ found ∈ (Archive.ofUnits id path units module).types, found.key = other.key := by
  obtain ⟨⟨imports, infos⟩, hcollected, hinfo⟩ := List.mem_flatMap.1 hinfo
  obtain ⟨plain, hplain, rfl⟩ := List.mem_map.1 hinfo
  obtain ⟨unit, hunit, heq⟩ := List.mem_map.1 hcollected
  obtain ⟨rfl, rfl⟩ := Prod.mk.inj heq
  refine ⟨unit, hunit, plain, hplain, rfl, rfl, fun other hother => ?_⟩
  exact ⟨_, List.mem_flatMap.2 ⟨_, hcollected, List.mem_map_of_mem hother⟩, rfl⟩

/-! ## The declared types of a workspace -/

namespace Workspace

theorem mem_typeKeys {file : FileId} {source : SourceFile} (hsource : ws.source? file = some source)
    {info : DeclaredType} (hinfo : info ∈ source.types) : info.key ∈ ws.typeKeys :=
  List.mem_append_left _ (List.mem_flatMap.2
    ⟨source, Table.mem_values_iff.2 ⟨file.index, hsource⟩, List.mem_map_of_mem hinfo⟩)

theorem mem_typeKeys_of_archive {archive : Archive} (harchive : archive ∈ ws.archives.values)
    {info : DeclaredType} (hinfo : info ∈ archive.types) : info.key ∈ ws.typeKeys :=
  List.mem_append_right _ (List.mem_flatMap.2 ⟨archive, harchive, List.mem_map_of_mem hinfo⟩)

theorem mem_archives_values {id : ArchiveId} {archive : Archive}
    (harchive : ws.archive? id = some archive) : archive ∈ ws.archives.values :=
  List.mem_of_find?_eq_some harchive

/-- An archive is found by its number. -/
theorem ArchivesInStep.archive?_id (h : ws.ArchivesInStep) {archive : Archive}
    (harchive : archive ∈ ws.archives.values) : ws.archive? archive.id = some archive := by
  obtain ⟨⟨path, archive⟩, hmem, rfl⟩ := List.mem_map.1 harchive
  cases hfound : ws.archive? archive.id with
  | none => simpa using List.find?_eq_none.1 hfound archive harchive
  | some other =>
    obtain ⟨hid, path', hmem'⟩ := mem_entries_of_archive? hfound
    have : Std.Symm fun a b : String × Archive => a.1 ≠ b.1 ∧ a.2.id ≠ b.2.id :=
      ⟨fun _ _ hne => ⟨hne.1.symm, hne.2.symm⟩⟩
    by_contra hne
    refine (h.archive_nodup.forall hmem' hmem fun heq => hne ?_).2 hid
    rw [(Prod.mk.inj heq).2]

/-- **The declared types** are those with a declaration. -/
theorem InStep.mem_typeKeys_iff (h : ws.InStep) {key : TypeKey} :
    key ∈ ws.typeKeys ↔ ∃ info, ws.declared? key = some info := by
  constructor
  · intro hkey
    have hfind : ∀ {infos : List DeclaredType} {info : DeclaredType}, info ∈ infos →
        ∃ found, infos.find? (·.key.qualifiedName == info.key.qualifiedName) = some found :=
      fun hinfo => Option.isSome_iff_exists.1 (List.find?_isSome.2 ⟨_, hinfo, beq_self_eq_true _⟩)
    rcases List.mem_append.1 hkey with hkey | hkey
    · obtain ⟨source, hsource, hlisted⟩ := List.mem_flatMap.1 hkey
      obtain ⟨info, hinfo, rfl⟩ := List.mem_map.1 hlisted
      obtain ⟨index, hget⟩ := Table.mem_values_iff.1 hsource
      obtain ⟨found, hfound⟩ := hfind hinfo
      have hget : ws.source? ⟨index⟩ = some source := hget
      have hnamed := h.files.namedIn_source hget hinfo
      refine ⟨found, ?_⟩
      rw [declared?, hnamed.origin_eq]
      exact Option.bind_eq_some_iff.2 ⟨source, hget, hfound⟩
    · obtain ⟨archive, harchive, hdeclared⟩ := List.mem_flatMap.1 hkey
      obtain ⟨info, hinfo, rfl⟩ := List.mem_map.1 hdeclared
      obtain ⟨found, hfound⟩ := hfind hinfo
      have hlisted := h.archives.archive?_id harchive
      obtain ⟨-, path, hmem⟩ := mem_entries_of_archive? hlisted
      have hnamed := h.archives.namedIn_archive hmem hinfo
      refine ⟨found, ?_⟩
      rw [declared?, hnamed.origin_eq]
      exact Option.bind_eq_some_iff.2 ⟨archive, hlisted, hfound⟩
  · rintro ⟨info, hinfo⟩
    rw [← (h.of_declared? hinfo).1]
    obtain ⟨origin, name⟩ := key
    cases origin with
    | source file =>
      obtain ⟨source, hsource, hfound⟩ := Option.bind_eq_some_iff.1 hinfo
      exact mem_typeKeys hsource (List.mem_of_find?_eq_some hfound)
    | archive id =>
      obtain ⟨archive, harchive, hfound⟩ := Option.bind_eq_some_iff.1 hinfo
      exact mem_typeKeys_of_archive (mem_archives_values harchive)
        (List.mem_of_find?_eq_some hfound)

/-- The type around a type of a file is declared. -/
theorem InStep.outer_mem_typeKeys_of_mem (h : ws.InStep) {file : FileId} {source : SourceFile}
    (hsource : ws.source? file = some source) {info : DeclaredType} (hinfo : info ∈ source.types)
    {name : String} (houter : info.outer = some name) : ⟨info.key.origin, name⟩ ∈ ws.typeKeys := by
  obtain ⟨unit, hunit⟩ := h.files.exists_unit hsource hinfo
  have htypes := h.files.types_eq hsource hunit
  obtain ⟨other, hother, rfl⟩ := exists_outer_of_mem_collectTypes (htypes ▸ hinfo) houter
  rw [← htypes] at hother
  have hkey := mem_typeKeys hsource hother
  rw [(h.files.namedIn_source hsource hinfo).origin_eq,
    ← (h.files.namedIn_source hsource hother).origin_eq]
  exact hkey

/-- **The type around a declared type** is declared. -/
theorem InStep.outer_mem_typeKeys (h : ws.InStep) {key : TypeKey} {info : DeclaredType}
    (hinfo : ws.declared? key = some info) {name : String} (houter : info.outer = some name) :
    ⟨key.origin, name⟩ ∈ ws.typeKeys := by
  have hkey := (h.of_declared? hinfo).1
  obtain ⟨origin, qualifiedName⟩ := key
  cases origin with
  | source file =>
    obtain ⟨source, hsource, hfound⟩ := Option.bind_eq_some_iff.1 hinfo
    have hmem := h.outer_mem_typeKeys_of_mem hsource (List.mem_of_find?_eq_some hfound) houter
    rw [hkey] at hmem
    exact hmem
  | archive id =>
    obtain ⟨archive, harchive, hfound⟩ := Option.bind_eq_some_iff.1 hinfo
    obtain ⟨rfl, path, hentry⟩ := mem_entries_of_archive? harchive
    obtain ⟨units, -, heq⟩ := h.archives.archive_compiled hentry
    have hmem := List.mem_of_find?_eq_some hfound
    rw [heq] at hmem
    obtain ⟨unit, -, plain, hplain, -, hplainOuter, hall⟩ := exists_unit_of_mem_ofUnits hmem
    obtain ⟨other, hother, rfl⟩ :=
      exists_outer_of_mem_collectTypes hplain (hplainOuter.trans houter)
    obtain ⟨found, hlisted, hkey⟩ := hall other hother
    rw [← heq] at hlisted
    have hnamed := h.archives.namedIn_archive hentry hlisted
    have hfoundKey := mem_typeKeys_of_archive (mem_archives_values harchive) hlisted
    rw [DeclaredType.qualifiedName, ← hkey, ← hnamed.origin_eq]
    exact hfoundKey

end Workspace

/-! ## Names -/

/-- A provider answers with declared types. -/
theorem Provider.IsIn.mem_typeKeys_of_lookup? (h : ws.InStep) {name : String} {provider : Provider}
    (hprovider : provider.IsIn ws name) {qualifiedName : String} {key : TypeKey}
    (hkey : provider.lookup? qualifiedName = some key) : key ∈ ws.typeKeys := by
  cases provider with
  | sources project =>
    obtain ⟨source, info, hsource, hinfo, rfl, -⟩ := h.of_lookup? hprovider.1 hkey
    obtain ⟨hget, -⟩ := (h.files.mem_parsedUnits_iff hprovider.1).1 hsource
    exact Workspace.mem_typeKeys hget hinfo
  | archive archive =>
    obtain ⟨path, hpath⟩ := hprovider
    obtain ⟨info, hinfo, rfl⟩ := Option.map_eq_some_iff.1 hkey
    exact Workspace.mem_typeKeys_of_archive (List.mem_map_of_mem hpath)
      (List.mem_of_find?_eq_some hinfo)

/-- **The environment of a project** answers with declared types. -/
theorem Environment.mem_typeKeys_of_lookupFor? (h : ws.InStep) {project : Project}
    (hproject : ws.project? project.name = some project) {reader : Reader} {qualifiedName : String}
    {key : TypeKey} (hkey : (ofProject ws project).lookupFor? reader qualifiedName = some key) :
    key ∈ ws.typeKeys := by
  obtain ⟨provider, hmem, hfound⟩ := List.exists_of_findSome?_eq_some hkey
  exact (isIn_of_mem_providers h.files hproject provider hmem).mem_typeKeys_of_lookup? h
    (Option.filter_eq_some_iff.1 hfound).1

/-- A place in a declared type, if it is in any. -/
structure NameScope.IsDeclaredIn (ws : Workspace) (scope : NameScope) : Prop
    extends scope.IsIn ws where
  enclosing : ∀ key, scope.enclosing = some key → key ∈ ws.typeKeys

/-- The place in a declared type. -/
theorem NameScope.IsIn.inside_declared {scope : NameScope} (hscope : scope.IsIn ws)
    {enclosing : Option TypeKey} (henclosing : ∀ key, enclosing = some key → key ∈ ws.typeKeys) :
    (scope.inside enclosing).IsDeclaredIn ws :=
  ⟨hscope.inside enclosing, henclosing⟩

namespace BoundWorkspace

/-- A member type is declared. -/
theorem mem_typeKeys_of_memberType? (hover : s.IsOver ws) (h : ws.InStep) {owner key : TypeKey}
    {name : String} (hkey : s.memberType? owner name = some key) : key ∈ ws.typeKeys := by
  obtain ⟨other, -, hfound⟩ := List.exists_of_findSome?_eq_some hkey
  obtain ⟨info, hinfo, rfl⟩ := Option.map_eq_some_iff.1 hfound
  rw [declared?, hover.workspace] at hinfo
  exact h.mem_typeKeys_iff.2 ⟨info, hinfo⟩

/-- **The types around a declared type** are declared. -/
theorem mem_typeKeys_of_mem_enclosingChain (hover : s.IsOver ws) (h : ws.InStep)
    {enclosing : Option TypeKey} (henclosing : ∀ key, enclosing = some key → key ∈ ws.typeKeys)
    {key : TypeKey} (hkey : key ∈ s.enclosingChain enclosing) : key ∈ ws.typeKeys := by
  have hchain : ∀ {fuel : Nat} {start : TypeKey}, start ∈ ws.typeKeys →
      key ∈ s.outerChain fuel start → key ∈ ws.typeKeys := by
    intro fuel
    induction fuel with
    | zero =>
      intro start _ hmem
      cases hmem
    | succ fuel ih =>
      intro start hstart hmem
      rw [outerChain] at hmem
      rcases List.mem_cons.1 hmem with rfl | hmem
      · exact hstart
      · split at hmem
        next outer houter =>
          obtain ⟨info, hinfo, houter⟩ := Option.bind_eq_some_iff.1 houter
          obtain ⟨name, hname, rfl⟩ := Option.map_eq_some_iff.1 houter
          rw [declared?, hover.workspace] at hinfo
          exact ih (h.outer_mem_typeKeys hinfo hname) hmem
        next => cases hmem
  cases enclosing with
  | none => cases hkey
  | some start => exact hchain (henclosing start rfl) hkey

end BoundWorkspace

namespace NameScope

variable {scope : NameScope}

/-- **A look-up at a place** answers with a declared type. -/
theorem HasEnvOf.mem_typeKeys_of_lookup? (hscope : scope.HasEnvOf ws) (h : ws.InStep)
    {qualifiedName : String} {key : TypeKey} (hkey : scope.env.lookup? qualifiedName = some key) :
    key ∈ ws.typeKeys := by
  obtain ⟨project, hproject, henv⟩ := hscope
  have hname := (h.files.project_name hproject).1
  rw [henv] at hkey
  rw [← hname] at hproject
  exact Environment.mem_typeKeys_of_lookupFor? h hproject hkey

theorem IsIn.mem_typeKeys_of_lookup? (hscope : scope.IsIn ws) (h : ws.InStep)
    {qualifiedName : String} {key : TypeKey} (hkey : scope.env.lookup? qualifiedName = some key) :
    key ∈ ws.typeKeys :=
  HasEnvOf.mem_typeKeys_of_lookup? hscope.env h hkey

end NameScope

/-- **A type that is found for a name** in a declared type is declared. -/
theorem BoundWorkspace.FoundFor.mem_typeKeys {scope : NameScope} {name : String} {key : TypeKey}
    (hfound : s.FoundFor scope name key) (hover : s.IsOver ws) (h : ws.InStep)
    (hscope : scope.HasEnvOf ws)
    (henclosing : ∀ key, scope.enclosing = some key → key ∈ ws.typeKeys) : key ∈ ws.typeKeys := by
  cases hfound with
  | around hkey => exact mem_typeKeys_of_mem_enclosingChain hover h henclosing hkey
  | member _ hkey => exact mem_typeKeys_of_memberType? hover h hkey
  | lookup hkey => exact hscope.mem_typeKeys_of_lookup? h hkey

namespace NameScope.IsDeclaredIn

variable {scope : NameScope}

/-- The type of a simple name is declared. -/
theorem mem_typeKeys_of_simpleType? (hscope : scope.IsDeclaredIn ws) (hover : s.IsOver ws)
    (h : ws.InStep) {name : String} {key : TypeKey} (hkey : s.simpleType? scope name = some key) :
    key ∈ ws.typeKeys :=
  (BoundWorkspace.FoundFor.of_simpleType? hkey).mem_typeKeys hover h hscope.env hscope.enclosing

/-- **The type of a written type** is declared. -/
theorem mem_typeKeys_of_typeOfRef? (hscope : scope.IsDeclaredIn ws) (hover : s.IsOver ws)
    (h : ws.InStep) {ref : TypeRef} {key : TypeKey} (hkey : s.typeOfRef? scope ref = some key) :
    key ∈ ws.typeKeys := by
  unfold BoundWorkspace.typeOfRef? at hkey
  split at hkey
  next => cases hkey
  next =>
    obtain ⟨last, -, hfound⟩ := BoundWorkspace.FoundFor.of_typeOfName? hkey
    exact hfound.mem_typeKeys hover h hscope.env hscope.enclosing

/-- A simple name that stands for a type stands for a declared one. -/
theorem mem_typeKeys_of_meaningOfName (hscope : scope.IsDeclaredIn ws) (hover : s.IsOver ws)
    (h : ws.InStep) {locals : Locals} {name : String} {key : TypeKey}
    (hkey : s.meaningOfName scope locals name = .type key) : key ∈ ws.typeKeys := by
  unfold BoundWorkspace.meaningOfName at hkey
  split at hkey
  · cases hkey
  · split at hkey
    · cases hkey
    · split at hkey
      next found hfound =>
        cases hkey
        exact hscope.mem_typeKeys_of_simpleType? hover h hfound
      next => split at hkey <;> cases hkey

/-- A name behind a point that stands for a type stands for a declared one. -/
theorem mem_typeKeys_of_meaningOfMember (hscope : scope.IsDeclaredIn ws) (hover : s.IsOver ws)
    (h : ws.InStep) {before : Meaning} {name : String} {key : TypeKey}
    (hkey : s.meaningOfMember scope before name = .type key) : key ∈ ws.typeKeys := by
  unfold BoundWorkspace.meaningOfMember at hkey
  split at hkey
  · split at hkey <;> cases hkey
  · split at hkey <;> cases hkey
  · split at hkey
    · cases hkey
    · split at hkey
      next inner hinner =>
        cases hkey
        exact BoundWorkspace.mem_typeKeys_of_memberType? hover h hinner
      next => cases hkey
  · dsimp only at hkey
    split at hkey
    next found hfound =>
      cases hkey
      exact hscope.mem_typeKeys_of_lookup? h hfound
    next => split at hkey <;> cases hkey
  · cases hkey

end NameScope.IsDeclaredIn

end SourceSearch
