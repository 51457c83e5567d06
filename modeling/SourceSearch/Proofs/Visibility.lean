import Mathlib.Logic.Relation
import SourceSearch.Binding.Supertypes
import SourceSearch.Proofs.DeclaredTypes

/-!
# What the environment of a project can find

The environment of a project looks types up in archives and in the sources of projects that it
requires, directly or through others (`isIn_of_mem_providers`). So a look-up answers with a type of
the name that was asked for, and the project sees where the type is declared (`of_lookupFor?`).
-/

set_option autoImplicit false

namespace SourceSearch

namespace Workspace

/-- A project requires another one, and both exist. -/
def Requires (ws : Workspace) (name required : String) : Prop :=
  ∃ project other, ws.project? name = some project ∧ required ∈ project.requiredProjects ∧
    ws.project? required = some other

/-- A project is another one or requires it, directly or through others. -/
def Sees (ws : Workspace) : String → String → Prop := Relation.ReflTransGen ws.Requires

/-- A project sees where a type is declared: in a project that it sees, or in an archive. -/
def SeesOrigin (ws : Workspace) (name : String) : Origin → Prop
  | .source file => ∃ source, ws.source? file = some source ∧ ws.Sees name source.project
  | .archive _ => True

theorem SeesOrigin.trans {ws : Workspace} {name other : String} {origin : Origin}
    (hsees : ws.Sees name other) (h : ws.SeesOrigin other origin) : ws.SeesOrigin name origin := by
  cases origin with
  | source file =>
    obtain ⟨source, hsource, hproject⟩ := h
    exact ⟨source, hsource, hsees.trans hproject⟩
  | archive id => exact True.intro

end Workspace

variable {ws : Workspace}

/-- A provider is an archive of the workspace or the sources of a project that `name` sees. -/
def Provider.IsIn (ws : Workspace) (name : String) : Provider → Prop
  | .sources project => ws.project? project.name = some project ∧ ws.Sees name project.name
  | .archive library => ∃ path, (path, library) ∈ ws.archives.entries

/-- The archive that an entry of a classpath names is registered. -/
theorem Workspace.mem_entries_of_library? {entry : ClasspathEntry} {archive : Archive}
    (h : ws.library? entry = some archive) : ∃ path, (path, archive) ∈ ws.archives.entries := by
  have hlisted : ∀ path, ws.archiveAt? path = some archive →
      ∃ path, (path, archive) ∈ ws.archives.entries := by
    intro path hpath
    obtain ⟨before, after, heq, -⟩ := List.lookup_eq_some_iff.1 hpath
    exact ⟨path, heq ▸ by simp⟩
  match entry, h with
  | .library path, h => exact hlisted path h
  | .variable name, h =>
    obtain ⟨path, -, hpath⟩ := Option.bind_eq_some_iff.1 h
    exact hlisted path hpath

/-- Archives that are added one after the other were there before or are among those added. -/
theorem Workspace.mem_or_mem_of_mem_foldl_addArchive {archive : Archive} {archives more : List Archive}
    (h : archive ∈ more.foldl addArchive archives) : archive ∈ archives ∨ archive ∈ more := by
  induction more generalizing archives with
  | nil => exact Or.inl h
  | cons first more ih =>
    rcases ih h with hmem | hmem
    · unfold addArchive at hmem
      split at hmem
      · exact Or.inl hmem
      · rcases List.mem_append.1 hmem with hmem | hmem
        · exact Or.inl hmem
        · rw [List.mem_singleton.1 hmem]
          exact Or.inr List.mem_cons_self
    · exact Or.inr (List.mem_cons_of_mem _ hmem)

/-- The archives of a project are named by entries of its classpath. -/
theorem Workspace.exists_library?_of_mem_libraries {project : Project} {archive : Archive}
    (h : archive ∈ ws.libraries project) :
    ∃ entry ∈ project.classpath, ws.library? entry = some archive := by
  rcases mem_or_mem_of_mem_foldl_addArchive h with hmem | hmem
  · cases hmem
  · exact List.mem_filterMap.1 hmem

namespace Environment

theorem isIn_of_mem_addArchive {name : String} {archive : Archive} {providers : List Provider}
    (hproviders : ∀ provider ∈ providers, provider.IsIn ws name)
    (harchive : ∃ path, (path, archive) ∈ ws.archives.entries) :
    ∀ provider ∈ addArchive archive providers, provider.IsIn ws name := by
  unfold addArchive
  split
  · exact hproviders
  · intro provider hmem
    rcases List.mem_append.1 hmem with hmem | hmem
    · exact hproviders provider hmem
    · rw [List.mem_singleton.1 hmem]
      exact harchive

/-- **Expansion** brings in archives, and the sources of projects that are seen, only. -/
theorem isIn_of_mem_expand (h : ws.FilesInStep) {name : String} {fuel : Nat} {isRoot : Bool}
    {project : Project} {providers : List Provider}
    (hproject : ws.project? project.name = some project) (hsees : ws.Sees name project.name)
    (hproviders : ∀ provider ∈ providers, provider.IsIn ws name) :
    ∀ provider ∈ expand ws fuel isRoot project providers, provider.IsIn ws name := by
  induction fuel generalizing isRoot project providers with
  | zero => exact hproviders
  | succ fuel ih =>
    unfold expand
    split
    · exact hproviders
    · refine List.foldlRecOn
        (motive := fun found => ∀ provider ∈ found, Provider.IsIn ws name provider)
        project.classpath _ ?_ ?_
      · intro provider hmem
        rcases List.mem_append.1 hmem with hmem | hmem
        · exact hproviders provider hmem
        · rw [List.mem_singleton.1 hmem]
          exact ⟨hproject, hsees⟩
      · intro found hfound entry hentry
        split
        next other exported =>
          split
          · split
            next required hrequired =>
              obtain rfl := (h.project_name hrequired).1
              refine ih hrequired (hsees.tail ⟨project, required, hproject, ?_, hrequired⟩) hfound
              exact List.mem_filterMap.2 ⟨_, hentry, rfl⟩
            next => exact hfound
          · exact hfound
        next =>
          split
          · split
            next archive harchive =>
              exact isIn_of_mem_addArchive hfound (Workspace.mem_entries_of_library? harchive)
            next => exact hfound
          · exact hfound

theorem isIn_of_mem_providers (h : ws.FilesInStep) {project : Project}
    (hproject : ws.project? project.name = some project) :
    ∀ provider ∈ (ofProject ws project).providers, provider.IsIn ws project.name :=
  isIn_of_mem_expand h hproject .refl (by simp)

end Environment

/-- A type of a project's table is declared in a parsed unit of the project. -/
theorem Workspace.InStep.of_lookup? (h : ws.InStep) {name : String} {project : Project}
    (hproject : ws.project? name = some project) {qualifiedName : String} {key : TypeKey}
    (hkey : project.lookup? qualifiedName = some key) :
    ∃ source info, source ∈ project.parsedUnits ws.sources ∧ info ∈ source.types ∧
      info.key = key ∧ key.qualifiedName = qualifiedName := by
  rw [Project.lookup?, h.consistent.types_eq hproject] at hkey
  obtain ⟨info, hinfo, rfl⟩ := Option.map_eq_some_iff.1 hkey
  obtain ⟨source, hsource, hmem⟩ := List.mem_flatMap.1 (List.mem_of_find?_eq_some hinfo)
  have hname := List.find?_some hinfo
  exact ⟨source, info, hsource, hmem, rfl, beq_iff_eq.1 hname⟩

/-- A provider answers with a type of the name that was asked for, declared where it is seen. -/
theorem Provider.IsIn.of_lookup? (h : ws.InStep) {name : String} {provider : Provider}
    (hprovider : provider.IsIn ws name) {qualifiedName : String} {key : TypeKey}
    (hkey : provider.lookup? qualifiedName = some key) :
    key.qualifiedName = qualifiedName ∧ ws.SeesOrigin name key.origin := by
  cases provider with
  | sources project =>
    obtain ⟨source, info, hsource, hinfo, rfl, hname⟩ := h.of_lookup? hprovider.1 hkey
    obtain ⟨hget, hproject⟩ := (h.files.mem_parsedUnits_iff hprovider.1).1 hsource
    have hnamed := h.files.namedIn_source hget hinfo
    refine ⟨hname, ?_⟩
    rw [hnamed.origin_eq]
    exact ⟨source, hget, hproject.symm ▸ hprovider.2⟩
  | archive archive =>
    obtain ⟨path, hpath⟩ := hprovider
    obtain ⟨info, hinfo, rfl⟩ := Option.map_eq_some_iff.1 hkey
    have hnamed := h.archives.namedIn_archive hpath (List.mem_of_find?_eq_some hinfo)
    have hname := List.find?_some hinfo
    refine ⟨beq_iff_eq.1 hname, ?_⟩
    rw [hnamed.origin_eq]
    exact True.intro

/-- **A look-up** answers with a type of the name that was asked for, and the project sees where it
is declared. -/
theorem Environment.of_lookupFor? (h : ws.InStep) {project : Project}
    (hproject : ws.project? project.name = some project) {reader : Reader} {qualifiedName : String}
    {key : TypeKey} (hkey : (ofProject ws project).lookupFor? reader qualifiedName = some key) :
    key.qualifiedName = qualifiedName ∧ ws.SeesOrigin project.name key.origin := by
  obtain ⟨provider, hmem, hfound⟩ := List.exists_of_findSome?_eq_some hkey
  obtain ⟨hlookup, -⟩ := Option.filter_eq_some_iff.1 hfound
  exact (isIn_of_mem_providers h.files hproject provider hmem).of_lookup? h hlookup

/-! ## Environments of all projects -/

/-- The environment under a name is that of the project of the name. -/
theorem BoundWorkspace.get?_environmentsOf (ws : Workspace) (name : String) :
    (environmentsOf ws).get? name = (ws.project? name).map (.ofProject ws) := by
  unfold environmentsOf
  rw [Table.get?_foldl_insert _ ws.projects.entries_nodup, Table.get?_empty, Option.or_none]
  unfold Workspace.project? Table.get?
  rw [Option.map_map]
  rfl

end SourceSearch
