import SourceSearch.Binding.Hierarchy
import SourceSearch.Proofs.Renaming

/-!
# Workspaces that differ in numbers

`Workspace.RenamedBy r` says that a workspace is another one with the numbers of files and projects
changed by `r`: the parsed files, the projects, the archives and the variables correspond. What is
looked up in such a workspace is the renamed answer of the other one, and an environment that is made
in it sees the renamed types (`lookup?_ofProject`) and the same packages (`hasPackage_ofProject`).
-/

set_option autoImplicit false

namespace SourceSearch

/-- The units of a renamed project are parsed as the renamed files. -/
theorem Renaming.parsedUnits_project (r : Renaming) {sources sources' : Table Nat SourceFile}
    (h : ∀ file : FileId,
      sources'.get? (r.file file).index = (sources.get? file.index).map r.source)
    (project : Project) :
    (r.project project).parsedUnits sources' = (project.parsedUnits sources).map r.source := by
  have hunits : (r.project project).compilationUnits =
      project.compilationUnits.map fun e => (e.1, r.file e.2) := by
    simp only [Project.compilationUnits, Renaming.project, Table.mapValues, List.filter_map]
    rfl
  rw [Project.parsedUnits, hunits, List.filterMap_map, Project.parsedUnits, List.map_filterMap]
  exact List.filterMap_congr fun e _ => h e.2

/-- The second workspace is the first one under other numbers. -/
structure Workspace.RenamedBy (r : Renaming) (ws ws' : Workspace) : Prop where
  source? : ∀ file, ws'.source? (r.file file) = (ws.source? file).map r.source
  onto : ∀ {file source}, ws'.source? file = some source → ∃ old, r.file old = file
  projects : ws'.projects = ws.projects.mapValues r.project
  archives : ws'.archives.entries = ws.archives.entries.map fun e => (e.1, r.archive e.2)
  vars : ∀ name, ws'.vars.get? name = ws.vars.get? name

namespace Workspace.RenamedBy

variable {r : Renaming} {ws ws' : Workspace}

/-! ## Projects, archives and declarations -/

theorem project? (h : ws.RenamedBy r ws') (name : String) :
    ws'.project? name = (ws.project? name).map r.project := by
  rw [Workspace.project?, h.projects, Table.get?_mapValues, Workspace.project?]

theorem projects_keys (h : ws.RenamedBy r ws') : ws'.projects.keys = ws.projects.keys := by
  rw [h.projects, Table.keys_mapValues]

theorem projects_values (h : ws.RenamedBy r ws') :
    ws'.projects.values = ws.projects.values.map r.project := by
  rw [h.projects, Table.values_mapValues]

theorem projects_length (h : ws.RenamedBy r ws') :
    ws'.projects.entries.length = ws.projects.entries.length := by
  rw [h.projects, Table.mapValues, List.length_map]

theorem archives_values (h : ws.RenamedBy r ws') :
    ws'.archives.values = ws.archives.values.map r.archive := by
  simp [Register.values, h.archives]

theorem archive? (h : ws.RenamedBy r ws') (id : ArchiveId) :
    ws'.archive? id = (ws.archive? id).map r.archive := by
  rw [Workspace.archive?, h.archives_values, List.find?_map]
  rfl

theorem archiveAt? (h : ws.RenamedBy r ws') (path : String) :
    ws'.archiveAt? path = (ws.archiveAt? path).map r.archive := by
  simp only [Workspace.archiveAt?, Register.get?, h.archives]
  induction ws.archives.entries with
  | nil => rfl
  | cons e entries ih =>
    rw [List.map_cons, List.lookup_cons, List.lookup_cons, ih]
    split <;> rfl

theorem library? (h : ws.RenamedBy r ws') (entry : ClasspathEntry) :
    ws'.library? entry = (ws.library? entry).map r.archive := by
  cases entry with
  | library path => exact h.archiveAt? path
  | «variable» name =>
    simp only [Workspace.library?, h.vars, Option.map_bind]
    congr 1
    funext path
    exact h.archiveAt? path
  | project name exported => rfl

theorem libraries (h : ws.RenamedBy r ws') (project : Project) :
    ws'.libraries (r.project project) = (ws.libraries project).map r.archive := by
  have hadd : ∀ (archives : List Archive) (archive : Archive),
      addArchive (archives.map r.archive) (r.archive archive) =
        (addArchive archives archive).map r.archive := by
    intro archives archive
    have hany : (archives.map r.archive).any (·.id == (r.archive archive).id) =
        archives.any (·.id == archive.id) := by
      rw [List.any_map]
      rfl
    unfold addArchive
    rw [hany]
    split
    · rfl
    · rw [List.map_append, List.map_singleton]
  have hlisted : project.classpath.filterMap ws'.library? =
      (project.classpath.filterMap ws.library?).map r.archive := by
    rw [List.map_filterMap]
    exact List.filterMap_congr fun entry _ => h.library? entry
  have hfold : ∀ listed archives : List Archive,
      (listed.map r.archive).foldl addArchive (archives.map r.archive) =
        (listed.foldl addArchive archives).map r.archive := by
    intro listed archives
    rw [List.foldl_map]
    exact List.foldl_hom (List.map r.archive) hadd
  show (project.classpath.filterMap ws'.library?).foldl addArchive [] = _
  rw [hlisted]
  exact hfold _ []

theorem declared? (h : ws.RenamedBy r ws') (key : TypeKey) :
    ws'.declared? (r.key key) = (ws.declared? key).map r.info := by
  obtain ⟨origin, name⟩ := key
  cases origin with
  | source file =>
    simp only [Workspace.declared?, Renaming.key_origin, Renaming.origin_source, h.source?,
      Renaming.key_qualifiedName, Option.bind_map, Option.map_bind]
    congr 1
    funext source
    exact r.declared?_source source name
  | archive id =>
    simp only [Workspace.declared?, Renaming.key_origin, Renaming.origin_archive, h.archive?,
      Renaming.key_qualifiedName, Option.bind_map, Option.map_bind]
    congr 1
    funext archive
    exact r.declared?_archive archive name

theorem projectOf? (h : ws.RenamedBy r ws') (key : TypeKey) :
    ws'.projectOf? (r.key key) = ws.projectOf? key := by
  obtain ⟨origin, name⟩ := key
  cases origin with
  | source file =>
    simp [Workspace.projectOf?, Origin.file?, h.source?, Renaming.source, Function.comp_def]
  | archive id => rfl

/-! ## Files of projects -/

theorem parsedUnits (h : ws.RenamedBy r ws') (project : Project) :
    (r.project project).parsedUnits ws'.sources =
      (project.parsedUnits ws.sources).map r.source :=
  r.parsedUnits_project h.source? project

theorem projectTypes (h : ws.RenamedBy r ws') (name : String) :
    ws'.projectTypes name = (ws.projectTypes name).map r.key := by
  rw [Workspace.projectTypes, h.project?, Workspace.projectTypes]
  cases ws.project? name with
  | none => rfl
  | some project =>
    simp only [Option.map_some, h.parsedUnits, List.flatMap_map, List.map_flatMap, Renaming.source,
      List.map_map]
    rfl

theorem findDependents (h : ws.RenamedBy r ws') (name : String) (pending found : List String) :
    ws'.findDependents name pending found = ws.findDependents name pending found := by
  have hnew : ∀ current found,
      ws'.newDependents name current found = ws.newDependents name current found := by
    intro current found
    simp only [newDependents, h.projects_values, List.filter_map, List.map_map]
    rfl
  fun_induction Workspace.findDependents ws name pending found with
  | case1 found => rw [Workspace.findDependents]
  | case2 current pending found new ih =>
    rw [Workspace.findDependents, hnew]
    exact ih

theorem dependents (h : ws.RenamedBy r ws') (name : String) :
    ws'.dependents name = ws.dependents name := by
  rw [Workspace.dependents, h.findDependents, h.projects_keys, Workspace.dependents]

/-! ## Environments -/

theorem addArchive (r : Renaming) (archive : Archive) (providers : List Provider) :
    Environment.addArchive (r.archive archive) (providers.map r.provider) =
      (Environment.addArchive archive providers).map r.provider := by
  unfold Environment.addArchive
  rw [show (r.archive archive).id = archive.id from rfl, r.any_isArchive]
  split
  · rfl
  · rw [List.map_append]
    rfl

theorem addLibrary (h : ws.RenamedBy r ws') (isRoot : Bool) (entry : ClasspathEntry)
    (providers : List Provider) :
    (if isRoot then
      match ws'.library? entry with
      | some archive => Environment.addArchive archive (providers.map r.provider)
      | none => providers.map r.provider
    else providers.map r.provider) =
      (if isRoot then
        match ws.library? entry with
        | some archive => Environment.addArchive archive providers
        | none => providers
      else providers).map r.provider := by
  rw [h.library?]
  cases ws.library? entry with
  | none => simp
  | some archive =>
    dsimp only [Option.map_some]
    rw [addArchive]
    split <;> rfl

theorem expand (h : ws.RenamedBy r ws') (fuel : Nat) (isRoot : Bool) (project : Project)
    (providers : List Provider) :
    Environment.expand ws' fuel isRoot (r.project project) (providers.map r.provider) =
      (Environment.expand ws fuel isRoot project providers).map r.provider := by
  induction fuel generalizing isRoot project providers with
  | zero => rfl
  | succ fuel ih =>
    rw [Environment.expand, Environment.expand, show (r.project project).name = project.name from rfl,
      r.any_isSourcesOf]
    split
    · rfl
    · have hfirst : providers.map r.provider ++ [Provider.sources (r.project project)] =
          (providers ++ [Provider.sources project]).map r.provider := by
        rw [List.map_append]
        rfl
      rw [hfirst]
      apply List.foldl_hom (List.map r.provider)
      intro providers entry
      cases entry with
      | project name exported =>
        dsimp only
        rw [h.project?]
        cases ws.project? name with
        | none => simp
        | some required =>
          dsimp only [Option.map_some]
          split
          · exact ih false required providers
          · rfl
      | library path => exact h.addLibrary isRoot (.library path) providers
      | «variable» name => exact h.addLibrary isRoot (.variable name) providers

theorem packageOf (h : ws.RenamedBy r ws') (key : TypeKey) :
    Environment.packageOf ws' (r.key key) = Environment.packageOf ws key := by
  rw [Environment.packageOf, h.declared?, Environment.packageOf]
  cases ws.declared? key <;> rfl

end Workspace.RenamedBy

/-- The second environment sees the renamed types and the same packages. -/
structure Environment.RenamedBy (r : Renaming) (env env' : Environment) : Prop where
  lookup? : ∀ name, env'.lookup? name = (env.lookup? name).map r.key
  hasPackage : ∀ package, env'.hasPackage package = env.hasPackage package

/-- **What a project sees** is renamed with the workspace. -/
theorem Workspace.RenamedBy.ofProject {r : Renaming} {ws ws' : Workspace} (h : ws.RenamedBy r ws')
    (project : Project) :
    (Environment.ofProject ws project).RenamedBy r (.ofProject ws' (r.project project)) := by
  have hproviders : (Environment.ofProject ws' (r.project project)).providers =
      (Environment.ofProject ws project).providers.map r.provider := by
    simp only [Environment.ofProject, h.projects_length]
    exact h.expand _ true project []
  have hreader : (Environment.ofProject ws' (r.project project)).reader =
      (Environment.ofProject ws project).reader := rfl
  constructor
  · intro name
    rw [Environment.lookup?, hreader, Environment.lookupFor?, hproviders, List.findSome?_map,
      Environment.lookup?, Environment.lookupFor?, List.map_findSome?]
    congr 1
    funext provider
    simp only [Function.comp, r.lookup?_provider, r.module_provider, Option.filter_map]
    congr 2
    funext key
    exact congrArg _ (h.packageOf key)
  · intro package
    rw [Environment.hasPackage, hreader, Environment.hasPackageFor, hproviders, List.any_map,
      Environment.hasPackage, Environment.hasPackageFor]
    congr 1
    funext provider
    simp only [Function.comp, r.hasPackage_provider, r.module_provider]

end SourceSearch
