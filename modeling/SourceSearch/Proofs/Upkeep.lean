import Mathlib.Data.List.Basic
import SourceSearch.Edit
import SourceSearch.Proofs.Paths
import SourceSearch.Proofs.Store

/-!
# Edits keep the tables of a workspace in step

A workspace keeps the files of a project three times: by path in the project, by number with their
texts, and by number with their parsed forms; from the latter each project keeps its tables of types
and packages. `Workspace.FilesInStep` says that they agree, in terms of four look-ups: `fileAt?`,
`isUnitAt`, and the two tables by number. `Workspace.ArchivesInStep` does so for archives and
variables.

Every edit is described once by what it does to these look-ups, and from that both are kept.
-/

set_option autoImplicit false

namespace SourceSearch

/-! ## Edits in steps -/

/-- A computation in two steps succeeds iff both steps do. -/
theorem bind_eq_ok_iff {α β ε : Type} {x : Except ε α} {f : α → Except ε β} {b : β} :
    x >>= f = .ok b ↔ ∃ a, x = .ok a ∧ f a = .ok b := by
  cases x with
  | error e => simp [bind, Except.bind]
  | ok a => simp [bind, Except.bind]

/-- A computation that has a result succeeds. -/
theorem exists_eq_ok_of_isSome {ε α : Type} {x : Except ε α} (h : x.toOption.isSome = true) :
    ∃ a, x = .ok a := by
  cases x with
  | error e => cases h
  | ok a => exact ⟨a, rfl⟩

/-- What stands behind a check is done iff the check passes. -/
theorem guard_eq_ok_iff {α ε : Type} {p : Prop} [Decidable p] {e : ε} {x : Except ε α} {b : α} :
    (if p then (do throw e; x) else x) = .ok b ↔ ¬p ∧ x = .ok b := by
  by_cases hp : p
  · rw [if_pos hp]
    constructor
    · intro h
      cases h
    · rintro ⟨hnot, -⟩
      exact absurd hp hnot
  · rw [if_neg hp]
    exact (and_iff_right hp).symm

/-! ## Projects -/

namespace Project

/-- The tables of types and packages are those of the project's units. -/
def UpToDate (project : Project) (sources : Table Nat SourceFile) : Prop :=
  project.refresh sources = project

/-- **The units of a project** depend on the parsed forms of its own units only. -/
theorem parsedUnits_congr {project : Project} {sources sources' : Table Nat SourceFile}
    (h : ∀ path file, project.file? path = some file → project.isCompilationUnit path = true →
      sources.get? file.index = sources'.get? file.index) :
    project.parsedUnits sources = project.parsedUnits sources' := by
  unfold parsedUnits
  apply List.filterMap_congr
  rintro ⟨path, file⟩ hmem
  obtain ⟨hentry, hunit⟩ := List.mem_filter.1 hmem
  exact h path file (Table.mem_entries_iff.1 hentry) hunit

/-- A file is a parsed unit iff it is the parsed form of the file at the path of a unit. -/
theorem mem_parsedUnits_iff {project : Project} {sources : Table Nat SourceFile}
    {source : SourceFile} :
    source ∈ project.parsedUnits sources ↔ ∃ path file, project.file? path = some file ∧
      project.isCompilationUnit path = true ∧ sources.get? file.index = some source := by
  unfold parsedUnits compilationUnits
  simp only [List.mem_filterMap, List.mem_filter]
  constructor
  · rintro ⟨⟨path, file⟩, ⟨hmem, hunit⟩, hsource⟩
    exact ⟨path, file, Table.mem_entries_iff.1 hmem, hunit, hsource⟩
  · rintro ⟨path, file, hfile, hunit, hsource⟩
    exact ⟨(path, file), ⟨Table.mem_entries_iff.2 hfile, hunit⟩, hsource⟩

/-- A refreshed project is up to date. -/
theorem upToDate_refresh (project : Project) (sources : Table Nat SourceFile) :
    (project.refresh sources).UpToDate sources := rfl

theorem UpToDate.congr {project : Project} {sources sources' : Table Nat SourceFile}
    (h : project.UpToDate sources)
    (hsame : ∀ path file, project.file? path = some file → project.isCompilationUnit path = true →
      sources.get? file.index = sources'.get? file.index) :
    project.UpToDate sources' := by
  unfold UpToDate refresh at h ⊢
  rw [← parsedUnits_congr hsame]
  exact h

end Project

namespace Workspace

variable {ws : Workspace}

/-- The file at a path of a project. -/
def fileAt? (ws : Workspace) (name path : String) : Option FileId :=
  (ws.project? name).bind (·.file? path)

/-- Whether a path of a project is that of a compilation unit. -/
def isUnitAt (ws : Workspace) (name path : String) : Bool :=
  (ws.project? name).any (·.isCompilationUnit path)

theorem fileAt?_of_project {name : String} {project : Project} (h : ws.project? name = some project)
    (path : String) : ws.fileAt? name path = project.file? path := by
  simp [fileAt?, h]

theorem isUnitAt_of_project {name : String} {project : Project}
    (h : ws.project? name = some project) (path : String) :
    ws.isUnitAt name path = project.isCompilationUnit path := by
  simp [isUnitAt, h]

theorem requireProject_eq_ok_iff {name : String} {project : Project} :
    ws.requireProject name = .ok project ↔ ws.project? name = some project := by
  unfold requireProject
  cases ws.project? name with
  | none => simp
  | some found => simp

/-- The tables of files agree with each other. -/
structure FilesInStep (ws : Workspace) : Prop where
  project_name : ∀ {name project}, ws.project? name = some project →
    project.name = name ∧ IsProjectName name
  file_path : ∀ {name path file}, ws.fileAt? name path = some file → IsFilePath path
  file_lt : ∀ {name path file}, ws.fileAt? name path = some file → file.index < ws.ids.nextFile
  file_unique : ∀ {name name' path path' file}, ws.fileAt? name path = some file →
    ws.fileAt? name' path' = some file → name = name' ∧ path = path'
  contents_iff : ∀ {index}, (∃ text, ws.contents.get? index = some text) ↔
    ∃ name path, ws.fileAt? name path = some ⟨index⟩
  source_iff : ∀ {index source}, ws.sources.get? index = some source ↔
    ∃ name path text, ws.fileAt? name path = some ⟨index⟩ ∧ ws.isUnitAt name path = true ∧
      ws.contents.get? index = some text ∧ source = .ofText ⟨index⟩ name path text
  upToDate : ∀ {name project}, ws.project? name = some project → project.UpToDate ws.sources

/-- The tables of archives and variables agree with each other, and every archive was compiled from
texts that parse. -/
structure ArchivesInStep (ws : Workspace) : Prop where
  archive_path : ∀ {path archive}, (path, archive) ∈ ws.archives.entries → archive.path = path
  archive_lt : ∀ {path archive}, (path, archive) ∈ ws.archives.entries →
    archive.id.index < ws.ids.nextArchive
  archive_nodup : ws.archives.entries.Pairwise fun a b => a.1 ≠ b.1 ∧ a.2.id ≠ b.2.id
  archive_compiled : ∀ {path archive}, (path, archive) ∈ ws.archives.entries →
    ∃ units, (∀ unit ∈ units, ∃ text, parse text = .ok unit) ∧
      archive = .ofUnits archive.id path units archive.module
  var_registered : ∀ {name path}, ws.vars.get? name = some path →
    ∃ archive, ws.archives.get? path = some archive

/-! ## Projects come, change and go -/

theorem filesInStep_initial : initial.FilesInStep where
  project_name h := by simp [initial, project?] at h
  file_path h := by simp [initial, fileAt?, project?] at h
  file_lt h := by simp [initial, fileAt?, project?] at h
  file_unique h := by simp [initial, fileAt?, project?] at h
  contents_iff := by simp [initial, fileAt?, project?]
  source_iff := by simp [initial, fileAt?, project?]
  upToDate h := by simp [initial, project?] at h

/-- Files are in step when no file, text or parsed form changes. What changes of projects keeps
their names and leaves them up to date. -/
theorem FilesInStep.of_sameFiles {ws' : Workspace} (h : ws.FilesInStep)
    (hids : ws'.ids.nextFile = ws.ids.nextFile) (hcontents : ws'.contents = ws.contents)
    (hsources : ws'.sources = ws.sources)
    (hfile : ∀ name path, ws'.fileAt? name path = ws.fileAt? name path)
    (hunit : ∀ {name path file}, ws.fileAt? name path = some file →
      ws'.isUnitAt name path = ws.isUnitAt name path)
    (hproject : ∀ {name project}, ws'.project? name = some project →
      (project.name = name ∧ IsProjectName name) ∧ project.UpToDate ws.sources) :
    ws'.FilesInStep where
  project_name hp := (hproject hp).1
  file_path hf := h.file_path (hfile _ _ ▸ hf)
  file_lt hf := hids ▸ h.file_lt (hfile _ _ ▸ hf)
  file_unique hf hf' := h.file_unique (hfile _ _ ▸ hf) (hfile _ _ ▸ hf')
  contents_iff := by
    simp only [hfile, hcontents]
    exact h.contents_iff
  source_iff := by
    intro index source
    rw [hsources, h.source_iff, hcontents]
    constructor
    · rintro ⟨name, path, text, hf, hu, ht, hs⟩
      exact ⟨name, path, text, hfile _ _ ▸ hf, hunit hf ▸ hu, ht, hs⟩
    · rintro ⟨name, path, text, hf, hu, ht, hs⟩
      rw [hfile] at hf
      exact ⟨name, path, text, hf, hunit hf ▸ hu, ht, hs⟩
  upToDate hp := hsources ▸ (hproject hp).2

/-- Files are in step whatever happens to archives, variables and their numbers. -/
theorem FilesInStep.congr {ws' : Workspace} (h : ws.FilesInStep)
    (hids : ws'.ids.nextFile = ws.ids.nextFile) (hprojects : ws'.projects = ws.projects)
    (hcontents : ws'.contents = ws.contents) (hsources : ws'.sources = ws.sources) :
    ws'.FilesInStep := by
  have hproject : ∀ name, ws'.project? name = ws.project? name := by
    intro name
    rw [project?, hprojects, project?]
  refine h.of_sameFiles hids hcontents hsources ?_ ?_ ?_
  · intro name path
    rw [fileAt?, hproject, fileAt?]
  · intro name path _ _
    rw [isUnitAt, hproject, isUnitAt]
  · intro name project hp
    rw [hproject] at hp
    exact ⟨h.project_name hp, h.upToDate hp⟩

/-- What `createProject` does when it succeeds. -/
theorem createProject_ok {config : ProjectConfig} {id : ProjectId} {next : Workspace}
    (h : ws.createProject config = .ok (id, next)) :
    IsProjectName config.name ∧ ws.project? config.name = none ∧ next = { ws with
      ids := ws.ids.project.2
      projects := ws.projects.insert config.name (.ofConfig ws.ids.project.1 config) } := by
  unfold createProject at h
  split at h
  · simp at h
  · rename_i hname
    split at h
    · simp at h
    · rename_i hnew
      simp only [Except.ok.injEq, Prod.mk.injEq] at h
      obtain ⟨-, rfl⟩ := h
      rw [not_or] at hname
      refine ⟨⟨hname.1, hname.2⟩, ?_, rfl⟩
      simpa [Table.contains, project?] using hnew

theorem FilesInStep.createProject (h : ws.FilesInStep) {config : ProjectConfig} {id : ProjectId}
    {next : Workspace} (hok : ws.createProject config = .ok (id, next)) : next.FilesInStep := by
  obtain ⟨hname, hnew, rfl⟩ := createProject_ok hok
  set created : Project := .ofConfig ws.ids.project.1 config with hcreated
  set next : Workspace := { ws with
    ids := ws.ids.project.2, projects := ws.projects.insert config.name created } with hnext
  have hproject : ∀ name, next.project? name =
      if name = config.name then some created else ws.project? name :=
    fun name => Table.get?_insert _ _ _ _
  have hfile : ∀ name path, next.fileAt? name path = ws.fileAt? name path := by
    intro name path
    unfold fileAt?
    rw [hproject]
    by_cases heq : name = config.name
    · subst heq
      rw [hnew]
      simp [hcreated, Project.ofConfig, Project.file?]
    · simp [heq]
  have hunit : ∀ {name path file}, ws.fileAt? name path = some file →
      next.isUnitAt name path = ws.isUnitAt name path := by
    intro name path file hf
    unfold isUnitAt
    rw [hproject, if_neg]
    rintro rfl
    simp [fileAt?, hnew] at hf
  refine h.of_sameFiles rfl rfl rfl hfile hunit ?_
  intro name project hp
  rw [hproject] at hp
  split at hp
  next heq =>
    obtain rfl := Option.some.inj hp
    exact ⟨⟨heq.symm, heq ▸ hname⟩, rfl⟩
  next => exact ⟨h.project_name hp, h.upToDate hp⟩

/-- What `deleteProject` does when it succeeds. -/
theorem deleteProject_ok {name : String} {next : Workspace}
    (h : ws.deleteProject name = .ok next) :
    ∃ project, ws.project? name = some project ∧ next = { ws with
      projects := ws.projects.erase name
      contents := (project.files.values.map (·.index)).foldl (·.erase ·) ws.contents
      sources := (project.files.values.map (·.index)).foldl (·.erase ·) ws.sources } := by
  obtain ⟨project, hproject, h⟩ := bind_eq_ok_iff.1 h
  exact ⟨project, requireProject_eq_ok_iff.1 hproject, (Except.ok.inj h).symm⟩

theorem FilesInStep.deleteProject (h : ws.FilesInStep) {name : String} {next : Workspace}
    (hok : ws.deleteProject name = .ok next) : next.FilesInStep := by
  obtain ⟨project, hproject, rfl⟩ := deleteProject_ok hok
  set gone := project.files.values.map (·.index) with hgone
  set next : Workspace := { ws with
    projects := ws.projects.erase name
    contents := gone.foldl (·.erase ·) ws.contents
    sources := gone.foldl (·.erase ·) ws.sources } with hnext
  have hprojects : ∀ other, next.project? other =
      if other = name then none else ws.project? other :=
    fun other => Table.get?_erase _ _ _
  have hmem : ∀ index, index ∈ gone ↔ ∃ path, ws.fileAt? name path = some ⟨index⟩ := by
    intro index
    simp only [hgone, List.mem_map, Table.mem_values_iff, fileAt?_of_project hproject]
    constructor
    · rintro ⟨file, ⟨path, hf⟩, rfl⟩
      exact ⟨path, hf⟩
    · rintro ⟨path, hf⟩
      exact ⟨⟨index⟩, ⟨path, hf⟩, rfl⟩
  have hfile : ∀ other path, next.fileAt? other path =
      if other = name then none else ws.fileAt? other path := by
    intro other path
    unfold fileAt?
    rw [hprojects]
    split <;> rfl
  have hunit : ∀ other path, next.isUnitAt other path =
      if other = name then false else ws.isUnitAt other path := by
    intro other path
    unfold isUnitAt
    rw [hprojects]
    split <;> rfl
  -- the files of other projects are those that stay
  have hstays : ∀ {other path index}, ws.fileAt? other path = some ⟨index⟩ →
      (index ∈ gone ↔ other = name) := by
    intro other path index hf
    rw [hmem]
    constructor
    · rintro ⟨path', hf'⟩
      exact (h.file_unique hf hf').1
    · rintro rfl
      exact ⟨path, hf⟩
  exact {
    project_name := by
      intro other found hp
      rw [hprojects] at hp
      split at hp
      · simp at hp
      · exact h.project_name hp
    file_path := by
      intro other path file hf
      rw [hfile] at hf
      split at hf
      · simp at hf
      · exact h.file_path hf
    file_lt := by
      intro other path file hf
      rw [hfile] at hf
      split at hf
      · simp at hf
      · exact h.file_lt hf
    file_unique := by
      intro other other' path path' file hf hf'
      rw [hfile] at hf hf'
      split at hf
      · simp at hf
      · split at hf'
        · simp at hf'
        · exact h.file_unique hf hf'
    contents_iff := by
      intro index
      rw [show next.contents = gone.foldl (·.erase ·) ws.contents from rfl]
      simp only [Table.get?_foldl_erase, hfile]
      constructor
      · rintro ⟨text, ht⟩
        split at ht
        · simp at ht
        · rename_i hnot
          obtain ⟨other, path, hf⟩ := h.contents_iff.1 ⟨text, ht⟩
          exact ⟨other, path, by rw [if_neg fun heq => hnot ((hstays hf).2 heq), hf]⟩
      · rintro ⟨other, path, hf⟩
        split at hf
        · simp at hf
        · rename_i hne
          obtain ⟨text, ht⟩ := h.contents_iff.2 ⟨other, path, hf⟩
          exact ⟨text, by rw [if_neg fun hin => hne ((hstays hf).1 hin), ht]⟩
    source_iff := by
      intro index source
      rw [show next.contents = gone.foldl (·.erase ·) ws.contents from rfl,
        show next.sources = gone.foldl (·.erase ·) ws.sources from rfl]
      simp only [Table.get?_foldl_erase, hfile, hunit]
      constructor
      · intro hs
        split at hs
        · simp at hs
        · rename_i hnot
          obtain ⟨other, path, text, hf, hu, ht, rfl⟩ := h.source_iff.1 hs
          have hne : other ≠ name := fun heq => hnot ((hstays hf).2 heq)
          exact ⟨other, path, text, by simp [hne, hf], by simp [hne, hu], by simp [hnot, ht], rfl⟩
      · rintro ⟨other, path, text, hf, hu, ht, rfl⟩
        split at hf
        · simp at hf
        · rename_i hne
          have hnot : index ∉ gone := fun hin => hne ((hstays hf).1 hin)
          rw [if_neg hnot] at ht ⊢
          rw [if_neg hne] at hu
          exact h.source_iff.2 ⟨other, path, text, hf, hu, ht, rfl⟩
    upToDate := by
      intro other found hp
      rw [hprojects] at hp
      split at hp
      · simp at hp
      · rename_i hne
        refine (h.upToDate hp).congr fun path file hf _ => ?_
        have hf' : ws.fileAt? other path = some ⟨file.index⟩ := by
          rw [fileAt?_of_project hp, hf]
        have hnot : file.index ∉ gone := fun hin => hne ((hstays hf').1 hin)
        rw [show next.sources = gone.foldl (·.erase ·) ws.sources from rfl,
          Table.get?_foldl_erase, if_neg hnot] }

/-! ## Folders and files -/

/-- Folders are in no table by number. -/
theorem FilesInStep.setFolders (h : ws.FilesInStep) {name : String} {project : Project}
    (hproject : ws.project? name = some project) (folders : Table String Unit) :
    ({ ws with projects := ws.projects.insert name { project with folders := folders } } :
      Workspace).FilesInStep := by
  set next : Workspace :=
    { ws with projects := ws.projects.insert name { project with folders := folders } } with hnext
  have hprojects : ∀ other, next.project? other =
      if other = name then some { project with folders := folders } else ws.project? other :=
    fun other => Table.get?_insert _ _ _ _
  have hfile : ∀ other path, next.fileAt? other path = ws.fileAt? other path := by
    intro other path
    unfold fileAt?
    rw [hprojects]
    split
    next heq => rw [heq, hproject]; rfl
    next => rfl
  have hunit : ∀ other path, next.isUnitAt other path = ws.isUnitAt other path := by
    intro other path
    unfold isUnitAt
    rw [hprojects]
    split
    next heq => rw [heq, hproject]; rfl
    next => rfl
  refine h.of_sameFiles rfl rfl rfl hfile (fun _ => hunit _ _) ?_
  intro other found hp
  rw [hprojects] at hp
  split at hp
  next heq =>
    obtain rfl := Option.some.inj hp
    subst heq
    have hname : { project with folders := folders }.name = other := (h.project_name hproject).1
    have hold := h.upToDate hproject
    refine ⟨⟨hname, (h.project_name hproject).2⟩, ?_⟩
    unfold Project.UpToDate at hold ⊢
    rw [← hold]
    rfl
  next => exact ⟨h.project_name hp, h.upToDate hp⟩

/-- `next` is `ws` but for one file, which has the given text from now on, or is gone. -/
structure Touches (ws next : Workspace) (project : Project) (rel : String) (file : FileId)
    (text? : Option String) : Prop where
  project_eq : ws.project? project.name = some project
  only_here : ∀ {name path}, ws.fileAt? name path = some file → name = project.name ∧ path = rel
  only_this : ∀ {other}, project.file? rel = some other → other = file
  path_ok : text?.isSome → IsFilePath rel
  file_lt : text?.isSome → file.index < next.ids.nextFile
  next_le : ws.ids.nextFile ≤ next.ids.nextFile
  projects : ∀ name, next.project? name = if name = project.name then
    some ({ project with files := match text? with
      | some _ => project.files.insert rel file
      | none => project.files.erase rel }.refresh next.sources) else ws.project? name
  contents : ∀ index, next.contents.get? index =
    if index = file.index then text? else ws.contents.get? index
  sources : ∀ index, next.sources.get? index =
    if index = file.index then
      text?.bind fun text =>
        if project.isCompilationUnit rel then some (.ofText file project.name rel text) else none
    else ws.sources.get? index

namespace Touches

variable {next : Workspace} {project : Project} {rel : String} {file : FileId}
  {text? : Option String}

theorem fileAt? (t : Touches ws next project rel file text?) (name path : String) :
    next.fileAt? name path = if name = project.name ∧ path = rel then text?.map fun _ => file
      else ws.fileAt? name path := by
  rw [Workspace.fileAt?, t.projects]
  by_cases hname : name = project.name
  · subst hname
    rw [if_pos rfl, fileAt?_of_project t.project_eq, Option.bind_some]
    unfold Project.file? Project.refresh
    cases text? with
    | none =>
      rw [Table.get?_erase]
      by_cases hpath : path = rel <;> simp [hpath]
    | some text =>
      rw [Table.get?_insert]
      by_cases hpath : path = rel <;> simp [hpath]
  · simp [hname, Workspace.fileAt?]

theorem isUnitAt (t : Touches ws next project rel file text?) (name path : String) :
    next.isUnitAt name path = ws.isUnitAt name path := by
  rw [Workspace.isUnitAt, t.projects]
  by_cases hname : name = project.name
  · subst hname
    rw [if_pos rfl, isUnitAt_of_project t.project_eq]
    rfl
  · simp [hname, Workspace.isUnitAt]

/-- Files elsewhere are other files. -/
theorem index_ne (t : Touches ws next project rel file text?) {name path : String} {index : Nat}
    (hf : ws.fileAt? name path = some ⟨index⟩) (helse : ¬(name = project.name ∧ path = rel)) :
    index ≠ file.index := by
  rintro rfl
  exact helse (t.only_here hf)

/-- **A change of one file keeps the tables in step.** -/
theorem filesInStep (t : Touches ws next project rel file text?) (h : ws.FilesInStep) :
    next.FilesInStep where
  project_name := by
    intro name found hp
    rw [t.projects] at hp
    split at hp
    next heq =>
      obtain rfl := Option.some.inj hp
      exact ⟨heq.symm, heq ▸ (h.project_name t.project_eq).2⟩
    next => exact h.project_name hp
  file_path := by
    intro name path found hf
    rw [t.fileAt?] at hf
    split at hf
    next heq =>
      obtain ⟨text, ht, -⟩ := Option.map_eq_some_iff.1 hf
      exact heq.2 ▸ t.path_ok (by rw [ht]; rfl)
    next => exact h.file_path hf
  file_lt := by
    intro name path found hf
    rw [t.fileAt?] at hf
    split at hf
    next =>
      obtain ⟨text, ht, rfl⟩ := Option.map_eq_some_iff.1 hf
      exact t.file_lt (by rw [ht]; rfl)
    next => exact Nat.lt_of_lt_of_le (h.file_lt hf) t.next_le
  file_unique := by
    intro name name' path path' found hf hf'
    rw [t.fileAt?] at hf hf'
    split at hf
    next heq =>
      split at hf'
      next heq' => exact ⟨heq.1.trans heq'.1.symm, heq.2.trans heq'.2.symm⟩
      next helse =>
        obtain ⟨-, -, rfl⟩ := Option.map_eq_some_iff.1 hf
        exact absurd (t.only_here hf') helse
    next helse =>
      split at hf'
      next =>
        obtain ⟨-, -, rfl⟩ := Option.map_eq_some_iff.1 hf'
        exact absurd (t.only_here hf) helse
      next => exact h.file_unique hf hf'
  contents_iff := by
    intro index
    rw [t.contents]
    constructor
    · rintro ⟨text, ht⟩
      split at ht
      next heq =>
        refine ⟨project.name, rel, ?_⟩
        rw [t.fileAt?, if_pos ⟨rfl, rfl⟩, ht, heq]
        rfl
      next hne =>
        obtain ⟨name, path, hf⟩ := h.contents_iff.1 ⟨text, ht⟩
        refine ⟨name, path, ?_⟩
        rw [t.fileAt?, if_neg, hf]
        rintro ⟨rfl, rfl⟩
        rw [fileAt?_of_project t.project_eq] at hf
        exact hne (congrArg FileId.index (t.only_this hf))
    · rintro ⟨name, path, hf⟩
      rw [t.fileAt?] at hf
      split at hf
      next =>
        obtain ⟨text, ht, heq⟩ := Option.map_eq_some_iff.1 hf
        exact ⟨text, by rw [if_pos (congrArg FileId.index heq).symm, ht]⟩
      next helse =>
        rw [if_neg (t.index_ne hf helse)]
        exact h.contents_iff.2 ⟨name, path, hf⟩
  source_iff := by
    intro index source
    rw [t.sources]
    simp only [t.isUnitAt, t.contents, t.fileAt?]
    constructor
    · intro hs
      split at hs
      next heq =>
        obtain ⟨text, ht, hs⟩ := Option.bind_eq_some_iff.1 hs
        split at hs
        next hu =>
          obtain rfl := Option.some.inj hs
          refine ⟨project.name, rel, text, ?_, ?_, ?_, ?_⟩
          · rw [if_pos ⟨rfl, rfl⟩, ht, heq]
            rfl
          · rw [isUnitAt_of_project t.project_eq, hu]
          · rw [if_pos heq, ht]
          · rw [heq]
        next => simp at hs
      next hne =>
        obtain ⟨name, path, text, hf, hu, ht, rfl⟩ := h.source_iff.1 hs
        refine ⟨name, path, text, ?_, hu, by rw [if_neg hne, ht], rfl⟩
        rw [if_neg, hf]
        rintro ⟨rfl, rfl⟩
        rw [fileAt?_of_project t.project_eq] at hf
        exact hne (congrArg FileId.index (t.only_this hf))
    · rintro ⟨name, path, text, hf, hu, ht, rfl⟩
      split at hf
      next heq =>
        obtain ⟨-, -, hindex⟩ := Option.map_eq_some_iff.1 hf
        have hi : index = file.index := (congrArg FileId.index hindex).symm
        rw [if_pos hi] at ht ⊢
        rw [heq.1, heq.2, isUnitAt_of_project t.project_eq] at hu
        rw [ht, Option.bind_some, if_pos hu, heq.1, heq.2, hindex]
      next helse =>
        have hi := t.index_ne hf helse
        rw [if_neg hi] at ht ⊢
        exact h.source_iff.2 ⟨name, path, text, hf, hu, ht, rfl⟩
  upToDate := by
    intro name found hp
    rw [t.projects] at hp
    split at hp
    next =>
      obtain rfl := Option.some.inj hp
      exact Project.upToDate_refresh _ _
    next hne =>
      refine (h.upToDate hp).congr fun path other hf _ => ?_
      have hf' : ws.fileAt? name path = some ⟨other.index⟩ := by
        rw [fileAt?_of_project hp, hf]
      rw [t.sources, if_neg (t.index_ne hf' fun heq => hne heq.1)]

end Touches

/-- A project that is refreshed in place. -/
theorem project?_refreshProject (ws : Workspace) (name other : String) :
    (ws.refreshProject name).project? other =
      if other = name then (ws.project? name).map (·.refresh ws.sources) else ws.project? other :=
  Table.get?_modify _ _ _ _

/-- A new file takes the next number. -/
theorem touches_addFile (h : ws.FilesInStep) {project : Project} {rel text : String}
    (hproject : ws.project? project.name = some project) (hnew : project.file? rel = none)
    (hrel : IsFilePath rel) :
    Touches ws (ws.addFile project rel text).2 project rel ⟨ws.ids.nextFile⟩ (some text) where
  project_eq := hproject
  only_here hf := absurd (h.file_lt hf) (Nat.lt_irrefl _)
  only_this hf := by
    rw [hnew] at hf
    cases hf
  path_ok _ := hrel
  file_lt _ := Nat.lt_succ_self _
  next_le := Nat.le_succ _
  projects name := by
    unfold addFile
    dsimp only
    rw [project?_refreshProject]
    simp only [writeFile, project?, Table.get?_insert]
    split <;> rfl
  contents index := by
    unfold addFile
    exact Table.get?_insert _ _ _ _
  sources index := by
    have hfresh : ws.sources.get? ws.ids.nextFile = none := by
      by_contra hsome
      obtain ⟨source, hs⟩ := Option.ne_none_iff_exists'.1 hsome
      obtain ⟨name, path, text, hf, -⟩ := h.source_iff.1 hs
      exact absurd (h.file_lt hf) (Nat.lt_irrefl _)
    show (if project.isCompilationUnit rel then
      ws.sources.insert ws.ids.nextFile (.ofText ⟨ws.ids.nextFile⟩ project.name rel text)
      else ws.sources).get? index = _
    rw [Option.bind_some]
    by_cases hunit : project.isCompilationUnit rel
    · rw [if_pos hunit, if_pos hunit, Table.get?_insert]
    · rw [if_neg hunit, if_neg hunit]
      split
      next heq => rw [heq, hfresh]
      next => rfl

/-- **A new file** keeps the tables in step. -/
theorem FilesInStep.addFile (h : ws.FilesInStep) {project : Project} {rel text : String}
    (hproject : ws.project? project.name = some project) (hnew : project.file? rel = none)
    (hrel : IsFilePath rel) : (ws.addFile project rel text).2.FilesInStep :=
  (touches_addFile h hproject hnew hrel).filesInStep h

/-- What `createFile` does when it succeeds. -/
theorem createFile_ok {path text : String} {id : FileId} {next : Workspace}
    (h : ws.createFile path text = .ok (id, next)) :
    ∃ name rel project, splitPath path = .ok (name, rel) ∧ rel ≠ "" ∧
      ws.project? name = some project ∧ project.file? rel = none ∧ project.hasFolder rel = false ∧
      project.hasFolder (parentFolder rel) = true ∧ (id, next) = ws.addFile project rel text := by
  obtain ⟨⟨name, rel⟩, hsplit, h⟩ := bind_eq_ok_iff.1 h
  obtain ⟨hrel, h⟩ := guard_eq_ok_iff.1 h
  obtain ⟨project, hproject, h⟩ := bind_eq_ok_iff.1 h
  obtain ⟨hfree, h⟩ := guard_eq_ok_iff.1 h
  obtain ⟨hparent, h⟩ := guard_eq_ok_iff.1 h
  rw [Bool.or_eq_true, not_or, Bool.not_eq_true, Bool.not_eq_true, Option.isSome_eq_false_iff,
    Option.isNone_iff_eq_none] at hfree
  rw [Bool.not_eq_true', Bool.not_eq_false] at hparent
  have hp := requireProject_eq_ok_iff.1 hproject
  exact ⟨name, rel, project, hsplit, hrel, hp, hfree.1, hfree.2, hparent, (Except.ok.inj h).symm⟩

theorem FilesInStep.createFile (h : ws.FilesInStep) {path text : String} {id : FileId}
    {next : Workspace} (hok : ws.createFile path text = .ok (id, next)) : next.FilesInStep := by
  obtain ⟨name, rel, project, hsplit, hrel, hp, hfree, -, -, heq⟩ := createFile_ok hok
  obtain rfl : next = (ws.addFile project rel text).2 := congrArg Prod.snd heq
  have hname := (h.project_name hp).1
  exact h.addFile (hname ▸ hp) hfree ((of_splitPath hsplit).2 hrel)

/-- What `setFile` does when it succeeds. -/
theorem setFile_ok {path text : String} {next : Workspace} (h : ws.setFile path text = .ok next) :
    ∃ name rel project file, splitPath path = .ok (name, rel) ∧
      ws.project? name = some project ∧ project.file? rel = some file ∧
      next = (ws.writeFile project rel file text).refreshProject name := by
  obtain ⟨⟨name, rel⟩, hsplit, h⟩ := bind_eq_ok_iff.1 h
  obtain ⟨project, hproject, h⟩ := bind_eq_ok_iff.1 h
  have hp := requireProject_eq_ok_iff.1 hproject
  cases hfile : project.file? rel with
  | none =>
    rw [hfile] at h
    cases h
  | some file =>
    rw [hfile] at h
    exact ⟨name, rel, project, file, hsplit, hp, hfile, (Except.ok.inj h).symm⟩

/-- The files other than the one at a path have other numbers. -/
theorem FilesInStep.only_here (h : ws.FilesInStep) {project : Project} {rel : String}
    {file : FileId} (hproject : ws.project? project.name = some project)
    (hfile : project.file? rel = some file) {name path : String}
    (hf : ws.fileAt? name path = some file) : name = project.name ∧ path = rel :=
  h.file_unique hf (by rw [fileAt?_of_project hproject, hfile])

/-- A file that gets another text keeps its number. -/
theorem touches_setFile (h : ws.FilesInStep) {project : Project} {rel text : String}
    {file : FileId} (hproject : ws.project? project.name = some project)
    (hfile : project.file? rel = some file) :
    Touches ws ((ws.writeFile project rel file text).refreshProject project.name) project rel file
      (some text) where
  project_eq := hproject
  only_here := h.only_here hproject hfile
  only_this hother := Option.some.inj (hother.symm.trans hfile)
  path_ok _ := h.file_path (by rw [fileAt?_of_project hproject, hfile])
  file_lt _ := h.file_lt (by rw [fileAt?_of_project hproject, hfile])
  next_le := Nat.le_refl _
  projects := by
    intro other
    rw [project?_refreshProject]
    have hsame : (ws.writeFile project rel file text).project? = ws.project? := rfl
    rw [hsame, hproject, Option.map_some]
    simp only [Table.insert_of_get? hfile]
    rfl
  contents index := Table.get?_insert _ _ _ _
  sources := by
    intro index
    show (if project.isCompilationUnit rel then
      ws.sources.insert file.index (.ofText file project.name rel text)
      else ws.sources).get? index = _
    rw [Option.bind_some]
    by_cases hunit : project.isCompilationUnit rel
    · rw [if_pos hunit, if_pos hunit, Table.get?_insert]
    · rw [if_neg hunit, if_neg hunit]
      split
      next heq =>
        subst heq
        by_contra hsome
        obtain ⟨source, hs⟩ := Option.ne_none_iff_exists'.1 hsome
        obtain ⟨other, path, text, hf, hu, -⟩ := h.source_iff.1 hs
        obtain ⟨rfl, rfl⟩ := h.only_here hproject hfile hf
        rw [isUnitAt_of_project hproject] at hu
        exact hunit hu
      next => rfl

theorem FilesInStep.setFile (h : ws.FilesInStep) {path text : String} {next : Workspace}
    (hok : ws.setFile path text = .ok next) : next.FilesInStep := by
  obtain ⟨name, rel, project, file, -, hp, hfile, rfl⟩ := setFile_ok hok
  obtain rfl := (h.project_name hp).1
  exact (touches_setFile h hp hfile).filesInStep h

end Workspace

end SourceSearch
