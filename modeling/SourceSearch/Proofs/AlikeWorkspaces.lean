import SourceSearch.Proofs.DeclaredTypes
import SourceSearch.Proofs.FileNumbers
import SourceSearch.Proofs.RenamedWorkspace

/-!
# Workspaces that look alike

Two workspaces are alike if they show the same projects, with the same configurations, folders, paths
and texts, the same archives in the same order, and the same variables (`Workspace.Alike`). Numbers
are left out of the comparison, so alike workspaces may come from quite different edits.

Two reachable workspaces that are alike differ in numbers only: the archives have even the same
numbers, since these are given out in the order of registration
(`archivesNumbered_afterAll`), and files at the same places correspond (`Alike.renamedBy`).
-/

set_option autoImplicit false

namespace SourceSearch

/-! ## What is compared -/

/-- A project without numbers: its configuration, its folders, and its files with their texts. -/
structure ProjectView where
  config : ProjectConfig
  folders : List String
  files : List (String × Option String)
  deriving DecidableEq

/-- The view of a project whose files have these texts. -/
def Project.view (contents : Table Nat String) (project : Project) : ProjectView :=
  ⟨project.configAs project.name, project.folders.keys,
    project.files.entries.map fun e => (e.1, contents.get? e.2.index)⟩

/-- The archive under another number. -/
def Archive.numbered (id : ArchiveId) (archive : Archive) : Archive :=
  { archive with
    id := id
    types := archive.types.map fun info =>
      { info with key := { info.key with origin := .archive id } } }

/-- The projects of a workspace without numbers, by name. -/
def Workspace.projectViews (ws : Workspace) : List (String × ProjectView) :=
  ws.projects.entries.map fun e => (e.1, e.2.view ws.contents)

/-- The workspaces show the same projects, archives and variables. -/
structure Workspace.Alike (ws ws' : Workspace) : Prop where
  projects : ws'.projectViews = ws.projectViews
  archives : ws'.archives.values.map (·.numbered ⟨0⟩) = ws.archives.values.map (·.numbered ⟨0⟩)
  vars : ∀ name, ws'.vars.get? name = ws.vars.get? name

/-- Tables with the same entries are the same. -/
theorem Table.ext_entries {κ α : Type} [LT κ] {table other : Table κ α}
    (h : table.entries = other.entries) : table = other := by
  cases table
  cases other
  congr

namespace Workspace

variable {ws next : Workspace}

/-! ## Numbers of archives -/

/-- What an edit does to archives: nothing, or it adds one under the next number. -/
theorem archives_of_apply {edit : Edit} {made : Edit.Made} (hok : ws.apply edit = .ok (made, next)) :
    (next.archives = ws.archives ∧ next.ids.nextArchive = ws.ids.nextArchive) ∨
    ∃ path archive, archive.id = ⟨ws.ids.nextArchive⟩ ∧
      next.archives.entries = ws.archives.entries ++ [(path, archive)] ∧
      next.ids.nextArchive = ws.ids.nextArchive + 1 := by
  have of_same : SameArchives ws next →
      (next.archives = ws.archives ∧ next.ids.nextArchive = ws.ids.nextArchive) ∨
      ∃ path archive, archive.id = ⟨ws.ids.nextArchive⟩ ∧
        next.archives.entries = ws.archives.entries ++ [(path, archive)] ∧
        next.ids.nextArchive = ws.ids.nextArchive + 1 :=
    fun same => Or.inl ⟨same.archives, same.nextArchive⟩
  cases edit with
  | createProject config =>
    obtain ⟨⟨id, after⟩, hedit, hok⟩ := bind_eq_ok_iff.1 hok
    cases hok
    exact of_same (.createProject hedit)
  | deleteProject name =>
    obtain ⟨after, hedit, hok⟩ := bind_eq_ok_iff.1 hok
    cases hok
    exact of_same (.deleteProject hedit)
  | deleteProjects names =>
    obtain ⟨after, hedit, hok⟩ := bind_eq_ok_iff.1 hok
    cases hok
    exact of_same (.deleteProjects hedit)
  | copyProject source target =>
    obtain ⟨⟨id, after⟩, hedit, hok⟩ := bind_eq_ok_iff.1 hok
    cases hok
    exact of_same (.copyProject hedit)
  | createFolder path =>
    obtain ⟨after, hedit, hok⟩ := bind_eq_ok_iff.1 hok
    cases hok
    exact of_same (.createFolder hedit)
  | createFile path text =>
    obtain ⟨⟨id, after⟩, hedit, hok⟩ := bind_eq_ok_iff.1 hok
    cases hok
    exact of_same (.createFile hedit)
  | setFile path text =>
    obtain ⟨after, hedit, hok⟩ := bind_eq_ok_iff.1 hok
    cases hok
    exact of_same (.setFile hedit)
  | deleteFile path =>
    obtain ⟨after, hedit, hok⟩ := bind_eq_ok_iff.1 hok
    cases hok
    exact of_same (.deleteFile hedit)
  | registerArchive path sources module =>
    obtain ⟨⟨id, after⟩, hedit, hok⟩ := bind_eq_ok_iff.1 hok
    cases hok
    obtain ⟨units, -, hnew, rfl, rfl⟩ := registerArchive_ok hedit
    exact Or.inr ⟨path, _, rfl, Register.entries_insert_of_not_contains hnew _, rfl⟩
  | setVariable name path =>
    obtain ⟨after, hedit, hok⟩ := bind_eq_ok_iff.1 hok
    cases hok
    obtain ⟨-, rfl⟩ := setVariable_ok hedit
    exact Or.inl ⟨rfl, rfl⟩

/-- The archives are numbered in the order of their registration. -/
def ArchivesNumbered (ws : Workspace) : Prop :=
  ws.archives.values.map (·.id.index) = List.range ws.ids.nextArchive

/-- **Every edit** numbers archives in order. -/
theorem ArchivesNumbered.after (h : ws.ArchivesNumbered) (edit : Edit) :
    (ws.after edit).ArchivesNumbered := by
  unfold Workspace.after
  split
  next made next hok =>
    unfold ArchivesNumbered Register.values at h ⊢
    rcases archives_of_apply hok with ⟨harchives, hnext⟩ | ⟨path, archive, hid, harchives, hnext⟩
    · rw [harchives, hnext]
      exact h
    · rw [harchives, hnext, List.range_succ, ← h]
      simp [hid]
  next => exact h

theorem archivesNumbered_afterAll (edits : List Edit) :
    (initial.afterAll edits).ArchivesNumbered := by
  have hrun : ∀ (edits : List Edit) (ws : Workspace), ws.ArchivesNumbered →
      (ws.afterAll edits).ArchivesNumbered := by
    intro edits
    induction edits with
    | nil => exact fun ws h => h
    | cons edit edits ih => exact fun ws h => ih _ (h.after edit)
  exact hrun edits initial rfl

/-- An archive is known from what it shows and its number. -/
theorem ArchivesInStep.numbered_numbered (h : ws.ArchivesInStep) {archive : Archive}
    (harchive : archive ∈ ws.archives.values) :
    (archive.numbered ⟨0⟩).numbered archive.id = archive := by
  obtain ⟨path, hmem⟩ : ∃ path, (path, archive) ∈ ws.archives.entries := by
    simpa [Register.values] using harchive
  have htypes : ((archive.numbered ⟨0⟩).numbered archive.id).types = archive.types := by
    simp only [Archive.numbered, List.map_map]
    refine (List.map_congr_left ?_).trans (List.map_id archive.types)
    intro info hinfo
    have horigin := (h.namedIn_archive hmem hinfo).origin_eq
    show { info with key := { info.key with origin := .archive archive.id } } = info
    rw [← horigin]
  exact congrArg (Archive.mk archive.id archive.path archive.module) htypes

/-- **Alike workspaces have the same archives**, numbers included. -/
theorem Alike.archives_eq {ws' : Workspace} (h : ws.Alike ws') (hws : ws.ArchivesInStep)
    (hws' : ws'.ArchivesInStep) (hnumbered : ws.ArchivesNumbered)
    (hnumbered' : ws'.ArchivesNumbered) : ws'.archives.entries = ws.archives.entries := by
  -- the values are made of what they show and of their numbers, and both are the same
  have hmade : ∀ {ws : Workspace}, ws.ArchivesInStep → ws.ArchivesNumbered → ws.archives.values =
      List.zipWith (fun archive index => archive.numbered ⟨index⟩)
        (ws.archives.values.map (·.numbered ⟨0⟩)) (List.range ws.archives.values.length) := by
    intro ws hws hnumbered
    have hlength : ws.archives.values.length = ws.ids.nextArchive := by
      rw [← List.length_range (n := ws.ids.nextArchive), ← hnumbered, List.length_map]
    rw [hlength, ← hnumbered, List.zipWith_map, List.zipWith_self]
    refine (List.map_id _).symm.trans (List.map_congr_left ?_)
    intro archive harchive
    exact (hws.numbered_numbered harchive).symm
  have hlength : ws'.archives.values.length = ws.archives.values.length := by
    have hcount := congrArg List.length h.archives
    rwa [List.length_map, List.length_map] at hcount
  have hvalues : ws'.archives.values = ws.archives.values := by
    rw [hmade hws' hnumbered', h.archives, hlength, ← hmade hws hnumbered]
  have hentries : ∀ {ws : Workspace}, ws.ArchivesInStep →
      ws.archives.entries = ws.archives.values.map fun archive => (archive.path, archive) := by
    intro ws hws
    rw [Register.values, List.map_map]
    refine (List.map_id _).symm.trans (List.map_congr_left ?_)
    rintro ⟨path, archive⟩ hmem
    exact congrArg (·, archive) (hws.archive_path hmem).symm
  rw [hentries hws', hvalues, ← hentries hws]

end Workspace

/-! ## Parsed files under other numbers -/

namespace Renaming

variable (r : Renaming)

/-- The types of a unit at a renamed place. -/
theorem collectTypes_origin (unit : CompilationUnit) (origin : Origin) :
    collectTypes unit (r.origin origin) = (collectTypes unit origin).map r.info := by
  rw [collectTypes_withOrigin unit origin (r.origin origin)]
  refine List.map_congr_left fun info hinfo => ?_
  rw [DeclaredType.withOrigin, ← origin_of_mem_collectTypes hinfo]
  rfl

/-- **A text that is parsed under another number** gives the renamed file. -/
theorem source_ofText (file : FileId) (project path text : String) :
    r.source (.ofText file project path text) = .ofText (r.file file) project path text := by
  unfold SourceFile.ofText
  cases parse text with
  | error e => rfl
  | ok unit => simp [Renaming.source, ← r.collectTypes_origin]

theorem typesOf_map (files : List SourceFile) :
    Project.typesOf (files.map r.source) = (Project.typesOf files).mapValues r.key := by
  have hfold : ∀ (infos : List DeclaredType) (types : Table String TypeKey),
      (infos.map r.info).foldl (fun types info =>
        types.insertIfNew info.key.qualifiedName info.key) (types.mapValues r.key) =
      (infos.foldl (fun types info =>
        types.insertIfNew info.key.qualifiedName info.key) types).mapValues r.key := by
    intro infos types
    rw [List.foldl_map]
    apply List.foldl_hom (Table.mapValues r.key)
    intro types info
    rw [Table.mapValues_insertIfNew]
    rfl
  have hinfos : (files.map r.source).flatMap (·.types) = (files.flatMap (·.types)).map r.info := by
    rw [List.flatMap_map, List.map_flatMap]
    rfl
  rw [Project.typesOf, hinfos, Project.typesOf, ← hfold]
  rfl

theorem packagesOf_map (files : List SourceFile) :
    Project.packagesOf (files.map r.source) = Project.packagesOf files := by
  simp only [Project.packagesOf, List.filter_map, List.flatMap_map]
  rfl

end Renaming

/-! ## Files at the same places -/

namespace Workspace

variable {ws ws' : Workspace}

/-- The parsed form of a file is made of its text, if it is a compilation unit. -/
theorem FilesInStep.source?_of_fileAt? (h : ws.FilesInStep) {name path : String} {file : FileId}
    (hf : ws.fileAt? name path = some file) :
    ws.source? file = if ws.isUnitAt name path then
      (ws.contents.get? file.index).map (.ofText file name path) else none := by
  obtain ⟨text, htext⟩ := h.contents_iff.2 ⟨name, path, hf⟩
  rw [htext]
  split
  next hunit => exact h.source_iff.2 ⟨name, path, text, hf, hunit, htext, rfl⟩
  next hunit =>
    by_contra hsome
    obtain ⟨source, hs⟩ := Option.ne_none_iff_exists'.1 hsome
    obtain ⟨name', path', text', hf', hunit', -⟩ := h.source_iff.1 hs
    obtain ⟨rfl, rfl⟩ := h.file_unique hf hf'
    exact hunit hunit'

theorem FilesInStep.source?_of_not_hasFile (h : ws.FilesInStep) {file : FileId}
    (hgone : ¬ws.HasFile file) : ws.source? file = none := by
  by_contra hsome
  obtain ⟨source, hs⟩ := Option.ne_none_iff_exists'.1 hsome
  obtain ⟨name, path, text, hf, -⟩ := h.source_iff.1 hs
  exact hgone ⟨name, path, hf⟩

namespace Alike

/-- Projects of the same name have the same view. -/
theorem project? (h : ws.Alike ws') (name : String) :
    (ws'.project? name).map (·.view ws'.contents) =
      (ws.project? name).map (·.view ws.contents) := by
  have htables : ws'.projects.mapValues (·.view ws'.contents) =
      ws.projects.mapValues (·.view ws.contents) := Table.ext_entries h.projects
  have hget := congrArg (Table.get? · name) htables
  rwa [Table.get?_mapValues, Table.get?_mapValues] at hget

/-- At each place the workspaces have a file with the same text, or none. -/
theorem textAt? (h : ws.Alike ws') (name path : String) :
    (ws'.fileAt? name path).map (fun file => ws'.contents.get? file.index) =
      (ws.fileAt? name path).map fun file => ws.contents.get? file.index := by
  have hproject := h.project? name
  unfold fileAt?
  cases hold : ws.project? name with
  | none =>
    rw [hold, Option.map_none, Option.map_eq_none_iff] at hproject
    rw [hproject]
    rfl
  | some project =>
    rw [hold] at hproject
    obtain ⟨project', hnew, hview⟩ := Option.map_eq_some_iff.1 hproject
    have hfiles : project'.files.mapValues (fun file => ws'.contents.get? file.index) =
        project.files.mapValues fun file => ws.contents.get? file.index :=
      Table.ext_entries (congrArg ProjectView.files hview)
    have hget := congrArg (Table.get? · path) hfiles
    rw [Table.get?_mapValues, Table.get?_mapValues] at hget
    rw [hnew]
    exact hget

/-- A path is that of a compilation unit in both workspaces or in none. -/
theorem isUnitAt (h : ws.Alike ws') (name path : String) :
    ws'.isUnitAt name path = ws.isUnitAt name path := by
  have hproject := congrArg (Option.any (fun view : ProjectView =>
    ".java".toList.isSuffixOf path.toList && view.config.sourceFolders.any fun folder =>
      folder == "" || (folder ++ "/").toList.isPrefixOf path.toList)) (h.project? name)
  rw [Option.any_map, Option.any_map] at hproject
  exact hproject

end Alike

/-! ## The renaming -/

/-- The place of a file. -/
def placeOf? (ws : Workspace) (file : FileId) : Option (String × String) :=
  (ws.projects.entries.flatMap fun e => e.2.files.keys.map fun path => (e.1, path)).find?
    fun place => ws.fileAt? place.1 place.2 = some file

theorem FilesInStep.placeOf?_eq_some_iff (h : ws.FilesInStep) {name path : String}
    {file : FileId} : ws.placeOf? file = some (name, path) ↔ ws.fileAt? name path = some file := by
  constructor
  · intro hplace
    simpa using List.find?_some hplace
  · intro hf
    cases hplace : ws.placeOf? file with
    | none =>
      obtain ⟨project, hproject, hpath⟩ := Option.bind_eq_some_iff.1 hf
      have hlisted : (name, path) ∈ ws.projects.entries.flatMap fun e =>
          e.2.files.keys.map fun path => (e.1, path) :=
        List.mem_flatMap.2 ⟨(name, project), Table.mem_entries_iff.2 hproject,
          List.mem_map_of_mem (Table.mem_keys_iff.2 ⟨file, hpath⟩)⟩
      simpa [hf] using List.find?_eq_none.1 hplace _ hlisted
    | some place =>
      have hfound : ws.fileAt? place.1 place.2 = some file := by
        simpa using List.find?_some hplace
      obtain ⟨hname, hpath⟩ := h.file_unique hfound hf
      rw [← hname, ← hpath]

/-- The number at the same place in the other workspace; files that are not there get numbers which
the other workspace has not given out. -/
def numberIn (ws ws' : Workspace) (file : FileId) : FileId :=
  ((ws.placeOf? file).bind fun place => ws'.fileAt? place.1 place.2).getD
    ⟨ws'.ids.nextFile + file.index⟩

theorem numberIn_of_fileAt? (h : ws.FilesInStep) {name path : String} {file file' : FileId}
    (hf : ws.fileAt? name path = some file) (hf' : ws'.fileAt? name path = some file') :
    ws.numberIn ws' file = file' := by
  rw [numberIn, h.placeOf?_eq_some_iff.2 hf, Option.bind_some, hf', Option.getD_some]

/-- A number is that of the file at the same place, or it is larger than all that were given out. -/
theorem numberIn_cases (h : ws.FilesInStep) (file : FileId) :
    (∃ name path, ws.fileAt? name path = some file ∧
      ws'.fileAt? name path = some (ws.numberIn ws' file)) ∨
    ws.numberIn ws' file = ⟨ws'.ids.nextFile + file.index⟩ := by
  unfold numberIn
  cases hplace : ws.placeOf? file with
  | none => exact Or.inr rfl
  | some place =>
    cases hfile : ws'.fileAt? place.1 place.2 with
    | none =>
      refine Or.inr ?_
      rw [Option.bind_some, hfile, Option.getD_none]
    | some file' =>
      refine Or.inl ⟨place.1, place.2, h.placeOf?_eq_some_iff.1 hplace, ?_⟩
      rw [Option.bind_some, hfile, Option.getD_some]

theorem numberIn_injective (h : ws.FilesInStep) (h' : ws'.FilesInStep) :
    Function.Injective (ws.numberIn ws') := by
  intro a b heq
  have hindex := congrArg FileId.index heq
  rcases numberIn_cases h a with ⟨name, path, ha, ha'⟩ | ha <;>
    rcases numberIn_cases h b with ⟨name', path', hb, hb'⟩ | hb
  · obtain ⟨rfl, rfl⟩ := h'.file_unique ha' (heq ▸ hb')
    exact Option.some.inj (ha.symm.trans hb)
  · have hlt := h'.file_lt ha'
    rw [hb] at hindex
    simp only at hindex
    omega
  · have hlt := h'.file_lt hb'
    rw [ha] at hindex
    simp only at hindex
    omega
  · rw [ha, hb] at hindex
    have hsame : a.index = b.index := Nat.add_left_cancel hindex
    exact congrArg FileId.mk hsame

/-- The renaming that takes each file of a workspace to the file at the same place in another. -/
def renamingTo (ws ws' : Workspace) (h : ws.FilesInStep) (h' : ws'.FilesInStep) : Renaming where
  file := ws.numberIn ws'
  injective := numberIn_injective h h'
  number name := ((ws'.project? name).map (·.id)).getD ⟨0⟩

namespace Alike

variable (h : ws.Alike ws') (hws : ws.FilesInStep) (hws' : ws'.FilesInStep)

include h in
/-- The file at a place corresponds to the file at the same place. -/
theorem fileAt? {name path : String} {file : FileId} (hf : ws.fileAt? name path = some file) :
    ws'.fileAt? name path = some ((ws.renamingTo ws' hws hws').file file) := by
  have htext := h.textAt? name path
  rw [hf] at htext
  obtain ⟨file', hf', -⟩ := Option.map_eq_some_iff.1 htext
  have hnumber : (ws.renamingTo ws' hws hws').file file = file' := numberIn_of_fileAt? hws hf hf'
  rw [hf', hnumber]

include h in
/-- Every file of the other workspace corresponds to a file. -/
theorem exists_fileAt? {name path : String} {file' : FileId}
    (hf' : ws'.fileAt? name path = some file') : ∃ file, ws.fileAt? name path = some file ∧
      (ws.renamingTo ws' hws hws').file file = file' := by
  have htext := h.textAt? name path
  rw [hf'] at htext
  obtain ⟨file, hf, -⟩ := Option.map_eq_some_iff.1 htext.symm
  exact ⟨file, hf, numberIn_of_fileAt? hws hf hf'⟩

include h in
/-- **The parsed files** correspond. -/
theorem source? (file : FileId) :
    ws'.source? ((ws.renamingTo ws' hws hws').file file) =
      (ws.source? file).map (ws.renamingTo ws' hws hws').source := by
  by_cases hhas : ws.HasFile file
  · obtain ⟨name, path, hf⟩ := hhas
    have hf' := h.fileAt? hws hws' hf
    have htext := h.textAt? name path
    rw [hf, hf'] at htext
    have hcontents : ws'.contents.get? ((ws.renamingTo ws' hws hws').file file).index =
        ws.contents.get? file.index := Option.some.inj htext
    rw [hws.source?_of_fileAt? hf, hws'.source?_of_fileAt? hf', h.isUnitAt, hcontents]
    split
    · rw [Option.map_map]
      congr 1
      funext text
      exact ((ws.renamingTo ws' hws hws').source_ofText file name path text).symm
    · rfl
  · have hhas' : ¬ws'.HasFile ((ws.renamingTo ws' hws hws').file file) := by
      rintro ⟨name, path, hf'⟩
      obtain ⟨other, hf, hother⟩ := h.exists_fileAt? hws hws' hf'
      obtain rfl := (ws.renamingTo ws' hws hws').injective hother
      exact hhas ⟨name, path, hf⟩
    rw [hws.source?_of_not_hasFile hhas, hws'.source?_of_not_hasFile hhas']
    rfl

include h in
/-- **The projects** correspond, with their tables of types and packages. -/
theorem project_eq {name : String} {project project' : Project}
    (hproject : ws.project? name = some project) (hproject' : ws'.project? name = some project') :
    project' = (ws.renamingTo ws' hws hws').project project := by
  have hview := h.project? name
  rw [hproject, hproject'] at hview
  obtain ⟨hconfig, hfolderNames, -⟩ := ProjectView.mk.inj (Option.some.inj hview)
  obtain ⟨hname, hsourceFolders, hclasspath, hmodule⟩ := ProjectConfig.mk.inj hconfig
  have hid : project'.id = (ws.renamingTo ws' hws hws').number project.name := by
    rw [(hws.project_name hproject).1]
    simp only [renamingTo, hproject', Option.map_some, Option.getD_some]
  have hfolders : project'.folders = project.folders := by
    have hentries : ∀ table : Table String Unit,
        table.entries = table.keys.map fun path => (path, ()) := by
      intro table
      rw [Table.keys, List.map_map]
      exact (List.map_id _).symm
    apply Table.ext_entries
    rw [hentries, hentries project.folders]
    exact congrArg _ hfolderNames
  have hfiles : project'.files = project.files.mapValues (ws.renamingTo ws' hws hws').file := by
    apply Table.ext_get?
    intro path
    rw [Table.get?_mapValues]
    cases hf : project.files.get? path with
    | some file =>
      have hplace : ws.fileAt? name path = some file := by rw [fileAt?_of_project hproject]; exact hf
      have hplace' := h.fileAt? hws hws' hplace
      rw [fileAt?_of_project hproject'] at hplace'
      exact hplace'
    | none =>
      have htext := h.textAt? name path
      rw [fileAt?_of_project hproject, fileAt?_of_project hproject',
        show project.file? path = none from hf, Option.map_none, Option.map_eq_none_iff] at htext
      exact htext
  have hunits : project'.parsedUnits ws'.sources =
      (project.parsedUnits ws.sources).map (ws.renamingTo ws' hws hws').source := by
    rw [← (ws.renamingTo ws' hws hws').parsedUnits_project (h.source? hws hws')]
    unfold Project.parsedUnits Project.compilationUnits Project.isCompilationUnit
    rw [hfiles, hsourceFolders]
    rfl
  have htypes : project'.types = project.types.mapValues (ws.renamingTo ws' hws hws').key := by
    rw [← congrArg Project.types (hws'.upToDate hproject'),
      ← congrArg Project.types (hws.upToDate hproject)]
    simp only [Project.refresh, hunits, Renaming.typesOf_map]
  have hpackages : project'.packages = project.packages := by
    rw [← congrArg Project.packages (hws'.upToDate hproject'),
      ← congrArg Project.packages (hws.upToDate hproject)]
    simp only [Project.refresh, hunits, Renaming.packagesOf_map]
  cases project'
  exact Project.mk.injEq .. ▸
    ⟨hid, hname, hsourceFolders, hclasspath, hmodule, hfolders, hfiles, htypes, hpackages⟩

end Alike

/-- **Alike workspaces differ in numbers only.** -/
theorem Alike.renamedBy (h : ws.Alike ws') (hws : ws.FilesInStep) (hws' : ws'.FilesInStep)
    (hin : ws.ArchivesInStep) (harchives : ws'.archives.entries = ws.archives.entries) :
    ws.RenamedBy (ws.renamingTo ws' hws hws') ws' where
  source? := h.source? hws hws'
  onto := by
    intro file' source hsource
    obtain ⟨name, path, text, hf', -⟩ := hws'.source_iff.1 hsource
    obtain ⟨file, -, hfile⟩ := h.exists_fileAt? hws hws' hf'
    exact ⟨file, hfile⟩
  projects := by
    apply Table.ext_get?
    intro name
    rw [Table.get?_mapValues]
    show ws'.project? name = (ws.project? name).map _
    have hview := h.project? name
    cases hproject : ws.project? name with
    | none =>
      rw [hproject, Option.map_none, Option.map_eq_none_iff] at hview
      rw [hview, Option.map_none]
    | some project =>
      rw [hproject] at hview
      obtain ⟨project', hproject', -⟩ := Option.map_eq_some_iff.1 hview
      rw [hproject', Option.map_some, h.project_eq hws hws' hproject hproject']
  archives := by
    rw [harchives]
    refine (List.map_id _).symm.trans (List.map_congr_left ?_)
    rintro ⟨path, archive⟩ hmem
    have htypes : archive.types.map (ws.renamingTo ws' hws hws').info = archive.types := by
      refine (List.map_congr_left ?_).trans (List.map_id archive.types)
      intro info hinfo
      have horigin := (hin.namedIn_archive hmem hinfo).origin_eq
      have hkey : (ws.renamingTo ws' hws hws').key info.key = info.key := by
        rw [Renaming.key, horigin, Renaming.origin_archive, ← horigin]
      rw [Renaming.info, hkey]
      rfl
    rw [Renaming.archive, htypes]
    rfl
  vars := h.vars

end Workspace

end SourceSearch
