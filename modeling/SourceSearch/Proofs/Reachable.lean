import SourceSearch.Proofs.Upkeep

/-!
# Reachable workspaces

A workspace is reachable if it comes from the initial one by edits, some of which may have failed.
`Workspace.InStep` holds of every reachable workspace (`inStep_afterAll`): it holds initially, and
each edit that succeeds keeps it (`InStep.apply`). Edits that act on several files or projects are
followed by induction on the list that they work off.
-/

set_option autoImplicit false

namespace SourceSearch

/-- More folders are the only thing that adding folders changes. -/
theorem Project.foldl_addFolder (paths : List String) (project : Project) :
    ∃ folders, paths.foldl (·.addFolder ·) project = { project with folders := folders } := by
  induction paths generalizing project with
  | nil => exact ⟨project.folders, rfl⟩
  | cons path paths ih =>
    obtain ⟨folders, h⟩ := ih (project.addFolder path)
    exact ⟨folders, by rw [List.foldl_cons, h]; rfl⟩

namespace Workspace

variable {ws next : Workspace}

/-! ## Edits of files and folders -/

/-- What `deleteFile` does when it succeeds. -/
theorem deleteFile_ok {path : String} (h : ws.deleteFile path = .ok next) :
    ∃ name rel project file, splitPath path = .ok (name, rel) ∧
      ws.project? name = some project ∧ project.file? rel = some file ∧
      next = ({ ws with
        projects := ws.projects.insert name { project with files := project.files.erase rel }
        contents := ws.contents.erase file.index
        sources := ws.sources.erase file.index } : Workspace).refreshProject name := by
  obtain ⟨⟨name, rel⟩, hsplit, h⟩ := bind_eq_ok_iff.1 h
  obtain ⟨project, hproject, h⟩ := bind_eq_ok_iff.1 h
  have hp := requireProject_eq_ok_iff.1 hproject
  cases hfile : project.file? rel with
  | none =>
    rw [hfile] at h
    cases h
  | some file =>
    rw [hfile] at h
    exact ⟨name, rel, project, file, hsplit, hp, hfile, (Except.ok.inj h).symm⟩

/-- A file that is taken away leaves nothing behind. -/
theorem touches_deleteFile (h : ws.FilesInStep) {project : Project} {rel : String} {file : FileId}
    (hproject : ws.project? project.name = some project) (hfile : project.file? rel = some file) :
    Touches ws (({ ws with
      projects := ws.projects.insert project.name
        { project with files := project.files.erase rel }
      contents := ws.contents.erase file.index
      sources := ws.sources.erase file.index } : Workspace).refreshProject project.name)
      project rel file none where
  project_eq := hproject
  only_here := h.only_here hproject hfile
  only_this hother := Option.some.inj (hother.symm.trans hfile)
  path_ok hsome := by cases hsome
  file_lt hsome := by cases hsome
  next_le := Nat.le_refl _
  projects := by
    intro other
    rw [project?_refreshProject]
    simp only [project?, Table.get?_insert]
    split <;> rfl
  contents index := Table.get?_erase _ _ _
  sources index := Table.get?_erase _ _ _

theorem FilesInStep.deleteFile (h : ws.FilesInStep) {path : String}
    (hok : ws.deleteFile path = .ok next) : next.FilesInStep := by
  obtain ⟨name, rel, project, file, -, hp, hfile, rfl⟩ := deleteFile_ok hok
  obtain rfl := (h.project_name hp).1
  exact (touches_deleteFile h hp hfile).filesInStep h

/-- What `createFolder` does when it succeeds. -/
theorem createFolder_ok {path : String} (h : ws.createFolder path = .ok next) :
    ∃ name rel project, splitPath path = .ok (name, rel) ∧ rel ≠ "" ∧
      ws.project? name = some project ∧ project.file? rel = none ∧ project.hasFolder rel = false ∧
      next = { ws with projects := ws.projects.insert name (project.addFolder rel) } := by
  obtain ⟨⟨name, rel⟩, hsplit, h⟩ := bind_eq_ok_iff.1 h
  obtain ⟨hrel, h⟩ := guard_eq_ok_iff.1 h
  obtain ⟨project, hproject, h⟩ := bind_eq_ok_iff.1 h
  obtain ⟨hfree, h⟩ := guard_eq_ok_iff.1 h
  rw [Bool.or_eq_true, not_or, Bool.not_eq_true, Bool.not_eq_true, Option.isSome_eq_false_iff,
    Option.isNone_iff_eq_none] at hfree
  exact ⟨name, rel, project, hsplit, hrel, requireProject_eq_ok_iff.1 hproject, hfree.2, hfree.1,
    (Except.ok.inj h).symm⟩

theorem FilesInStep.createFolder (h : ws.FilesInStep) {path : String}
    (hok : ws.createFolder path = .ok next) : next.FilesInStep := by
  obtain ⟨name, rel, project, -, -, hp, -, -, rfl⟩ := createFolder_ok hok
  exact h.setFolders hp _

/-- Deleting several projects keeps what deleting one of them keeps. -/
theorem deleteProjects_induction {P : Workspace → Prop} {names : List String} (h : P ws)
    (hstep : ∀ {ws next name}, P ws → name ∈ names → ws.deleteProject name = .ok next → P next)
    (hok : ws.deleteProjects names = .ok next) : P next := by
  induction names generalizing ws with
  | nil =>
    obtain rfl : ws = next := by simpa [deleteProjects] using hok
    exact h
  | cons name names ih =>
    have hrest : ∀ {ws next other}, P ws → other ∈ names → ws.deleteProject other = .ok next →
        P next := fun hP hmem => hstep hP (List.mem_cons_of_mem _ hmem)
    rw [deleteProjects] at hok
    split at hok
    · obtain ⟨mid, hone, hok⟩ := bind_eq_ok_iff.1 hok
      exact ih (hstep h List.mem_cons_self hone) hrest hok
    · exact ih h hrest hok

theorem FilesInStep.deleteProjects (h : ws.FilesInStep) {names : List String}
    (hok : ws.deleteProjects names = .ok next) : next.FilesInStep :=
  deleteProjects_induction h (fun hws _ hone => hws.deleteProject hone) hok

/-! ## Copies of projects -/

/-- One file after the other is copied. -/
theorem copyFiles_cons_ok {source target rel : String} {file : FileId}
    {rest : List (String × FileId)}
    (h : copyFiles source target ((rel, file) :: rest) ws = .ok next) :
    ∃ text project, ws.contents.get? file.index = some text ∧ ws.project? target = some project ∧
      copyFiles source target rest (ws.addFile project rel text).2 = .ok next := by
  unfold copyFiles at h
  cases htext : ws.contents.get? file.index with
  | none =>
    rw [htext] at h
    cases h
  | some text =>
    rw [htext] at h
    obtain ⟨project, hproject, h⟩ := bind_eq_ok_iff.1 h
    exact ⟨text, project, rfl, requireProject_eq_ok_iff.1 hproject, h⟩

/-- **Files copied to new paths** keep the tables in step, and each of them touches one file only, so
what such a change keeps holds in the end. -/
theorem copyFiles_induction {P : Workspace → Prop} {source target : String}
    {entries : List (String × FileId)} (h : ws.FilesInStep) (hP : P ws)
    (hstep : ∀ {ws next project rel text}, P ws → project.name = target →
      (∃ file, (rel, file) ∈ entries) → Touches ws next project rel ⟨ws.ids.nextFile⟩ (some text) →
      P next)
    (hnodup : entries.Pairwise fun a b => a.1 ≠ b.1)
    (hnew : ∀ e ∈ entries, ws.fileAt? target e.1 = none) (hpath : ∀ e ∈ entries, IsFilePath e.1)
    (hok : copyFiles source target entries ws = .ok next) : next.FilesInStep ∧ P next := by
  induction entries generalizing ws with
  | nil =>
    obtain rfl : ws = next := by simpa [Workspace.copyFiles] using hok
    exact ⟨h, hP⟩
  | cons entry rest ih =>
    obtain ⟨rel, file⟩ := entry
    obtain ⟨text, project, -, hp, hrest⟩ := copyFiles_cons_ok hok
    obtain rfl := (h.project_name hp).1
    have hfree : project.file? rel = none := by
      rw [← fileAt?_of_project hp]
      exact hnew _ List.mem_cons_self
    have hrel := hpath _ List.mem_cons_self
    have htouch : Touches ws (ws.addFile project rel text).2 project rel _ (some text) :=
      touches_addFile h hp hfree hrel
    refine ih (htouch.filesInStep h) (hstep hP rfl ⟨file, List.mem_cons_self⟩ htouch)
      (fun hP hname ⟨found, hmem⟩ => hstep hP hname ⟨found, List.mem_cons_of_mem _ hmem⟩)
      (List.pairwise_cons.1 hnodup).2 ?_ (fun e he => hpath e (List.mem_cons_of_mem _ he)) hrest
    intro e he
    rw [htouch.fileAt?, if_neg]
    · exact hnew e (List.mem_cons_of_mem _ he)
    · rintro ⟨-, heq⟩
      exact (List.pairwise_cons.1 hnodup).1 e he heq.symm

/-- A copy of a project is a new project with the folders, into which the files are copied. -/
theorem copyProject_of_createProject {source target : String} {copied : Project}
    {id : ProjectId} {created : Workspace} (hp : ws.project? source = some copied)
    (hc : ws.createProject (copied.configAs target) = .ok (id, created)) :
    ∃ made folders, created.project? target = some made ∧
      made = .ofConfig ws.ids.project.1 (copied.configAs target) ∧
      copied.folders.keys.foldl (·.addFolder ·) made = { made with folders := folders } ∧
      ws.copyProject source target = (copyFiles source target copied.files.entries { created with
        projects := created.projects.insert target { made with folders := folders } }).map
          fun next => (id, next) := by
  obtain ⟨-, -, hcreated⟩ := createProject_ok hc
  set made : Project := .ofConfig ws.ids.project.1 (copied.configAs target) with hmade
  have hget : created.project? target = some made := by
    rw [hcreated]
    exact Table.get?_insert_self _ _ _
  obtain ⟨folders, hfolders⟩ := Project.foldl_addFolder copied.folders.keys made
  have hmodify : (created.projects.modify target fun p =>
      copied.folders.keys.foldl (·.addFolder ·) p) =
      created.projects.insert target { made with folders := folders } := by
    unfold Table.modify
    rw [show created.projects.get? target = some made from hget]
    show created.projects.insert target (copied.folders.keys.foldl (·.addFolder ·) made) = _
    rw [hfolders]
  refine ⟨made, folders, hget, hmade, hfolders, ?_⟩
  rw [copyProject, requireProject_eq_ok_iff.2 hp]
  simp only [bind, Except.bind, hc, hmodify]
  cases copyFiles source target copied.files.entries { created with
    projects := created.projects.insert target { made with folders := folders } } <;> rfl

/-- What `copyProject` does when it succeeds: it makes a project, gives it the folders and copies the
files. -/
theorem copyProject_ok {source target : String} {id : ProjectId}
    (h : ws.copyProject source target = .ok (id, next)) :
    ∃ copied created made folders, ws.project? source = some copied ∧
      ws.createProject (copied.configAs target) = .ok (id, created) ∧
      created.project? target = some made ∧
      made = .ofConfig ws.ids.project.1 (copied.configAs target) ∧
      copied.folders.keys.foldl (·.addFolder ·) made = { made with folders := folders } ∧
      copyFiles source target copied.files.entries { created with
        projects := created.projects.insert target { made with folders := folders } } =
          .ok next := by
  obtain ⟨copied, hcopied, hrest⟩ := bind_eq_ok_iff.1 h
  obtain ⟨⟨newId, created⟩, hc, hrest⟩ := bind_eq_ok_iff.1 hrest
  have hp := requireProject_eq_ok_iff.1 hcopied
  obtain ⟨made, folders, hget, hmade, hfolders, hcopy⟩ := copyProject_of_createProject hp hc
  rw [hcopy] at h
  cases hfiles : copyFiles source target copied.files.entries { created with
      projects := created.projects.insert target { made with folders := folders } } with
  | error e =>
    rw [hfiles] at h
    cases h
  | ok filled =>
    rw [hfiles] at h
    obtain ⟨rfl, rfl⟩ := Prod.mk.inj (Except.ok.inj h)
    exact ⟨copied, created, made, folders, hp, hc, hget, hmade, hfolders, hfiles⟩

/-- **A copy of a project** keeps what a new project of the name, other folders of it and a new file
in it keep. -/
theorem copyProject_induction {P : Workspace → Prop} (h : ws.FilesInStep) {source target : String}
    {id : ProjectId} (hcreate : ∀ {config id next}, config.name = target →
      ws.createProject config = .ok (id, next) → P next)
    (hfolders : ∀ {ws project folders}, P ws → ws.project? target = some project →
      P { ws with projects := ws.projects.insert target { project with folders := folders } })
    (hstep : ∀ {ws next project rel text}, P ws → project.name = target →
      Touches ws next project rel ⟨ws.ids.nextFile⟩ (some text) → P next)
    (hok : ws.copyProject source target = .ok (id, next)) : next.FilesInStep ∧ P next := by
  obtain ⟨copied, created, made, folders, hp, hc, hmade, hnew, -, hcopy⟩ := copyProject_ok hok
  have hcreated := (h.createProject hc).setFolders hmade folders
  refine copyFiles_induction hcreated (hfolders (hcreate rfl hc) hmade)
    (fun hP hname _ => hstep hP hname) copied.files.entries_nodup ?_ ?_ hcopy
  · intro e _
    unfold Workspace.fileAt?
    simp only [project?, Table.get?_insert_self, Option.bind_some]
    rw [hnew]
    rfl
  · rintro ⟨path, file⟩ hmem
    have hfile : ws.fileAt? source path = some file := by
      rw [fileAt?_of_project hp]
      exact Table.mem_entries_iff.1 hmem
    exact h.file_path hfile

theorem FilesInStep.copyProject (h : ws.FilesInStep) {source target : String} {id : ProjectId}
    (hok : ws.copyProject source target = .ok (id, next)) : next.FilesInStep :=
  (copyProject_induction (P := fun _ => True) h (fun _ _ => trivial) (fun _ _ => trivial)
    (fun _ _ _ => trivial) hok).1

/-! ## Archives and variables -/

/-- The archives, the variables and the number of the next archive are the same. -/
structure SameArchives (ws next : Workspace) : Prop where
  archives : next.archives = ws.archives
  vars : next.vars = ws.vars
  nextArchive : next.ids.nextArchive = ws.ids.nextArchive

namespace SameArchives

theorem refl (ws : Workspace) : SameArchives ws ws := ⟨rfl, rfl, rfl⟩

theorem trans {mid : Workspace} (h : SameArchives ws mid) (h' : SameArchives mid next) :
    SameArchives ws next :=
  ⟨h'.archives.trans h.archives, h'.vars.trans h.vars, h'.nextArchive.trans h.nextArchive⟩

theorem createProject {config : ProjectConfig} {id : ProjectId}
    (hok : ws.createProject config = .ok (id, next)) : SameArchives ws next := by
  obtain ⟨-, -, rfl⟩ := createProject_ok hok
  exact ⟨rfl, rfl, rfl⟩

theorem deleteProject {name : String} (hok : ws.deleteProject name = .ok next) :
    SameArchives ws next := by
  obtain ⟨project, -, rfl⟩ := deleteProject_ok hok
  exact ⟨rfl, rfl, rfl⟩

theorem deleteProjects {names : List String} (hok : ws.deleteProjects names = .ok next) :
    SameArchives ws next :=
  deleteProjects_induction (P := SameArchives ws) (refl ws)
    (fun h _ hone => h.trans (deleteProject hone)) hok

theorem addFile (ws : Workspace) (project : Project) (rel text : String) :
    SameArchives ws (ws.addFile project rel text).2 := ⟨rfl, rfl, rfl⟩

theorem copyFiles {source target : String} {entries : List (String × FileId)}
    (hok : copyFiles source target entries ws = .ok next) : SameArchives ws next := by
  induction entries generalizing ws with
  | nil =>
    obtain rfl : ws = next := by simpa [Workspace.copyFiles] using hok
    exact refl ws
  | cons entry rest ih =>
    obtain ⟨rel, file⟩ := entry
    obtain ⟨text, project, -, -, hrest⟩ := copyFiles_cons_ok hok
    exact (addFile ws project rel text).trans (ih hrest)

theorem copyProject {source target : String} {id : ProjectId}
    (hok : ws.copyProject source target = .ok (id, next)) : SameArchives ws next := by
  obtain ⟨copied, created, made, folders, -, hc, -, -, -, hcopy⟩ := copyProject_ok hok
  have hfolders : SameArchives created { created with
      projects := created.projects.insert target { made with folders := folders } } :=
    ⟨rfl, rfl, rfl⟩
  exact ((createProject hc).trans hfolders).trans (copyFiles hcopy)

theorem createFolder {path : String} (hok : ws.createFolder path = .ok next) :
    SameArchives ws next := by
  obtain ⟨name, rel, project, -, -, -, -, -, rfl⟩ := createFolder_ok hok
  exact ⟨rfl, rfl, rfl⟩

theorem createFile {path text : String} {id : FileId}
    (hok : ws.createFile path text = .ok (id, next)) : SameArchives ws next := by
  obtain ⟨name, rel, project, -, -, -, -, -, -, heq⟩ := createFile_ok hok
  obtain rfl : next = (ws.addFile project rel text).2 := congrArg Prod.snd heq
  exact addFile ws project rel text

theorem setFile {path text : String} (hok : ws.setFile path text = .ok next) :
    SameArchives ws next := by
  obtain ⟨name, rel, project, file, -, -, -, rfl⟩ := setFile_ok hok
  exact ⟨rfl, rfl, rfl⟩

theorem deleteFile {path : String} (hok : ws.deleteFile path = .ok next) :
    SameArchives ws next := by
  obtain ⟨name, rel, project, file, -, -, -, rfl⟩ := deleteFile_ok hok
  exact ⟨rfl, rfl, rfl⟩

end SameArchives

/-- Archives are in step whatever happens to projects and files. -/
theorem ArchivesInStep.congr (h : ws.ArchivesInStep) (same : SameArchives ws next) :
    next.ArchivesInStep where
  archive_path hmem := h.archive_path (same.archives ▸ hmem)
  archive_lt hmem := by
    rw [same.nextArchive]
    exact h.archive_lt (same.archives ▸ hmem)
  archive_nodup := by
    rw [same.archives]
    exact h.archive_nodup
  archive_compiled hmem := h.archive_compiled (same.archives ▸ hmem)
  var_registered hvar := by
    rw [same.archives]
    exact h.var_registered (same.vars ▸ hvar)

/-- Every result of a computation on a list comes from an element of the list. -/
theorem of_mem_mapM {α β ε : Type} {f : α → Except ε β} {as : List α} {bs : List β}
    (h : as.mapM f = .ok bs) {b : β} (hb : b ∈ bs) : ∃ a ∈ as, f a = .ok b := by
  induction as generalizing bs with
  | nil =>
    obtain rfl : [] = bs := by simpa [pure, Except.pure] using h
    simp at hb
  | cons a as ih =>
    rw [List.mapM_cons] at h
    obtain ⟨first, ha, h⟩ := bind_eq_ok_iff.1 h
    obtain ⟨rest, hrest, h⟩ := bind_eq_ok_iff.1 h
    obtain rfl := Except.ok.inj h
    rcases List.mem_cons.1 hb with rfl | hb
    · exact ⟨a, List.mem_cons_self, ha⟩
    · obtain ⟨other, hmem, hother⟩ := ih hrest hb
      exact ⟨other, List.mem_cons_of_mem _ hmem, hother⟩

/-- Sources make an archive only if they all parse. -/
theorem ofSources_ok {id : ArchiveId} {path : String} {sources : List (String × String)}
    {module : Option ModuleDescription} {archive : Archive}
    (h : Archive.ofSources id path sources module = .ok archive) :
    ∃ units, (∀ unit ∈ units, ∃ text, parse text = .ok unit) ∧
      archive = .ofUnits id path units module := by
  unfold Archive.ofSources at h
  obtain ⟨units, hunits, h⟩ := bind_eq_ok_iff.1 h
  refine ⟨units, ?_, (Except.ok.inj h).symm⟩
  intro unit hunit
  obtain ⟨⟨name, text⟩, -, hparse⟩ := of_mem_mapM hunits hunit
  refine ⟨text, ?_⟩
  dsimp only at hparse
  split at hparse
  next found hfound => rw [hfound, Except.ok.inj hparse]
  next => cases hparse

theorem archivesInStep_initial : initial.ArchivesInStep := by
  have hentries : initial.archives.entries =
      [(ClassLibrary.path, ClassLibrary.archive ⟨0⟩)] := rfl
  refine ⟨?_, ?_, ?_, ?_, ?_⟩
  · intro path archive hmem
    rw [hentries, List.mem_singleton] at hmem
    cases hmem
    rfl
  · intro path archive hmem
    rw [hentries, List.mem_singleton] at hmem
    cases hmem
    exact Nat.lt_succ_self 0
  · rw [hentries]
    exact List.pairwise_singleton _ _
  · intro path archive hmem
    rw [hentries, List.mem_singleton] at hmem
    cases hmem
    refine ⟨ClassLibrary.units, ?_, rfl⟩
    intro unit hunit
    obtain ⟨text, -, hparse⟩ := List.mem_filterMap.1 hunit
    cases hresult : parse text with
    | error e => simp [hresult, Except.toOption] at hparse
    | ok found =>
      obtain rfl : found = unit := by simpa [hresult, Except.toOption] using hparse
      exact ⟨text, hresult⟩
  · intro name path hvar
    have hpath : path = ClassLibrary.path := by
      simp only [initial, Register.get?_insert] at hvar
      split at hvar
      · exact (Option.some.inj hvar).symm
      · simp at hvar
    exact ⟨ClassLibrary.archive ⟨0⟩, by rw [hpath]; rfl⟩

/-- What `registerArchive` does when it succeeds. -/
theorem registerArchive_ok {path : String} {sources : List (String × String)}
    {module : Option ModuleDescription} {id : ArchiveId}
    (h : ws.registerArchive path sources module = .ok (id, next)) :
    ∃ units, (∀ unit ∈ units, ∃ text, parse text = .ok unit) ∧
      ws.archives.contains path = false ∧ id = ⟨ws.ids.nextArchive⟩ ∧ next = { ws with
        ids := ws.ids.archive.2
        archives := ws.archives.insert path (.ofUnits id path units module) } := by
  obtain ⟨hnew, h⟩ := guard_eq_ok_iff.1 h
  obtain ⟨archive, harchive, h⟩ := bind_eq_ok_iff.1 h
  obtain ⟨units, hunits, rfl⟩ := ofSources_ok harchive
  cases h
  exact ⟨units, hunits, Bool.eq_false_iff.2 hnew, rfl, rfl⟩

/-- **A new archive** keeps the archives in step. -/
theorem ArchivesInStep.registerArchive (h : ws.ArchivesInStep) {path : String}
    {sources : List (String × String)} {module : Option ModuleDescription} {id : ArchiveId}
    (hok : ws.registerArchive path sources module = .ok (id, next)) : next.ArchivesInStep := by
  obtain ⟨units, hunits, hnew, rfl, rfl⟩ := registerArchive_ok hok
  set made := Archive.ofUnits ⟨ws.ids.nextArchive⟩ path units module with hmade
  have hentries : (ws.archives.insert path made).entries = ws.archives.entries ++ [(path, made)] :=
    Register.entries_insert_of_not_contains hnew made
  have hmem : ∀ {other archive}, (other, archive) ∈ (ws.archives.insert path made).entries →
      (other, archive) ∈ ws.archives.entries ∨ other = path ∧ archive = made := by
    intro other archive hin
    rw [hentries, List.mem_append, List.mem_singleton, Prod.mk.injEq] at hin
    exact hin
  exact {
    archive_path := by
      intro other archive hin
      rcases hmem hin with hold | ⟨rfl, rfl⟩
      · exact h.archive_path hold
      · rfl
    archive_lt := by
      intro other archive hin
      rcases hmem hin with hold | ⟨rfl, rfl⟩
      · exact Nat.lt_succ_of_lt (h.archive_lt hold)
      · exact Nat.lt_succ_self _
    archive_nodup := by
      show (ws.archives.insert path made).entries.Pairwise _
      rw [hentries, List.pairwise_append]
      refine ⟨h.archive_nodup, List.pairwise_singleton _ _, ?_⟩
      rintro ⟨other, archive⟩ hold e he
      obtain rfl := List.mem_singleton.1 he
      constructor
      · rintro rfl
        have hlisted : ws.archives.contains other = true := by
          rw [Register.contains, Register.get?, List.lookup_isSome_iff]
          exact ⟨(other, archive), hold, beq_self_eq_true _⟩
        rw [hlisted] at hnew
        cases hnew
      · intro heq
        have hlt := h.archive_lt hold
        rw [heq] at hlt
        exact Nat.lt_irrefl _ hlt
    archive_compiled := by
      intro other archive hin
      rcases hmem hin with hold | ⟨rfl, rfl⟩
      · exact h.archive_compiled hold
      · exact ⟨units, hunits, rfl⟩
    var_registered := by
      intro name other hvar
      obtain ⟨archive, harchive⟩ := h.var_registered hvar
      rw [Register.get?_insert]
      split
      · exact ⟨made, rfl⟩
      · exact ⟨archive, harchive⟩ }

/-- What `setVariable` does when it succeeds. -/
theorem setVariable_ok {name path : String} (h : ws.setVariable name path = .ok next) :
    (∃ archive, ws.archives.get? path = some archive) ∧
      next = { ws with vars := ws.vars.insert name path } := by
  unfold setVariable at h
  split at h
  next hknown => exact ⟨Register.contains_iff.1 hknown, (Except.ok.inj h).symm⟩
  next => cases h

theorem ArchivesInStep.setVariable (h : ws.ArchivesInStep) {name path : String}
    (hok : ws.setVariable name path = .ok next) : next.ArchivesInStep := by
  obtain ⟨hknown, rfl⟩ := setVariable_ok hok
  refine ⟨h.archive_path, h.archive_lt, h.archive_nodup, h.archive_compiled, ?_⟩
  intro other found hvar
  rw [Register.get?_insert] at hvar
  split at hvar
  · obtain rfl := Option.some.inj hvar
    exact hknown
  · exact h.var_registered hvar

/-! ## Runs -/

/-- All tables of a workspace agree. -/
structure InStep (ws : Workspace) : Prop where
  files : ws.FilesInStep
  archives : ws.ArchivesInStep

/-- An edit of projects and files keeps the workspace in step if it does so for the files. -/
theorem InStep.of_files (h : ws.InStep) (hfiles : next.FilesInStep)
    (same : SameArchives ws next) : next.InStep :=
  ⟨hfiles, h.archives.congr same⟩

/-- **Every edit that succeeds** keeps the workspace in step. -/
theorem InStep.apply (h : ws.InStep) {edit : Edit} {made : Edit.Made}
    (hok : ws.apply edit = .ok (made, next)) : next.InStep := by
  cases edit with
  | createProject config =>
    obtain ⟨⟨id, after⟩, hedit, hok⟩ := bind_eq_ok_iff.1 hok
    cases hok
    exact h.of_files (h.files.createProject hedit) (.createProject hedit)
  | deleteProject name =>
    obtain ⟨after, hedit, hok⟩ := bind_eq_ok_iff.1 hok
    cases hok
    exact h.of_files (h.files.deleteProject hedit) (.deleteProject hedit)
  | deleteProjects names =>
    obtain ⟨after, hedit, hok⟩ := bind_eq_ok_iff.1 hok
    cases hok
    exact h.of_files (h.files.deleteProjects hedit) (.deleteProjects hedit)
  | copyProject source target =>
    obtain ⟨⟨id, after⟩, hedit, hok⟩ := bind_eq_ok_iff.1 hok
    cases hok
    exact h.of_files (h.files.copyProject hedit) (.copyProject hedit)
  | createFolder path =>
    obtain ⟨after, hedit, hok⟩ := bind_eq_ok_iff.1 hok
    cases hok
    exact h.of_files (h.files.createFolder hedit) (.createFolder hedit)
  | createFile path text =>
    obtain ⟨⟨id, after⟩, hedit, hok⟩ := bind_eq_ok_iff.1 hok
    cases hok
    exact h.of_files (h.files.createFile hedit) (.createFile hedit)
  | setFile path text =>
    obtain ⟨after, hedit, hok⟩ := bind_eq_ok_iff.1 hok
    cases hok
    exact h.of_files (h.files.setFile hedit) (.setFile hedit)
  | deleteFile path =>
    obtain ⟨after, hedit, hok⟩ := bind_eq_ok_iff.1 hok
    cases hok
    exact h.of_files (h.files.deleteFile hedit) (.deleteFile hedit)
  | registerArchive path sources module =>
    obtain ⟨⟨id, after⟩, hedit, hok⟩ := bind_eq_ok_iff.1 hok
    cases hok
    refine ⟨h.files.congr ?_ ?_ ?_ ?_, h.archives.registerArchive hedit⟩ <;>
    · obtain ⟨units, -, -, rfl, rfl⟩ := registerArchive_ok hedit
      rfl
  | setVariable name path =>
    obtain ⟨after, hedit, hok⟩ := bind_eq_ok_iff.1 hok
    cases hok
    refine ⟨h.files.congr ?_ ?_ ?_ ?_, h.archives.setVariable hedit⟩ <;>
    · obtain ⟨-, rfl⟩ := setVariable_ok hedit
      rfl

/-- An edit that fails leaves the workspace as it is, so all edits keep it in step. -/
theorem InStep.after (h : ws.InStep) (edit : Edit) : (ws.after edit).InStep := by
  unfold Workspace.after
  split
  next hok => exact h.apply hok
  next => exact h

theorem InStep.afterAll (h : ws.InStep) (edits : List Edit) : (ws.afterAll edits).InStep := by
  unfold Workspace.afterAll
  induction edits generalizing ws with
  | nil => exact h
  | cons edit edits ih => exact ih (h.after edit)

/-- **Every reachable workspace** is in step. -/
theorem inStep_afterAll (edits : List Edit) : (initial.afterAll edits).InStep :=
  InStep.afterAll ⟨filesInStep_initial, archivesInStep_initial⟩ edits

end Workspace

end SourceSearch
