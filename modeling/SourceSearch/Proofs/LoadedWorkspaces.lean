import SourceSearch.Loading
import SourceSearch.Proofs.DirectoryTrees
import SourceSearch.Proofs.EditFrames
import SourceSearch.Proofs.ProjectCopies
import SourceSearch.Proofs.ProjectTrees

/-!
# Workspaces loaded from directory trees

Loading is a run of ordinary edits, any of which could fail. Once the archives and the variables of
the manifest are there, none does (`exists_load`): the name of each project is new; a folder is made
unless it came with the project, and no file can be in its way, as all folders are made before all
files; and a file has a path that no file and no folder has, in a folder that was made before.

Each loop of the loader is described by what it has made so far (`exists_foldlM`): the folders of a
project (`FoldersMade`), its files (`FilesLoaded`), and the projects (`ProjectsLoaded`). Files come
by ascending path, so each is put at the end and the numbers of a project's files are consecutive.
What a project shows is said by `Mirrors`, and the projects that come later leave it alone
(`Mirrors.of_leavesAlone`).
-/

set_option autoImplicit false

namespace SourceSearch

open Workspace Project

/-! ## Runs of steps that can fail -/

/-- **A run succeeds** if every step does that starts from what holds of the steps before it. -/
theorem exists_foldlM {α β ε : Type} (f : β → α → Except ε β) (xs : List α) (start : β)
    {P : List α → β → Prop} (hstart : P [] start)
    (hstep : ∀ done x rest b, done ++ x :: rest = xs → P done b →
      ∃ next, f b x = .ok next ∧ P (done ++ [x]) next) :
    ∃ last, xs.foldlM f start = .ok last ∧ P xs last := by
  suffices h : ∀ rest done b, done ++ rest = xs → P done b →
      ∃ last, rest.foldlM f b = .ok last ∧ P xs last from h xs [] start rfl hstart
  intro rest
  induction rest with
  | nil =>
    rintro done b rfl hb
    rw [List.append_nil]
    exact ⟨b, rfl, hb⟩
  | cons x rest ih =>
    intro done b hxs hb
    obtain ⟨next, hnext, hP⟩ := hstep done x rest b hxs hb
    obtain ⟨last, hlast, hall⟩ := ih (done ++ [x]) next (by rw [List.append_assoc]; exact hxs) hP
    refine ⟨last, ?_, hall⟩
    rw [List.foldlM_cons, hnext]
    exact hlast

/-- What every step keeps a run keeps that succeeds. -/
theorem of_foldlM {α β ε : Type} {f : β → α → Except ε β} {P : β → Prop}
    (hstep : ∀ {b x next}, P b → f b x = .ok next → P next) {xs : List α} {b last : β} (h : P b)
    (hok : xs.foldlM f b = .ok last) : P last := by
  induction xs generalizing b with
  | nil =>
    obtain rfl := Except.ok.inj hok
    exact h
  | cons x xs ih =>
    rw [List.foldlM_cons] at hok
    obtain ⟨next, hnext, hrest⟩ := bind_eq_ok_iff.1 hok
    exact ih (hstep h hnext) hrest

namespace Workspace

variable {dir : Directory} {ws mid next start : Workspace} {name path : String}
  {project old made : Project} {manifest : Manifest} {p : ProjectManifest}

/-! ## Archives and variables -/

/-- The workspace with the archives and the variables of a manifest and without its projects. -/
def loadLibraries (dir : Directory) (manifest : Manifest) : Except Error Workspace := do
  let withArchives ← manifest.archives.foldlM (loadArchive dir) .initial
  manifest.vars.entries.foldlM (fun ws v => ws.setVariable v.1 v.2) withArchives

/-- **The projects come last.** -/
theorem loadManifest_eq (dir : Directory) (manifest : Manifest) :
    loadManifest dir manifest .initial =
      loadLibraries dir manifest >>= manifest.projects.foldlM (loadProject dir) := by
  unfold loadManifest loadLibraries
  cases manifest.archives.foldlM (loadArchive dir) .initial <;> rfl

/-- There is no project, and no number of a project or file is given out. -/
structure IsBare (ws : Workspace) : Prop where
  inStep : ws.FilesInStep
  projects : ws.projects = ∅
  nextFile : ws.ids.nextFile = 0
  nextProject : ws.ids.nextProject = 0

theorem IsBare.congr (h : ws.IsBare) (hids : next.ids.nextFile = ws.ids.nextFile)
    (hids' : next.ids.nextProject = ws.ids.nextProject) (hprojects : next.projects = ws.projects)
    (hcontents : next.contents = ws.contents) (hsources : next.sources = ws.sources) :
    next.IsBare where
  inStep := h.inStep.congr hids hprojects hcontents hsources
  projects := hprojects.trans h.projects
  nextFile := hids.trans h.nextFile
  nextProject := hids'.trans h.nextProject

/-- Archives and variables make no projects and no files. -/
theorem isBare_of_loadLibraries (h : loadLibraries dir manifest = .ok start) : start.IsBare := by
  obtain ⟨withArchives, harchives, hvars⟩ := bind_eq_ok_iff.1 h
  have hinitial : initial.IsBare := ⟨filesInStep_initial, rfl, rfl, rfl⟩
  have hmid : withArchives.IsBare := by
    refine of_foldlM (fun {ws archive next} hws hok => ?_) hinitial harchives
    unfold loadArchive at hok
    split at hok
    next => cases hok
    next sources _ =>
      obtain ⟨⟨id, after⟩, hregister, hok⟩ := bind_eq_ok_iff.1 hok
      obtain rfl := Except.ok.inj hok
      obtain ⟨units, -, -, -, rfl⟩ := registerArchive_ok hregister
      exact hws.congr rfl rfl rfl rfl rfl
  refine of_foldlM (fun {ws v next} hws hok => ?_) hmid hvars
  obtain ⟨-, rfl⟩ := setVariable_ok hok
  exact hws.congr rfl rfl rfl rfl rfl

/-! ## The folders of a project -/

/-- A folder is made where nothing is. -/
theorem createFolder_eq_ok (hname : IsProjectName name) (hpath : IsFilePath path)
    (hproject : ws.project? name = some project) (hfile : project.file? path = none)
    (hfolder : project.hasFolder path = false) :
    ws.createFolder ("/" ++ name ++ "/" ++ path) =
      .ok { ws with projects := ws.projects.insert name (project.addFolder path) } := by
  have hrequire : ws.requireProject name = .ok project := requireProject_eq_ok_iff.2 hproject
  unfold createFolder
  rw [splitPath_join hname hpath]
  simp only [bind, Except.bind, hrequire, hfile, hfolder, hpath.ne_empty, if_false]
  rfl

/-- The workspace in which a project has these folders. -/
def withFolders (ws : Workspace) (name : String) (project : Project) (folders : Table String Unit) :
    Workspace :=
  { ws with projects := ws.projects.insert name { project with folders := folders } }

theorem project?_withFolders (folders : Table String Unit) :
    (ws.withFolders name project folders).project? name =
      some { project with folders := folders } :=
  Table.get?_insert_self _ _ _

/-- The folders after one more of them was asked for. -/
def moreFolders (folders : Table String Unit) (folder : String) : Table String Unit :=
  if folders.contains folder then folders
  else (folderPaths folder).foldl (·.insert · ()) folders

/-- **A folder of a project without files** is made, or is there. -/
theorem loadFolder_withFolders (hname : IsProjectName name) (hfiles : project.files = ∅)
    (folders : Table String Unit) {folder : String} (hfolder : IsFilePath folder) :
    loadFolder name (ws.withFolders name project folders) folder =
      .ok (ws.withFolders name project (moreFolders folders folder)) := by
  have hget : (ws.withFolders name project folders).project? name =
      some { project with folders := folders } := project?_withFolders folders
  have hhas : ({ project with folders := folders } : Project).hasFolder folder =
      folders.contains folder := by
    simp [hasFolder, hfolder.ne_empty]
  unfold loadFolder moreFolders
  rw [requireProject_eq_ok_iff.2 hget]
  simp only [bind, Except.bind, hhas]
  cases hnew : folders.contains folder with
  | true => rfl
  | false =>
    refine (createFolder_eq_ok hname hfolder hget ?_ (hhas.trans hnew)).trans ?_
    · rw [file?, hfiles]
      rfl
    · simp only [withFolders, Table.insert_insert]
      rfl

/-- Some folders of a tree were made, and no other ones than folders of the tree. -/
structure FoldersMade (content : Directory) (project : Project) (done : List String)
    (folders : Table String Unit) : Prop where
  made : ∀ path ∈ done, folders.contains path = true
  kept : ∀ path, project.folders.contains path = true → folders.contains path = true
  only : ∀ path, folders.contains path = true →
    content.folders.contains path = true ∨ project.folders.contains path = true

/-- **One folder more**: with it come the folders on the way to it, which the tree has too. -/
theorem FoldersMade.concat {content : Directory} (htree : content.IsTree) {done : List String}
    {folders : Table String Unit} (h : FoldersMade content project done folders) {folder : String}
    (hfolder : content.folders.contains folder = true) :
    FoldersMade content project (done ++ [folder]) (moreFolders folders folder) := by
  have hplain : IsPlain folder :=
    isPlain_of_parts (htree.names folder (Directory.mem_paths_of_folder hfolder))
  have hmade : ∀ path, (moreFolders folders folder).contains path = true ↔
      folders.contains path = true ∨
        folders.contains folder = false ∧ path ∈ folderPaths folder := by
    intro path
    unfold moreFolders
    split
    next hold => simp [hold]
    next hnew => rw [contains_foldl_insert]; simp [hnew, or_comm]
  refine ⟨fun path hpath => ?_, fun path hpath => (hmade path).2 (.inl (h.kept path hpath)),
    fun path hpath => ?_⟩
  · rw [hmade]
    rcases List.mem_append.1 hpath with hdone | hlast
    · exact .inl (h.made path hdone)
    · obtain rfl := List.mem_singleton.1 hlast
      cases folders.contains path with
      | true => exact .inl rfl
      | false => exact .inr ⟨rfl, isPlain_iff_mem_folderPaths.1 hplain⟩
  · rcases (hmade path).1 hpath with hold | ⟨-, hstep⟩
    · exact h.only path hold
    · left
      rcases begins_of_mem_folderPaths hplain hstep with rfl | ⟨inner, rfl⟩
      · exact hfolder
      · refine htree.contains_outer ?_ hfolder
        rintro rfl
        exact isPlain_of_mem_folderPaths hstep (by decide)

/-- **The folders of a tree** are made. -/
theorem exists_loadFolders {content : Directory} (htree : content.IsTree)
    (hname : IsProjectName name) (hproject : ws.project? name = some project)
    (hfiles : project.files = ∅) :
    ∃ folders,
      content.folders.keys.foldlM (loadFolder name) ws = .ok (ws.withFolders name project folders) ∧
      ∀ path, folders.contains path = true ↔
        content.folders.contains path = true ∨ project.folders.contains path = true := by
  have hstart : ∃ folders, ws = ws.withFolders name project folders ∧
      FoldersMade content project [] folders := by
    refine ⟨project.folders, ?_, fun path h => ?_, fun path h => h, fun path h => .inr h⟩
    · rw [withFolders, Table.insert_of_get? hproject]
    · cases h
  have hrun := exists_foldlM (loadFolder name) content.folders.keys ws
    (P := fun done next => ∃ folders, next = ws.withFolders name project folders ∧
      FoldersMade content project done folders) hstart ?_
  · obtain ⟨_, hok, folders, rfl, hmade⟩ := hrun
    refine ⟨folders, hok, fun path => ⟨hmade.only path, ?_⟩⟩
    rintro (hfolder | hold)
    · exact hmade.made path (Table.mem_keys_iff.2 (Table.contains_iff.1 hfolder))
    · exact hmade.kept path hold
  · rintro done folder rest _ hkeys ⟨folders, rfl, hmade⟩
    have hfolder : content.folders.contains folder = true := by
      refine Table.contains_iff.2 (Table.mem_keys_iff.1 ?_)
      rw [← hkeys]
      exact List.mem_append_right _ List.mem_cons_self
    have hpath := isFilePath_of_parts (htree.names folder (Directory.mem_paths_of_folder hfolder))
    exact ⟨_, loadFolder_withFolders hname hfiles folders hpath, _, rfl,
      hmade.concat htree hfolder⟩

/-! ## The files of a project -/

/-- What has been made of a project without files and of all else when files were loaded into it. -/
structure FilesLoaded (ws : Workspace) (old : Project) (done : List (String × String))
    (next : Workspace) (made : Project) : Prop where
  inStep : next.FilesInStep
  project_eq : next.project? old.name = some made
  id_eq : made.id = old.id
  config_eq : made.configAs old.name = old.configAs old.name
  folders_eq : made.folders = old.folders
  paths : made.files.keys = done.map (·.1)
  numbers : made.files.values.map (·.index) = List.range' ws.ids.nextFile done.length
  texts : ∀ path, next.textAt? old.name path =
    (done.find? fun file => file.1 = path).map fun file => some file.2
  nextFile : next.ids.nextFile = ws.ids.nextFile + done.length
  nextProject : next.ids.nextProject = ws.ids.nextProject
  others : ∀ name, name ≠ old.name → LeavesAlone ws next name
  archives : SameArchives ws next

theorem FilesLoaded.nil (h : ws.FilesInStep) (hproject : ws.project? old.name = some old)
    (hfiles : old.files = ∅) : FilesLoaded ws old [] ws old where
  inStep := h
  project_eq := hproject
  id_eq := rfl
  config_eq := rfl
  folders_eq := rfl
  paths := by rw [hfiles]; rfl
  numbers := by rw [hfiles]; rfl
  texts path := by
    rw [textAt?, fileAt?_of_project hproject, file?, hfiles]
    rfl
  nextFile := rfl
  nextProject := rfl
  others name _ := LeavesAlone.refl ws name
  archives := SameArchives.refl ws

/-- The files of a project are those that were loaded into it. -/
theorem FilesLoaded.file?_eq_none {done : List (String × String)}
    (h : FilesLoaded ws old done next made) (hpath : path ∉ done.map (·.1)) :
    made.file? path = none := by
  by_contra hsome
  rw [← h.paths] at hpath
  exact hpath (Table.mem_keys_iff.2 (Option.ne_none_iff_exists'.1 hsome))

/-- **One file more**, whose path comes after those of the others, is put at the end. -/
theorem FilesLoaded.concat {done : List (String × String)}
    (h : FilesLoaded ws old done next made) {file : String × String}
    (hlast : ∀ other ∈ done, other.1 < file.1) (hpath : IsFilePath file.1) :
    ∃ more, FilesLoaded ws old (done ++ [file]) (next.addFile made file.1 file.2).2 more := by
  have hname : made.name = old.name := (h.inStep.project_name h.project_eq).1
  have hnew : file.1 ∉ done.map (·.1) := by
    intro hmem
    obtain ⟨other, hother, heq⟩ := List.mem_map.1 hmem
    exact Std.lt_irrefl (heq ▸ hlast other hother)
  have hproject : next.project? made.name = some made := hname ▸ h.project_eq
  have hfree := h.file?_eq_none hnew
  have t : Touches next (next.addFile made file.1 file.2).2 made file.1 _ (some file.2) :=
    touches_addFile h.inStep hproject hfree hpath
  have hentries : (made.files.insert file.1 ⟨next.ids.nextFile⟩).entries =
      made.files.entries ++ [(file.1, ⟨next.ids.nextFile⟩)] := by
    refine Table.entries_insert_of_lt _ fun e he => ?_
    have hkey : e.1 ∈ done.map (·.1) := h.paths ▸ List.mem_map_of_mem he
    obtain ⟨other, hother, heq⟩ := List.mem_map.1 hkey
    exact heq ▸ hlast other hother
  refine ⟨_, t.filesInStep h.inStep, (t.projects old.name).trans (if_pos hname.symm), h.id_eq,
    h.config_eq, h.folders_eq, ?_, ?_, fun path => ?_, ?_, h.nextProject, fun name hne => ?_,
    h.archives.trans (SameArchives.addFile next made file.1 file.2)⟩
  · show (made.files.insert file.1 _).entries.map (·.1) = _
    rw [hentries, List.map_append, List.map_append]
    exact congrArg (· ++ [file.1]) h.paths
  · show ((made.files.insert file.1 _).entries.map (·.2)).map (·.index) = _
    rw [hentries, List.map_append, List.map_append, List.length_append, List.length_singleton,
      ← List.range'_append_1]
    refine congrArg₂ (· ++ ·) h.numbers ?_
    rw [h.nextFile]
    rfl
  · rw [← hname, t.textAt?, hname, List.find?_append]
    by_cases heq : path = file.1
    · have hnone : done.find? (fun other => other.1 = path) = none := by
        rw [List.find?_eq_none]
        intro other hother hsame
        exact hnew (List.mem_map.2 ⟨other, hother, (of_decide_eq_true hsame).trans heq⟩)
      rw [if_pos heq, hnone, Option.none_or, List.find?_cons_of_pos (by simpa using heq.symm)]
      rfl
    · rw [if_neg heq, h.texts, List.find?_cons_of_neg (by simpa using Ne.symm heq), List.find?_nil,
        Option.or_none]
  · rw [List.length_append, ← Nat.add_assoc, ← h.nextFile]
    rfl
  · exact (h.others name hne).trans (LeavesAlone.of_touches t (hname ▸ hne))

/-- **The texts of a tree** are loaded into a project that has the folders of the tree. -/
theorem exists_loadFiles {content : Directory} (htree : content.IsTree) (h : ws.FilesInStep)
    (hproject : ws.project? old.name = some old) (hfiles : old.files = ∅)
    (hfolders : ∀ path, content.folders.contains path = true → old.folders.contains path = true)
    (hfree : ∀ path text, content.text? path = some text → old.folders.contains path = false) :
    ∃ next made, content.texts.foldlM (loadFile old.name) ws = .ok next ∧
      FilesLoaded ws old content.texts next made := by
  have hrun := exists_foldlM (loadFile old.name) content.texts ws
    (P := fun done next => ∃ made, FilesLoaded ws old done next made)
    ⟨old, .nil h hproject hfiles⟩ ?_
  · obtain ⟨next, hok, made, hloaded⟩ := hrun
    exact ⟨next, made, hok, hloaded⟩
  · rintro done ⟨path, text⟩ rest mid hxs ⟨made, hmade⟩
    have hmem : (path, text) ∈ content.texts := by
      rw [← hxs]
      exact List.mem_append_right _ List.mem_cons_self
    have hordered := content.pairwise_texts
    rw [← hxs, List.pairwise_append] at hordered
    have hlast : ∀ other ∈ done, other.1 < path := fun other hother =>
      hordered.2.2 other hother (path, text) List.mem_cons_self
    have htext : content.text? path = some text := Directory.mem_texts_iff.1 hmem
    obtain ⟨bytes, hbytes, -⟩ := Option.bind_eq_some_iff.1 htext
    have hlisted := Directory.mem_paths_of_file hbytes
    have hpath : IsFilePath path := isFilePath_of_parts (htree.names path hlisted)
    have hhas : ∀ other, made.hasFolder other = true ↔
        other = "" ∨ old.folders.contains other = true := by
      intro other
      rw [hasFolder_iff, hmade.folders_eq]
    have hfolder : made.hasFolder path = false := by
      rw [Bool.eq_false_iff, ne_eq, hhas, hfree path text htext]
      simp [hpath.ne_empty]
    have hparent : made.hasFolder (parentFolder path) = true :=
      (hhas _).2 ((htree.parent path hlisted).imp_right (hfolders _))
    have hnew : path ∉ done.map (·.1) := by
      intro hdone
      obtain ⟨other, hother, rfl⟩ := List.mem_map.1 hdone
      exact Std.lt_irrefl (hlast other hother)
    refine ⟨_, ?_, hmade.concat hlast hpath⟩
    unfold loadFile
    rw [createFile_eq (h.project_name hproject).2 hpath hmade.project_eq (hmade.file?_eq_none hnew)
      hfolder, if_pos hparent]
    rfl

/-- **A tree is loaded** into a project without files that has no folder where the tree has a text:
the folders first, then the texts. -/
theorem exists_loadContent {content : Directory} (htree : content.IsTree) (h : ws.FilesInStep)
    (hproject : ws.project? old.name = some old) (hfiles : old.files = ∅)
    (hfree : ∀ path text, content.text? path = some text → old.folders.contains path = false) :
    ∃ folders next made,
      (content.folders.keys.foldlM (loadFolder old.name) ws >>=
        content.texts.foldlM (loadFile old.name)) = .ok next ∧
      FilesLoaded (ws.withFolders old.name old folders) { old with folders := folders }
        content.texts next made ∧
      ∀ path, folders.contains path = true ↔
        content.folders.contains path = true ∨ old.folders.contains path = true := by
  obtain ⟨folders, hmade, hfolders⟩ :=
    exists_loadFolders htree (h.project_name hproject).2 hproject hfiles
  set filled : Project := { old with folders := folders } with hfilled
  have hthere : (ws.withFolders old.name old folders).project? filled.name = some filled :=
    project?_withFolders folders
  have hnone : ∀ path text, content.text? path = some text → folders.contains path = false := by
    intro path text htext
    rw [Bool.eq_false_iff, ne_eq, hfolders, hfree path text htext, not_or]
    refine ⟨fun hfolder => ?_, Bool.false_ne_true⟩
    rw [htree.text?_eq_none hfolder] at htext
    cases htext
  obtain ⟨next, made, hload, hloaded⟩ :=
    exists_loadFiles htree (h.setFolders hproject folders) hthere hfiles
      (fun path hpath => (hfolders path).2 (.inl hpath)) hnone
  exact ⟨folders, next, made, bind_eq_ok_iff.2 ⟨_, hmade, hload⟩, hloaded, hfolders⟩

/-! ## One project -/

/-- **A project holds what is below its folder** of a directory: the texts with their paths, and the
folders, with which the source folders come. -/
structure Mirrors (ws : Workspace) (dir : Directory) (p : ProjectManifest) (project : Project) :
    Prop where
  found : ws.project? p.name = some project
  config : project.configAs p.name = p.config
  texts : ∀ path, ws.textAt? p.name path = (dir.text? (p.name ++ "/" ++ path)).map some
  folders : ∀ path, project.folders.contains path = true ↔
    dir.folders.contains (p.name ++ "/" ++ path) = true ∨ path ≠ "" ∧ path ∈ p.config.sourceFolders

/-- What leaves a project alone leaves it what it holds. -/
theorem Mirrors.of_leavesAlone (h : ws.Mirrors dir p project)
    (halone : LeavesAlone ws next p.name) : next.Mirrors dir p project where
  found := halone.project_eq.trans h.found
  config := h.config
  texts path := by
    rw [← h.texts, textAt?, textAt?, halone.fileAt?_eq]
    cases hfile : ws.fileAt? p.name path with
    | none => rfl
    | some file => rw [Option.map_some, Option.map_some, halone.contents_eq hfile]
  folders := h.folders

/-- A project without a folder is loaded as one whose folder is empty. -/
theorem loadProject_eq (htree : dir.IsTree) (hname : IsFileName p.name) (ws : Workspace) :
    loadProject dir ws p = ws.createProject p.config >>= fun created =>
      (dir.below p.name).folders.keys.foldlM (loadFolder p.name) created.2 >>=
        (dir.below p.name).texts.foldlM (loadFile p.name) := by
  unfold loadProject
  rw [Directory.open?_of_isFileName hname]
  cases hfolder : dir.folders.contains p.name with
  | true => rfl
  | false =>
    have hpaths : (dir.below p.name).paths = [] := by
      refine List.eq_nil_iff_forall_not_mem.2 fun path hpath => ?_
      exact htree.not_mem_paths_slash_append hname.ne_empty hfolder path
        (Directory.mem_paths_below_iff.1 hpath)
    obtain ⟨hfiles, hfolders⟩ := List.append_eq_nil_iff.1 hpaths
    have htexts : (dir.below p.name).texts = [] := by
      unfold Directory.texts
      rw [List.map_eq_nil_iff.1 hfiles, List.filterMap_nil]
    rw [hfolders, htexts]
    cases ws.createProject p.config <;> rfl

/-- What loading a project has made: the project under the next number, and its files under the
numbers after those that were given out. -/
structure ProjectLoaded (dir : Directory) (ws next : Workspace) (p : ProjectManifest)
    (made : Project) : Prop where
  inStep : next.FilesInStep
  mirrors : next.Mirrors dir p made
  id_eq : made.id.index = ws.ids.nextProject
  numbers : made.files.values.map (·.index) =
    List.range' ws.ids.nextFile made.files.entries.length
  nextFile : next.ids.nextFile = ws.ids.nextFile + made.files.entries.length
  nextProject : next.ids.nextProject = ws.ids.nextProject + 1
  others : ∀ name, name ≠ p.name → LeavesAlone ws next name
  archives : SameArchives ws next

/-- A project is made under a name that a file can have. -/
theorem createProject_eq_ok (hname : IsFileName p.name) (hnew : ws.project? p.name = none) :
    ws.createProject p.config = .ok (ws.ids.project.1, { ws with
      ids := ws.ids.project.2
      projects := ws.projects.insert p.name (.ofConfig ws.ids.project.1 p.config) }) := by
  have hgood : ¬(p.config.name = "" ∨ '/' ∈ p.config.name.toList) :=
    not_or.2 ⟨hname.ne_empty, hname.no_slash⟩
  have hfree : ws.projects.contains p.config.name = false :=
    Option.isSome_eq_false_iff.2 (Option.isNone_iff_eq_none.2 hnew)
  unfold createProject
  rw [if_neg hgood, hfree]
  rfl

/-- **A new project is loaded** if no source folder of it has the path of a text. -/
theorem exists_loadProject (htree : dir.IsTree) (h : ws.FilesInStep) (hname : IsFileName p.name)
    (hnew : ws.project? p.name = none)
    (hsource : ∀ folder ∈ p.config.sourceFolders, dir.text? (p.name ++ "/" ++ folder) = none) :
    ∃ next made, loadProject dir ws p = .ok next ∧ ProjectLoaded dir ws next p made := by
  have hcreate := createProject_eq_ok hname hnew
  set empty : Project := .ofConfig ws.ids.project.1 p.config with hempty
  set created : Workspace :=
    { ws with ids := ws.ids.project.2, projects := ws.projects.insert p.name empty } with hcreated
  have hget : created.project? p.name = some empty := Table.get?_insert_self _ _ _
  have hfree : ∀ path text, (dir.below p.name).text? path = some text →
      empty.folders.contains path = false := by
    intro path text htext
    rw [Bool.eq_false_iff, ne_eq, contains_folders_ofConfig]
    rintro ⟨-, hfolder⟩
    rw [Directory.text?_below, hsource path hfolder] at htext
    cases htext
  obtain ⟨folders, next, made, hload, hfiles, hfolders⟩ :=
    exists_loadContent (htree.below p.name) (h.createProject hcreate) hget rfl hfree
  have hlength : made.files.entries.length = (dir.below p.name).texts.length := by
    simpa [Table.keys] using congrArg List.length hfiles.paths
  refine ⟨next, made, ?_, hfiles.inStep, ⟨hfiles.project_eq, hfiles.config_eq, fun path => ?_,
    fun path => ?_⟩, ?_, ?_, ?_, hfiles.nextProject, fun name hne => ?_, ?_⟩
  · rw [loadProject_eq htree hname]
    exact bind_eq_ok_iff.2 ⟨_, hcreate, hload⟩
  · rw [← Directory.text?_below, ← Directory.find?_texts, Option.map_map]
    exact hfiles.texts path
  · rw [hfiles.folders_eq, hfolders, Directory.contains_folders_below,
      contains_folders_ofConfig]
  · rw [hfiles.id_eq]
    rfl
  · rw [hlength]
    exact hfiles.numbers
  · rw [hlength]
    exact hfiles.nextFile
  · refine .trans (.trans (.createProject (Ne.symm hne) hcreate) ?_) (hfiles.others name hne)
    exact LeavesAlone.insert _ hne
  · have hsame : SameArchives created (created.withFolders p.name empty folders) :=
      ⟨rfl, rfl, rfl⟩
    exact ((SameArchives.createProject hcreate).trans hsame).trans hfiles.archives

/-! ## All projects -/

/-- What loading some projects of a manifest has made: each holds what is below its folder, they
have consecutive numbers, and so have their files. -/
structure ProjectsLoaded (dir : Directory) (start : Workspace) (done : List ProjectManifest)
    (next : Workspace) (made : List Project) : Prop where
  inStep : next.FilesInStep
  mirrors : List.Forall₂ (next.Mirrors dir) done made
  listed : ∀ name project, next.project? name = some project → name ∈ done.map (·.name)
  ids : made.map (·.id.index) = List.range next.ids.nextProject
  numbers : (made.flatMap fun project => project.files.values.map (·.index)) =
    List.range next.ids.nextFile
  archives : SameArchives start next

theorem ProjectsLoaded.nil (h : start.IsBare) : ProjectsLoaded dir start [] start [] where
  inStep := h.inStep
  mirrors := .nil
  listed name project hproject := by
    rw [project?, h.projects] at hproject
    cases hproject
  ids := by rw [h.nextProject]; rfl
  numbers := by rw [h.nextFile]; rfl
  archives := SameArchives.refl start

/-- There are no other projects. -/
theorem ProjectsLoaded.mem_of_project? {done : List ProjectManifest} {projects : List Project}
    (h : ProjectsLoaded dir start done next projects)
    (hproject : next.project? name = some project) : project ∈ projects := by
  obtain ⟨p, hp, rfl⟩ := List.mem_map.1 (h.listed name project hproject)
  obtain ⟨i, hi, rfl⟩ := List.getElem_of_mem hp
  have hi' : i < projects.length := h.mirrors.length_eq ▸ hi
  have hfound : next.project? done[i].name = some projects[i] := (h.mirrors.get hi hi').found
  obtain rfl := Option.some.inj (hproject.symm.trans hfound)
  exact List.getElem_mem hi'

/-- **One project more** leaves those alone that were loaded before it. -/
theorem ProjectsLoaded.concat {done : List ProjectManifest} {projects : List Project}
    (h : ProjectsLoaded dir start done mid projects) (hnew : p.name ∉ done.map (·.name))
    (hloaded : ProjectLoaded dir mid next p made) :
    ProjectsLoaded dir start (done ++ [p]) next (projects ++ [made]) where
  inStep := hloaded.inStep
  mirrors := by
    obtain ⟨hlength, hmirrors⟩ := List.forall₂_iff_zip.1 h.mirrors
    refine List.rel_append (List.forall₂_iff_zip.2 ⟨hlength, fun {q project} hmem => ?_⟩)
      (.cons hloaded.mirrors .nil)
    refine (hmirrors hmem).of_leavesAlone (hloaded.others q.name fun heq => hnew ?_)
    exact List.mem_map.2 ⟨q, (List.of_mem_zip hmem).1, heq⟩
  listed name project hproject := by
    rw [List.map_append, List.mem_append]
    by_cases hname : name = p.name
    · exact .inr (List.mem_singleton.2 hname)
    · rw [(hloaded.others name hname).project_eq] at hproject
      exact .inl (h.listed name project hproject)
  ids := by
    rw [List.map_append, h.ids, hloaded.nextProject, List.range_succ, ← hloaded.id_eq]
    rfl
  numbers := by
    rw [List.flatMap_append, h.numbers, List.flatMap_singleton, hloaded.numbers, hloaded.nextFile,
      List.range_eq_range', List.range_eq_range', ← List.range'_append_1, Nat.zero_add]
  archives := h.archives.trans hloaded.archives

/-- **A directory tree is loaded** whenever the archives and the variables of its manifest are, if
its projects have different names that folders can have, and no source folder has the path of a
text. Each project then holds the texts below its folder and no other files, and the folders below
it and its source folders and no other ones. Projects are numbered as the manifest lists them, and
files project by project, by ascending path. There are no other projects. -/
theorem exists_load (htree : dir.IsTree) (hmanifest : Manifest.ofDirectory dir = .ok manifest)
    (hlibraries : loadLibraries dir manifest = .ok start)
    (hnodup : (manifest.projects.map (·.name)).Nodup)
    (hnames : ∀ p ∈ manifest.projects, IsFileName p.name)
    (hsource : ∀ p ∈ manifest.projects, ∀ folder ∈ p.config.sourceFolders,
      dir.text? (p.name ++ "/" ++ folder) = none) :
    ∃ ws made, load dir = .ok ws ∧ List.Forall₂ (ws.Mirrors dir) manifest.projects made ∧
      made.map (·.id.index) = List.range made.length ∧
      (made.flatMap fun project => project.files.values.map (·.index)) =
        List.range ws.ids.nextFile ∧
      (∀ name project, ws.project? name = some project → project ∈ made) ∧
      ws.archives = start.archives ∧ ws.vars = start.vars := by
  have hrun := exists_foldlM (loadProject dir) manifest.projects start
    (P := fun done next => ∃ made, ProjectsLoaded dir start done next made)
    ⟨[], .nil (isBare_of_loadLibraries hlibraries)⟩ ?_
  · obtain ⟨ws, hok, made, hloaded⟩ := hrun
    have hlength : made.length = ws.ids.nextProject := by
      simpa using congrArg List.length hloaded.ids
    refine ⟨ws, made, ?_, hloaded.mirrors, hlength ▸ hloaded.ids, hloaded.numbers,
      fun _ _ => hloaded.mem_of_project?, hloaded.archives.archives, hloaded.archives.vars⟩
    unfold load
    rw [hmanifest]
    exact (loadManifest_eq dir manifest).trans (bind_eq_ok_iff.2 ⟨start, hlibraries, hok⟩)
  · rintro done p rest mid hxs ⟨made, hmade⟩
    have hp : p ∈ manifest.projects := by
      rw [← hxs]
      exact List.mem_append_right _ List.mem_cons_self
    have hnew : p.name ∉ done.map (·.name) := by
      rw [← hxs, List.map_append, List.map_cons, List.nodup_append] at hnodup
      exact fun hmem => hnodup.2.2 p.name hmem p.name List.mem_cons_self rfl
    have hfree : mid.project? p.name = none := by
      by_contra hsome
      obtain ⟨project, hproject⟩ := Option.ne_none_iff_exists'.1 hsome
      exact hnew (hmade.listed p.name project hproject)
    obtain ⟨next, project, hok, hloaded⟩ :=
      exists_loadProject htree hmade.inStep (hnames p hp) hfree (hsource p hp)
    exact ⟨next, hok, _, hmade.concat hnew hloaded⟩

/-- A manifest of an archive and of two projects, the first one with two source folders. -/
def twoProjects : Manifest where
  archives := [⟨"l.jar", "lib", none⟩]
  vars := .insert .empty "L" "l.jar"
  projects := [⟨"P", ["src", "/gen/"], [], none⟩, ⟨"Q", [""], [], none⟩]

/-- A directory with that manifest. One source folder of the first project is not there, one file of
it is no text, and a folder of it is empty; the second project has no folder. -/
def twoProjectsDirectory : Directory :=
  .ofListing
    [("workspace.json",
        ("[[[\"l.jar\",\"lib\"]],\x7b\"L\":\"l.jar\"\x7d," ++
          "[[\"P\",[\"src\",\"/gen/\"]],[\"Q\"]]]").toUTF8),
      ("lib/q/B.java", "class B \x7b\x7d".toUTF8), ("P/src/p/A.java", "class A \x7b\x7d".toUTF8),
      ("P/src/p/A.class", ⟨#[255]⟩), ("P/notes.txt", "notes".toUTF8)]
    ["P/empty"]

/-- What the first of two projects holds. -/
theorem load_twoProjects : ∃ ws project, load twoProjectsDirectory = .ok ws ∧
    ws.project? "P" = some project ∧
    ws.textAt? "P" "src/p/A.java" = some (some "class A \x7b\x7d") ∧
    ws.textAt? "P" "src/p/A.class" = none ∧
    project.folders.contains "empty" = true ∧ project.folders.contains "gen" = true := by
  have htree : twoProjectsDirectory.IsTree := by decide +kernel
  have hmanifest : Manifest.ofDirectory twoProjectsDirectory = .ok twoProjects := by
    decide +kernel
  have hok : (loadLibraries twoProjectsDirectory twoProjects).isOk = true := by decide +kernel
  have hsource : ∀ p ∈ twoProjects.projects, ∀ folder ∈ p.config.sourceFolders,
      twoProjectsDirectory.text? (p.name ++ "/" ++ folder) = none := by
    decide +kernel
  cases hlibraries : loadLibraries twoProjectsDirectory twoProjects with
  | error e =>
    rw [hlibraries] at hok
    cases hok
  | ok start =>
    obtain ⟨ws, made, hload, hmirrors, -⟩ :=
      exists_load htree hmanifest hlibraries (by decide) (by decide) hsource
    obtain _ | ⟨hfirst, -⟩ := hmirrors
    refine ⟨ws, _, hload, hfirst.found, (hfirst.texts _).trans ?_, (hfirst.texts _).trans ?_,
      (hfirst.folders _).2 (.inl ?_), (hfirst.folders _).2 (.inr ?_)⟩
    all_goals decide +kernel

end Workspace

end SourceSearch
