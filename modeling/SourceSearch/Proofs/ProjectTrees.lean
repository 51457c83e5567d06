import SourceSearch.Proofs.ProjectFolders
import SourceSearch.Proofs.Reachable

/-!
# Trees of resources in reachable workspaces

`Workspace.Yields` says once what an edit makes of each project. From it two things follow for every
reachable workspace: source folders are folders and every file is in a folder
(`foldersInStep_afterAll`), and all projects are trees until an edit breaks one of them
(`hasTrees_afterAll_iff`). An edit that succeeds breaks a tree in two ways (`Edit.Breaks`), and a
folder that it was asked for can be missing where a part of the path is blank
(`hasFolder_createFolder`).
-/

set_option autoImplicit false

namespace SourceSearch

open Workspace

/-! ## What an edit makes of each project -/

namespace Workspace

open Project

variable {ws next : Workspace}

/-- **How a project of the workspace after an edit comes about.** -/
inductive Yields (ws : Workspace) : Edit → String → Project → Prop
  | stays {edit : Edit} {name : String} {old made : Project} (hold : ws.project? name = some old)
    (hsame : made.SameFolders old fun _ => False) : Yields ws edit name made
  | created {config : ProjectConfig} {made : ProjectId × Workspace} (name : String)
    (id : ProjectId) (hok : ws.createProject config = .ok made) :
    Yields ws (.createProject config) name (.ofConfig id config)
  | copied {source target : String} {old made : Project} (name : String)
    (hold : ws.project? source = some old) (hcopy : made.IsCopyOf old) :
    Yields ws (.copyProject source target) name made
  | withFolder {path name rel : String} {next : Workspace} {old : Project}
    (hok : ws.createFolder path = .ok next) (hsplit : splitPath path = .ok (name, rel))
    (hold : ws.project? name = some old) :
    Yields ws (.createFolder path) name (old.addFolder rel)
  | withFile {path text name rel : String} {old made : Project} (hold : ws.project? name = some old)
    (hsame : made.SameFolders old (· = rel)) : Yields ws (.createFile path text) name made

/-- A project that an edit does not touch. -/
theorem Yields.same {edit : Edit} {name : String} {made : Project}
    (h : ws.project? name = some made) : Yields ws edit name made :=
  .stays h (.of_files rfl (fun _ => rfl) fun _ file hfile => ⟨file, hfile⟩)

/-- A change of one file makes other folders in no project, and files nowhere else. -/
theorem Touches.project_after {project : Project} {rel : String} {file : FileId}
    {text? : Option String} (t : Touches ws next project rel file text?) {made : Project}
    (hmade : next.project? project.name = some made) :
    made.sourceFolders = project.sourceFolders ∧
      (∀ path, made.hasFolder path = project.hasFolder path) ∧
      ∀ path found, made.file? path = some found →
        path = rel ∧ text?.isSome ∨ ∃ other, project.file? path = some other := by
  have hfiles := t.fileAt? project.name
  rw [t.projects, if_pos rfl] at hmade
  obtain rfl := Option.some.inj hmade
  refine ⟨rfl, fun _ => rfl, fun path found hfound => ?_⟩
  have hat : next.fileAt? project.name path = some found := by
    rw [fileAt?_of_project (by rw [t.projects, if_pos rfl])]
    exact hfound
  rw [hfiles] at hat
  split at hat
  next heq =>
    cases text? with
    | none => cases hat
    | some text => exact .inl ⟨heq.2, rfl⟩
  next =>
    rw [fileAt?_of_project t.project_eq] at hat
    exact .inr ⟨found, hat⟩

/-- Where a file is that was there, or none at all, every project stays as it is but for files. -/
theorem Touches.yields {edit : Edit} {project : Project} {rel : String} {file : FileId}
    {text? : Option String} (t : Touches ws next project rel file text?)
    (hold : text?.isSome → ∃ other, project.file? rel = some other) {name : String}
    {made : Project} (hmade : next.project? name = some made) : Yields ws edit name made := by
  by_cases hname : name = project.name
  · subst hname
    obtain ⟨hsource, hfolders, hfiles⟩ := t.project_after hmade
    refine .stays t.project_eq (.of_files hsource hfolders fun path found hfound => ?_)
    rcases hfiles path found hfound with ⟨rfl, hsome⟩ | hother
    · exact hold hsome
    · exact hother
  · rw [t.projects, if_neg hname] at hmade
    exact .same hmade

theorem yields_createProject {config : ProjectConfig} {id : ProjectId}
    (hok : ws.createProject config = .ok (id, next)) {name : String} {made : Project}
    (hmade : next.project? name = some made) : Yields ws (.createProject config) name made := by
  obtain ⟨-, -, rfl⟩ := createProject_ok hok
  simp only [project?, Table.get?_insert] at hmade
  split at hmade
  next =>
    obtain rfl := Option.some.inj hmade
    exact .created name _ hok
  next => exact .same hmade

theorem project?_deleteProject {gone : String} (hok : ws.deleteProject gone = .ok next)
    {name : String} {made : Project} (hmade : next.project? name = some made) :
    ws.project? name = some made := by
  obtain ⟨project, -, rfl⟩ := deleteProject_ok hok
  simp only [project?, Table.get?_erase] at hmade
  split at hmade
  next => cases hmade
  next => exact hmade

theorem project?_deleteProjects {names : List String} (hok : ws.deleteProjects names = .ok next)
    {name : String} {made : Project} (hmade : next.project? name = some made) :
    ws.project? name = some made := by
  refine deleteProjects_induction (P := fun next => ∀ made, next.project? name = some made →
    ws.project? name = some made) (fun _ h => h) ?_ hok made hmade
  intro mid after gone hmid _ hone found hfound
  exact hmid found (project?_deleteProject hone hfound)

/-- A workspace in which a project is being filled with the files of another one. -/
structure Copying (ws mid : Workspace) (copied filled : Project) (target : String) : Prop where
  elsewhere : ∀ {name made}, name ≠ target → mid.project? name = some made →
    ws.project? name = some made
  sourceFolders : ∀ {made}, mid.project? target = some made →
    made.sourceFolders = filled.sourceFolders
  folders : ∀ {made}, mid.project? target = some made →
    ∀ path, made.hasFolder path = filled.hasFolder path
  files : ∀ {made}, mid.project? target = some made →
    ∀ path file, made.file? path = some file → ∃ other, copied.file? path = some other

/-- The folders of a copy are there before its files. -/
theorem Copying.of_createProject {copied filled : Project} {target : String} {id : ProjectId}
    {created : Workspace} (hok : ws.createProject (copied.configAs target) = .ok (id, created))
    (hempty : ∀ path, filled.file? path = none) :
    Copying ws { created with projects := created.projects.insert target filled } copied filled
      target := by
  obtain ⟨-, -, rfl⟩ := createProject_ok hok
  have hfilled : ∀ {made}, ((ws.projects.insert target
      (.ofConfig ws.ids.project.1 (copied.configAs target))).insert target filled).get? target =
        some made → filled = made := by
    intro made hmade
    rw [Table.get?_insert_self] at hmade
    exact Option.some.inj hmade
  refine ⟨?_, ?_, ?_, ?_⟩
  · intro name made hne hmade
    have hother : name ≠ (copied.configAs target).name := hne
    simp only [project?, Table.get?_insert] at hmade
    rw [if_neg hne, if_neg hother] at hmade
    exact hmade
  · intro made hmade
    rw [hfilled hmade]
  · intro made hmade path
    rw [hfilled hmade]
  · intro made hmade path file hfile
    rw [← hfilled hmade, hempty] at hfile
    cases hfile

/-- **Each file** that is copied leaves the folders as they are. -/
theorem Copying.of_touches {mid after : Workspace} {copied filled project : Project}
    {rel text : String} {file copy : FileId} (h : Copying ws mid copied filled project.name)
    (hfile : copied.file? rel = some file)
    (t : Touches mid after project rel copy (some text)) :
    Copying ws after copied filled project.name where
  elsewhere hne hmade := by
    rw [t.projects, if_neg hne] at hmade
    exact h.elsewhere hne hmade
  sourceFolders hmade := (t.project_after hmade).1.trans (h.sourceFolders t.project_eq)
  folders hmade path := ((t.project_after hmade).2.1 path).trans (h.folders t.project_eq path)
  files hmade path found hfound := by
    rcases (t.project_after hmade).2.2 path found hfound with ⟨rfl, -⟩ | ⟨other, hother⟩
    · exact ⟨file, hfile⟩
    · exact h.files t.project_eq path other hother

/-- The folders of a new project, each made anew from those of another one. -/
theorem hasFolder_copied {copied : Project} {target path : String} {id : ProjectId} :
    (copied.folders.keys.foldl (·.addFolder ·)
        (Project.ofConfig id (copied.configAs target))).hasFolder path = true ↔
      path = "" ∨ path ∈ copied.sourceFolders ∨
        ∃ folder, copied.hasFolder folder = true ∧ path ∈ folderPaths folder := by
  rw [hasFolder_foldl_addFolder, hasFolder_ofConfig, or_comm, or_assoc]
  refine or_congr_right (or_congr_right ⟨?_, ?_⟩)
  · rintro ⟨folder, hkey, hstep⟩
    have hlisted := Table.contains_iff.2 (Table.mem_keys_iff.1 hkey)
    exact ⟨folder, hasFolder_iff.2 (.inr hlisted), hstep⟩
  · rintro ⟨folder, hfolder, hstep⟩
    rcases hasFolder_iff.1 hfolder with rfl | hlisted
    · cases hstep
    · exact ⟨folder, Table.mem_keys_iff.2 (Table.contains_iff.1 hlisted), hstep⟩

/-- **A copied project** has the folders made anew, and files at the same paths. -/
theorem yields_copyProject (h : ws.FilesInStep) {source target : String} {id : ProjectId}
    (hok : ws.copyProject source target = .ok (id, next)) {name : String} {made : Project}
    (hmade : next.project? name = some made) :
    Yields ws (.copyProject source target) name made := by
  obtain ⟨copied, created, bare, folders, hcopied, hc, hbare, rfl, hfolders, hcopy⟩ :=
    copyProject_ok hok
  set filled : Project := { Project.ofConfig ws.ids.project.1 (copied.configAs target) with
    folders := folders }
  have hempty : ∀ path, filled.file? path = none := fun _ => rfl
  have hcopying : Copying ws next copied filled target := by
    refine (copyFiles_induction (P := fun mid => Copying ws mid copied filled target)
      ((h.createProject hc).setFolders hbare folders) (.of_createProject hc hempty) ?_
      copied.files.entries_nodup ?_ ?_ hcopy).2
    · rintro mid after project rel text hmid rfl ⟨file, hentry⟩ t
      exact hmid.of_touches (Table.mem_entries_iff.1 hentry) t
    · intro e _
      unfold Workspace.fileAt?
      simp only [project?, Table.get?_insert_self, Option.bind_some]
      exact hempty e.1
    · rintro ⟨path, file⟩ hmem
      have hfile : ws.fileAt? source path = some file := by
        rw [fileAt?_of_project hcopied]
        exact Table.mem_entries_iff.1 hmem
      exact h.file_path hfile
  by_cases hname : name = target
  · subst hname
    refine .copied name hcopied ⟨hcopying.sourceFolders hmade, fun path => ?_,
      hcopying.files hmade⟩
    rw [hcopying.folders hmade, ← hfolders]
    exact hasFolder_copied
  · exact .same (hcopying.elsewhere hname hmade)

/-- **Every project after an edit** comes about in one of these ways. -/
theorem yields_apply (h : ws.InStep) {edit : Edit} {result : Edit.Made}
    (hok : ws.apply edit = .ok (result, next)) {name : String} {made : Project}
    (hmade : next.project? name = some made) : Yields ws edit name made := by
  cases edit with
  | createProject config =>
    obtain ⟨⟨id, after⟩, hedit, hok⟩ := bind_eq_ok_iff.1 hok
    cases hok
    exact yields_createProject hedit hmade
  | deleteProject gone =>
    obtain ⟨after, hedit, hok⟩ := bind_eq_ok_iff.1 hok
    cases hok
    exact .same (project?_deleteProject hedit hmade)
  | deleteProjects names =>
    obtain ⟨after, hedit, hok⟩ := bind_eq_ok_iff.1 hok
    cases hok
    exact .same (project?_deleteProjects hedit hmade)
  | copyProject source target =>
    obtain ⟨⟨id, after⟩, hedit, hok⟩ := bind_eq_ok_iff.1 hok
    cases hok
    exact yields_copyProject h.files hedit hmade
  | createFolder path =>
    obtain ⟨after, hedit, hok⟩ := bind_eq_ok_iff.1 hok
    cases hok
    obtain ⟨other, rel, project, hsplit, -, hp, -, -, rfl⟩ := createFolder_ok hedit
    simp only [project?, Table.get?_insert] at hmade
    split at hmade
    next heq =>
      obtain rfl := Option.some.inj hmade
      exact .withFolder hedit (heq ▸ hsplit) (heq ▸ hp)
    next => exact .same hmade
  | createFile path text =>
    obtain ⟨⟨id, after⟩, hedit, hok⟩ := bind_eq_ok_iff.1 hok
    cases hok
    obtain ⟨other, rel, project, hsplit, hrel, hp, hfree, hfolder, hparent, heq⟩ :=
      createFile_ok hedit
    obtain rfl : next = (ws.addFile project rel text).2 := congrArg Prod.snd heq
    obtain rfl := (h.files.project_name hp).1
    have t : Touches ws (ws.addFile project rel text).2 project rel _ (some text) :=
      touches_addFile h.files hp hfree ((of_splitPath hsplit).2 hrel)
    by_cases hname : name = project.name
    · subst hname
      obtain ⟨hsource, hsame, hfiles⟩ := t.project_after hmade
      have hgained : made.SameFolders project (· = rel) := by
        refine ⟨hsource, hsame, fun path file hfile => ?_, ?_, ?_⟩
        · exact (hfiles path file hfile).imp_left And.left
        · rintro path rfl
          exact hfolder
        · rintro path rfl
          exact hparent
      exact .withFile hp hgained
    · rw [t.projects, if_neg hname] at hmade
      exact .same hmade
  | setFile path text =>
    obtain ⟨after, hedit, hok⟩ := bind_eq_ok_iff.1 hok
    cases hok
    obtain ⟨other, rel, project, file, -, hp, hfile, rfl⟩ := setFile_ok hedit
    obtain rfl := (h.files.project_name hp).1
    exact (touches_setFile h.files hp hfile).yields (fun _ => ⟨file, hfile⟩) hmade
  | deleteFile path =>
    obtain ⟨after, hedit, hok⟩ := bind_eq_ok_iff.1 hok
    cases hok
    obtain ⟨other, rel, project, file, -, hp, hfile, rfl⟩ := deleteFile_ok hedit
    obtain rfl := (h.files.project_name hp).1
    exact (touches_deleteFile h.files hp hfile).yields (fun h => by cases h) hmade
  | registerArchive path sources module =>
    obtain ⟨⟨id, after⟩, hedit, hok⟩ := bind_eq_ok_iff.1 hok
    cases hok
    obtain ⟨units, -, -, rfl, rfl⟩ := registerArchive_ok hedit
    exact .same hmade
  | setVariable variableName path =>
    obtain ⟨after, hedit, hok⟩ := bind_eq_ok_iff.1 hok
    cases hok
    obtain ⟨-, rfl⟩ := setVariable_ok hedit
    exact .same hmade

/-! ## Runs -/

/-- What holds of all projects is kept by an edit if it holds of those that it yields. -/
theorem forall_project?_after {P : Project → Prop} (hws : ws.InStep) {edit : Edit}
    (h : ∀ name project, ws.project? name = some project → P project)
    (hstep : ∀ name made, Yields ws edit name made → P made) (name : String) (made : Project)
    (hmade : (ws.after edit).project? name = some made) : P made := by
  unfold Workspace.after at hmade
  split at hmade
  next hok => exact hstep name made (yields_apply hws hok hmade)
  next => exact h name made hmade

theorem afterAll_concat (ws : Workspace) (edits : List Edit) (edit : Edit) :
    ws.afterAll (edits ++ [edit]) = (ws.afterAll edits).after edit :=
  List.foldl_concat _ _ _ _

/-- **In every reachable workspace** source folders are folders, all others have plain paths, and
every file is in a folder. -/
theorem foldersInStep_afterAll (edits : List Edit) : ∀ name project,
    (initial.afterAll edits).project? name = some project → project.FoldersInStep := by
  induction edits using List.reverseRecOn with
  | nil =>
    intro name project h
    cases h
  | append_singleton before edit ih =>
    rw [afterAll_concat]
    refine forall_project?_after (inStep_afterAll before) ih fun name made hyields => ?_
    cases hyields with
    | stays hold hsame => exact (ih _ _ hold).of_sameFolders hsame
    | created _ id hok => exact .ofConfig id _
    | copied _ hold hcopy => exact (ih _ _ hold).of_isCopyOf hcopy
    | withFolder hok hsplit hold => exact (ih _ _ hold).addFolder _
    | withFile hold hsame => exact (ih _ _ hold).of_sameFolders hsame

end Workspace

/-- A project is made with source folders that are written without slashes around them, as every
configuration made by `ProjectConfig.ofFolders` has them. -/
def Edit.IsBuilt : Edit → Prop
  | .createProject config => ∀ folder ∈ config.sourceFolders, IsTrimmed folder
  | _ => True

theorem Edit.isBuilt_ofFolders (name : String) (folders : List String)
    (classpath : List ClasspathEntry) (module : Option ModuleDescription) :
    (Edit.createProject (.ofFolders name folders classpath module)).IsBuilt := by
  intro folder hfolder
  obtain ⟨written, -, rfl⟩ := List.mem_map.1 hfolder
  exact isTrimmed_trimSlashes written

/-- **What makes a tree of resources something else**: a project that is made with a source folder
but not with the folder around it, and a folder that is made where a file is, or below one. -/
inductive Edit.Breaks (ws : Workspace) : Edit → Prop
  | sourceFolder {config : ProjectConfig} {made : ProjectId × Workspace} {folder : String}
    (hok : ws.createProject config = .ok made) (hfolder : folder ∈ config.sourceFolders)
    (hroot : parentFolder folder ≠ "") (hparent : parentFolder folder ∉ config.sourceFolders) :
    Edit.Breaks ws (.createProject config)
  | overFile {path name rel step : String} {next : Workspace} {project : Project} {file : FileId}
    (hok : ws.createFolder path = .ok next) (hsplit : splitPath path = .ok (name, rel))
    (hproject : ws.project? name = some project) (hstep : step ∈ Project.folderPaths rel)
    (hfile : project.file? step = some file) : Edit.Breaks ws (.createFolder path)

namespace Workspace

open Project

variable {ws next : Workspace}

/-- The resources of every project form a tree. -/
def HasTrees (ws : Workspace) : Prop := ∀ name project, ws.project? name = some project →
  project.IsTree

theorem isTrimmed_afterAll {edits : List Edit} (hbuilt : ∀ edit ∈ edits, edit.IsBuilt) :
    ∀ name project, (initial.afterAll edits).project? name = some project →
      ∀ folder ∈ project.sourceFolders, IsTrimmed folder := by
  induction edits using List.reverseRecOn with
  | nil =>
    intro name project h
    cases h
  | append_singleton before edit ih =>
    rw [afterAll_concat]
    have hbefore := ih fun edit hedit => hbuilt edit (List.mem_append_left _ hedit)
    refine forall_project?_after (inStep_afterAll before) hbefore fun name made hyields => ?_
    cases hyields with
    | stays hold hsame =>
      rw [hsame.sourceFolders]
      exact hbefore _ _ hold
    | created _ id hok => exact hbuilt _ (List.mem_append_right _ List.mem_cons_self)
    | copied _ hold hcopy =>
      rw [hcopy.sourceFolders]
      exact hbefore _ _ hold
    | @withFolder path name rel next old hok hsplit hold => exact hbefore name old hold
    | withFile hold hsame =>
      rw [hsame.sourceFolders]
      exact hbefore _ _ hold

theorem after_createProject {config : ProjectConfig} {made : ProjectId × Workspace}
    (hok : ws.createProject config = .ok made) : ws.after (.createProject config) = made.2 := by
  have happly : ws.apply (.createProject config) = .ok (.project made.1, made.2) := by
    simp only [Workspace.apply, hok]
    rfl
  rw [Workspace.after, happly]

theorem after_createFolder {path : String} (hok : ws.createFolder path = .ok next) :
    ws.after (.createFolder path) = next := by
  have happly : ws.apply (.createFolder path) = .ok (.nothing, next) := by
    simp only [Workspace.apply, hok]
    rfl
  rw [Workspace.after, happly]

/-- An edit that breaks a tree leaves something else. -/
theorem not_hasTrees_of_breaks {edit : Edit} (h : edit.Breaks ws) : ¬(ws.after edit).HasTrees := by
  intro htrees
  cases h with
  | @sourceFolder config made folder hok hfolder hroot hparent =>
    have hafter := after_createProject hok
    obtain ⟨-, -, hmade⟩ := createProject_ok hok
    have htree := htrees config.name (.ofConfig ws.ids.project.1 config) (by
      rw [hafter, hmade]
      exact Table.get?_insert_self _ _ _)
    rcases hasFolder_ofConfig.1 (htree.parent (hasFolder_ofConfig.2 (.inr hfolder))) with h | h
    · exact hroot h
    · exact hparent h
  | @overFile path name rel step next project file hok hsplit hproject hstep hfile =>
    have hafter := after_createFolder hok
    obtain ⟨other, below, found, hother, -, hfound, -, -, rfl⟩ := createFolder_ok hok
    obtain ⟨rfl, rfl⟩ := Prod.mk.inj (Except.ok.inj (hsplit.symm.trans hother))
    obtain rfl := Option.some.inj (hproject.symm.trans hfound)
    have htree := htrees name (project.addFolder rel) (by
      rw [hafter]
      exact Table.get?_insert_self _ _ _)
    have hnone : project.file? step = none :=
      htree.apart step (hasFolder_addFolder.2 (.inl hstep))
    rw [hfile] at hnone
    cases hnone

/-- **Trees stay trees** after an edit iff it breaks none. -/
theorem hasTrees_after_iff (hws : ws.InStep)
    (hfolders : ∀ name project, ws.project? name = some project → project.FoldersInStep)
    (htrimmed : ∀ name project, ws.project? name = some project →
      ∀ folder ∈ project.sourceFolders, IsTrimmed folder) (h : ws.HasTrees) (edit : Edit) :
    (ws.after edit).HasTrees ↔ ¬edit.Breaks ws := by
  refine ⟨fun htrees hbreaks => not_hasTrees_of_breaks hbreaks htrees, fun hbreaks => ?_⟩
  refine forall_project?_after hws h fun name made hyields => ?_
  cases hyields with
  | stays hold hsame => exact (h _ _ hold).of_sameFolders hsame
  | created _ id hok =>
    refine IsTree.ofConfig fun folder hfolder => ?_
    by_contra hnone
    rw [not_or] at hnone
    exact hbreaks (.sourceFolder hok hfolder hnone.1 hnone.2)
  | copied _ hold hcopy =>
    have hsame := (hfolders _ _ hold).sameFolders_of_isCopyOf (h _ _ hold) (htrimmed _ _ hold) hcopy
    exact (h _ _ hold).of_sameFolders hsame
  | withFolder hok hsplit hold =>
    refine (h _ _ hold).addFolder fun step hstep => ?_
    by_contra hsome
    obtain ⟨file, hfile⟩ := Option.ne_none_iff_exists'.1 hsome
    exact hbreaks (.overFile hok hsplit hold hstep hfile)
  | withFile hold hsame => exact (h _ _ hold).of_sameFolders hsame

/-- **All projects have been trees all the time** iff no edit so far has broken one. -/
theorem hasTrees_afterAll_iff {edits : List Edit} (hbuilt : ∀ edit ∈ edits, edit.IsBuilt) :
    (∀ prior, prior <+: edits → (initial.afterAll prior).HasTrees) ↔
      ∀ prior edit, prior ++ [edit] <+: edits → ¬edit.Breaks (initial.afterAll prior) := by
  have hstep : ∀ prior edit, prior ++ [edit] <+: edits → (initial.afterAll prior).HasTrees →
      ((initial.afterAll (prior ++ [edit])).HasTrees ↔ ¬edit.Breaks (initial.afterAll prior)) := by
    intro prior edit hprior htrees
    rw [afterAll_concat]
    refine hasTrees_after_iff (inStep_afterAll prior) (foldersInStep_afterAll prior) ?_ htrees edit
    exact isTrimmed_afterAll fun other hother =>
      hbuilt other (hprior.subset (List.mem_append_left _ hother))
  constructor
  · intro htrees prior edit hprior
    exact (hstep prior edit hprior (htrees prior ((List.prefix_append _ _).trans hprior))).1
      (htrees _ hprior)
  · intro hbreaks prior
    induction prior using List.reverseRecOn with
    | nil =>
      intro _ name project h
      cases h
    | append_singleton before edit ih =>
      intro hprior
      exact (hstep before edit hprior (ih ((List.prefix_append _ _).trans hprior))).2
        (hbreaks before edit hprior)

/-! ## Files in a new folder -/

/-- **The folder that was asked for is there** iff no part of its path is blank. -/
theorem hasFolder_createFolder {path name rel : String} (hok : ws.createFolder path = .ok next)
    (hsplit : splitPath path = .ok (name, rel)) :
    ∃ project, next.project? name = some project ∧
      (project.hasFolder rel = true ↔ IsPlain rel) := by
  obtain ⟨other, below, old, hother, -, -, -, hnew, rfl⟩ := createFolder_ok hok
  obtain ⟨rfl, rfl⟩ := Prod.mk.inj (Except.ok.inj (hsplit.symm.trans hother))
  refine ⟨old.addFolder rel, Table.get?_insert_self _ _ _, ?_⟩
  rw [hasFolder_addFolder, hnew, isPlain_iff_mem_folderPaths]
  simp

/-- **A path that is free** gets a file iff the folder around it is there. -/
theorem createFile_eq {project : Project} {name path : String} (hname : IsProjectName name)
    (hpath : IsFilePath path) (hproject : ws.project? name = some project)
    (hfile : project.file? path = none) (hfolder : project.hasFolder path = false) (text : String) :
    ws.createFile ("/" ++ name ++ "/" ++ path) text =
      if project.hasFolder (parentFolder path) then .ok (ws.addFile project path text)
      else .error (.folderNotFound ("/" ++ name ++ "/" ++ parentFolder path)) := by
  have hrequire : ws.requireProject name = .ok project := requireProject_eq_ok_iff.2 hproject
  unfold createFile
  rw [splitPath_join hname hpath]
  simp only [bind, Except.bind, hrequire, hfile, hfolder, hpath.ne_empty, if_false]
  cases project.hasFolder (parentFolder path) <;> rfl

/-- A file goes into a folder iff the folder is there. -/
theorem createFile_below {project : Project} {name rel fresh : String}
    (hname : IsProjectName name) (hrel : IsFilePath rel) (hfresh : IsFileName fresh)
    (hproject : ws.project? name = some project)
    (hfile : project.file? (rel ++ "/" ++ fresh) = none)
    (hfolder : project.hasFolder (rel ++ "/" ++ fresh) = false) (text : String) :
    ws.createFile ("/" ++ name ++ "/" ++ (rel ++ "/" ++ fresh)) text =
      if project.hasFolder rel then .ok (ws.addFile project (rel ++ "/" ++ fresh) text)
      else .error (.folderNotFound ("/" ++ name ++ "/" ++ rel)) := by
  rw [createFile_eq hname (hrel.append hfresh) hproject hfile hfolder,
    parentFolder_append rel hfresh.no_slash]

/-- **The resources of every reachable workspace.** Every file is in the root or in a folder. All
projects are trees as long as no project is made with a source folder but without the folder around
it and no folder is made where a file is, or below one; the first such edit leaves a project that is
no tree. The folder that a successful edit was asked for is there iff no part of its path is blank,
and files can be made in it iff it is there. -/
theorem resources_afterAll {edits : List Edit} (hbuilt : ∀ edit ∈ edits, edit.IsBuilt) :
    (∀ name project, (initial.afterAll edits).project? name = some project →
      ∀ path file, project.file? path = some file →
        project.hasFolder (parentFolder path) = true) ∧
    ((∀ prior, prior <+: edits → (initial.afterAll prior).HasTrees) ↔
      ∀ prior edit, prior ++ [edit] <+: edits → ¬edit.Breaks (initial.afterAll prior)) ∧
    ∀ path next name rel, (initial.afterAll edits).createFolder path = .ok next →
      splitPath path = .ok (name, rel) →
      ∃ project, next.project? name = some project ∧
        (project.hasFolder rel = true ↔ IsPlain rel) ∧
        ∀ fresh text, IsFileName fresh → project.file? (rel ++ "/" ++ fresh) = none →
          project.hasFolder (rel ++ "/" ++ fresh) = false →
          next.createFile ("/" ++ name ++ "/" ++ (rel ++ "/" ++ fresh)) text =
            if IsPlain rel then .ok (next.addFile project (rel ++ "/" ++ fresh) text)
            else .error (.folderNotFound ("/" ++ name ++ "/" ++ rel)) := by
  refine ⟨fun name project hp => (foldersInStep_afterAll edits name project hp).files,
    hasTrees_afterAll_iff hbuilt, ?_⟩
  intro path next name rel hok hsplit
  obtain ⟨project, hproject, hplain⟩ := hasFolder_createFolder hok hsplit
  refine ⟨project, hproject, hplain, fun fresh text hfresh hfile hfolder => ?_⟩
  have hrel : rel ≠ "" := by
    obtain ⟨other, below, -, hother, hne, -⟩ := createFolder_ok hok
    obtain ⟨rfl, rfl⟩ := Prod.mk.inj (Except.ok.inj (hsplit.symm.trans hother))
    exact hne
  obtain ⟨hname, hpath⟩ := of_splitPath hsplit
  rw [createFile_below hname (hpath hrel) hfresh hproject hfile hfolder]
  simp only [hplain]

/-- A folder is made below a file: from then on its path is that of a file and of a folder. -/
theorem createFolder_below_file :
    let edits : List Edit := [.createProject (.ofFolders "P" ["/"] [] none),
      .createFile "/P/a" "", .createFolder "/P/a/b"]
    (∀ edit ∈ edits, edit.IsBuilt) ∧
      ¬∀ prior, prior <+: edits → (initial.afterAll prior).HasTrees := by
  intro edits
  have hbuilt : ∀ edit ∈ edits, edit.IsBuilt := by
    simp only [edits, List.forall_mem_cons]
    exact ⟨Edit.isBuilt_ofFolders _ _ _ _, trivial, trivial, by simp⟩
  refine ⟨hbuilt, fun htrees => ?_⟩
  have hstep : "a" ∈ folderPaths "a/b" := by decide +kernel
  exact (resources_afterAll hbuilt).2.1.1 htrees (edits.take 2) (.createFolder "/P/a/b")
    (List.prefix_refl edits) (.overFile rfl rfl rfl hstep rfl)

end Workspace

end SourceSearch
