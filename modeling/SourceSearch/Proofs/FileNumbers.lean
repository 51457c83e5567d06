import SourceSearch.Proofs.Reachable

/-!
# The numbers of files in the course of edits

A file keeps its number and its place as long as it is there, and no other file ever gets its number,
neither while it is there nor when it is gone. All of this rests on one relation between a workspace
and a later one, `Workspace.KeepsFiles`: a file of the later workspace either was at its place before
or has a number that had not been given out. Every edit is in this relation, so every run of edits is
(`KeepsFiles.afterAll`), and an edit that fails gives out no number at all.

Handles of types are looked up by the number of a file, so a handle that was good for a file which is
gone stays without a meaning, whatever is created afterwards at the same path
(`fileNumbers_afterAll`).
-/

set_option autoImplicit false

namespace SourceSearch

namespace Workspace

variable {ws next : Workspace}

/-- The file is in some project. -/
def HasFile (ws : Workspace) (file : FileId) : Prop :=
  ∃ name path, ws.fileAt? name path = some file

/-- In the later workspace `next`, a file is where it was in `ws`, or its number is one that `ws` had
not given out. -/
structure KeepsFiles (ws next : Workspace) : Prop where
  next_le : ws.ids.nextFile ≤ next.ids.nextFile
  old_or_new : ∀ {name path file}, next.fileAt? name path = some file →
    ws.fileAt? name path = some file ∨ ws.ids.nextFile ≤ file.index

/-! ## What the edits of projects and files keep -/

namespace KeepsFiles

theorem refl (ws : Workspace) : KeepsFiles ws ws := ⟨Nat.le_refl _, Or.inl⟩

theorem trans {mid : Workspace} (h : KeepsFiles ws mid) (h' : KeepsFiles mid next) :
    KeepsFiles ws next where
  next_le := Nat.le_trans h.next_le h'.next_le
  old_or_new hf := by
    rcases h'.old_or_new hf with hold | hnew
    · exact h.old_or_new hold
    · exact Or.inr (Nat.le_trans h.next_le hnew)

/-- Nothing is new where no file comes and no number is given out. -/
theorem of_old (hids : next.ids.nextFile = ws.ids.nextFile)
    (hold : ∀ {name path file}, next.fileAt? name path = some file →
      ws.fileAt? name path = some file) : KeepsFiles ws next :=
  ⟨Nat.le_of_eq hids.symm, fun hf => Or.inl (hold hf)⟩

/-- Projects that are the same have the same files. -/
theorem of_projects (hids : next.ids.nextFile = ws.ids.nextFile)
    (hprojects : next.projects = ws.projects) : KeepsFiles ws next := by
  refine of_old hids ?_
  intro name path file hf
  rw [fileAt?, project?, hprojects] at hf
  exact hf

/-- **A change of one file** is kept if the file was there before or its number is new. -/
theorem of_touches {project : Project} {rel : String} {file : FileId} {text? : Option String}
    (t : Touches ws next project rel file text?)
    (hfile : text?.isSome → project.file? rel = some file ∨ ws.ids.nextFile ≤ file.index) :
    KeepsFiles ws next where
  next_le := t.next_le
  old_or_new := by
    intro name path found hf
    rw [t.fileAt?] at hf
    split at hf
    next heq =>
      obtain ⟨text, htext, rfl⟩ := Option.map_eq_some_iff.1 hf
      rw [heq.1, heq.2, fileAt?_of_project t.project_eq]
      exact hfile (by rw [htext]; rfl)
    next => exact Or.inl hf

theorem createProject {config : ProjectConfig} {id : ProjectId}
    (hok : ws.createProject config = .ok (id, next)) : KeepsFiles ws next := by
  obtain ⟨-, -, rfl⟩ := createProject_ok hok
  refine of_old rfl ?_
  intro name path file hf
  unfold fileAt? project? at hf
  rw [Table.get?_insert] at hf
  split at hf
  next => cases hf
  next => exact hf

theorem deleteProject {name : String} (hok : ws.deleteProject name = .ok next) :
    KeepsFiles ws next := by
  obtain ⟨project, -, rfl⟩ := deleteProject_ok hok
  refine of_old rfl ?_
  intro other path file hf
  unfold fileAt? project? at hf
  rw [Table.get?_erase] at hf
  split at hf
  next => cases hf
  next => exact hf

theorem setFolders {name : String} {project : Project} (hproject : ws.project? name = some project)
    (folders : Table String Unit) :
    KeepsFiles ws { ws with
      projects := ws.projects.insert name { project with folders := folders } } := by
  refine of_old rfl ?_
  intro other path file hf
  unfold fileAt? project? at hf
  rw [Table.get?_insert] at hf
  split at hf
  next heq =>
    rw [heq, fileAt?_of_project hproject]
    exact hf
  next => exact hf

theorem createFolder {path : String} (hok : ws.createFolder path = .ok next) :
    KeepsFiles ws next := by
  obtain ⟨name, rel, project, -, -, hproject, -, -, rfl⟩ := createFolder_ok hok
  exact setFolders hproject _

theorem createFile (h : ws.FilesInStep) {path text : String} {id : FileId}
    (hok : ws.createFile path text = .ok (id, next)) : KeepsFiles ws next := by
  obtain ⟨name, rel, project, hsplit, hrel, hp, hfree, -, -, heq⟩ := createFile_ok hok
  obtain rfl : next = (ws.addFile project rel text).2 := congrArg Prod.snd heq
  have hname := (h.project_name hp).1
  exact of_touches (touches_addFile h (hname ▸ hp) hfree ((of_splitPath hsplit).2 hrel))
    fun _ => Or.inr (Nat.le_refl _)

theorem setFile (h : ws.FilesInStep) {path text : String}
    (hok : ws.setFile path text = .ok next) : KeepsFiles ws next := by
  obtain ⟨name, rel, project, file, -, hp, hfile, rfl⟩ := setFile_ok hok
  obtain rfl := (h.project_name hp).1
  exact of_touches (touches_setFile h hp hfile) fun _ => Or.inl hfile

theorem deleteFile (h : ws.FilesInStep) {path : String}
    (hok : ws.deleteFile path = .ok next) : KeepsFiles ws next := by
  obtain ⟨name, rel, project, file, -, hp, hfile, rfl⟩ := deleteFile_ok hok
  obtain rfl := (h.project_name hp).1
  exact of_touches (touches_deleteFile h hp hfile) fun hsome => by cases hsome

theorem copyProject (h : ws.FilesInStep) {source target : String} {id : ProjectId}
    (hok : ws.copyProject source target = .ok (id, next)) : KeepsFiles ws next := by
  refine (copyProject_induction (P := KeepsFiles ws) h (fun _ => createProject) ?_ ?_ hok).2
  · intro mid project folders hmid hproject
    exact hmid.trans (setFolders hproject folders)
  · intro mid after project rel text hmid _ t
    exact hmid.trans (of_touches t fun _ => Or.inr (Nat.le_refl _))

/-! ## Runs -/

/-- **Every edit that succeeds** leaves files where they are and gives out new numbers only. -/
theorem apply (h : ws.InStep) {edit : Edit} {made : Edit.Made}
    (hok : ws.apply edit = .ok (made, next)) : KeepsFiles ws next := by
  cases edit with
  | createProject config =>
    obtain ⟨⟨id, after⟩, hedit, hok⟩ := bind_eq_ok_iff.1 hok
    cases hok
    exact createProject hedit
  | deleteProject name =>
    obtain ⟨after, hedit, hok⟩ := bind_eq_ok_iff.1 hok
    cases hok
    exact deleteProject hedit
  | deleteProjects names =>
    obtain ⟨after, hedit, hok⟩ := bind_eq_ok_iff.1 hok
    cases hok
    exact deleteProjects_induction (refl ws) (fun hmid _ hone => hmid.trans (deleteProject hone))
      hedit
  | copyProject source target =>
    obtain ⟨⟨id, after⟩, hedit, hok⟩ := bind_eq_ok_iff.1 hok
    cases hok
    exact copyProject h.files hedit
  | createFolder path =>
    obtain ⟨after, hedit, hok⟩ := bind_eq_ok_iff.1 hok
    cases hok
    exact createFolder hedit
  | createFile path text =>
    obtain ⟨⟨id, after⟩, hedit, hok⟩ := bind_eq_ok_iff.1 hok
    cases hok
    exact createFile h.files hedit
  | setFile path text =>
    obtain ⟨after, hedit, hok⟩ := bind_eq_ok_iff.1 hok
    cases hok
    exact setFile h.files hedit
  | deleteFile path =>
    obtain ⟨after, hedit, hok⟩ := bind_eq_ok_iff.1 hok
    cases hok
    exact deleteFile h.files hedit
  | registerArchive path sources module =>
    obtain ⟨⟨id, after⟩, hedit, hok⟩ := bind_eq_ok_iff.1 hok
    cases hok
    obtain ⟨units, -, -, rfl, rfl⟩ := registerArchive_ok hedit
    exact of_projects rfl rfl
  | setVariable name path =>
    obtain ⟨after, hedit, hok⟩ := bind_eq_ok_iff.1 hok
    cases hok
    obtain ⟨-, rfl⟩ := setVariable_ok hedit
    exact of_projects rfl rfl

theorem after (h : ws.InStep) (edit : Edit) : KeepsFiles ws (ws.after edit) := by
  unfold Workspace.after
  split
  next hok => exact apply h hok
  next => exact refl ws

/-- **A run of edits**, whichever of them fail, leaves files where they are and gives out new numbers
only. -/
theorem afterAll (h : ws.InStep) (edits : List Edit) : KeepsFiles ws (ws.afterAll edits) := by
  unfold Workspace.afterAll
  induction edits generalizing ws with
  | nil => exact refl ws
  | cons edit edits ih => exact (after h edit).trans (ih (h.after edit))

/-! ## Numbers that are given out once -/

variable {file : FileId}

/-- A file that is still there is where it was. -/
theorem place_eq (keeps : KeepsFiles ws next) (h : ws.FilesInStep) {name path name' path' : String}
    (hf : ws.fileAt? name path = some file) (hf' : next.fileAt? name' path' = some file) :
    name' = name ∧ path' = path := by
  rcases keeps.old_or_new hf' with hold | hnew
  · exact h.file_unique hold hf
  · exact absurd (h.file_lt hf) (Nat.not_lt.2 hnew)

/-- A number that is given out later was not the number of a file before. -/
theorem not_hasFile (keeps : KeepsFiles ws next) (h : ws.FilesInStep)
    (hfile : next.ids.nextFile ≤ file.index) : ¬ws.HasFile file := by
  rintro ⟨name, path, hf⟩
  exact absurd (h.file_lt hf) (Nat.not_lt.2 (Nat.le_trans keeps.next_le hfile))

end KeepsFiles

/-- A file that an edit reports is in the workspace from then on, under the next number. -/
theorem of_apply_file (h : ws.FilesInStep) {edit : Edit} {file : FileId}
    (hok : ws.apply edit = .ok (.file file, next)) :
    next.HasFile file ∧ file.index = ws.ids.nextFile := by
  cases edit with
  | createFile path text =>
    obtain ⟨⟨id, after⟩, hedit, hok⟩ := bind_eq_ok_iff.1 hok
    cases hok
    obtain ⟨name, rel, project, hsplit, hrel, hp, hfree, -, -, heq⟩ := createFile_ok hedit
    obtain rfl : next = (ws.addFile project rel text).2 := congrArg Prod.snd heq
    obtain rfl : file = ⟨ws.ids.nextFile⟩ := congrArg Prod.fst heq
    have hname := (h.project_name hp).1
    have htouch : Touches ws (ws.addFile project rel text).2 project rel _ (some text) :=
      touches_addFile h (hname ▸ hp) hfree ((of_splitPath hsplit).2 hrel)
    refine ⟨⟨project.name, rel, ?_⟩, rfl⟩
    rw [htouch.fileAt?, if_pos ⟨rfl, rfl⟩]
    rfl
  | _ =>
    obtain ⟨after, -, hok⟩ := bind_eq_ok_iff.1 hok
    cases hok

/-- Nothing is declared in a file that is not there. -/
theorem FilesInStep.declared?_eq_none (h : ws.FilesInStep) {file : FileId} (hgone : ¬ws.HasFile file)
    {key : TypeKey} (hkey : key.origin = .source file) : ws.declared? key = none := by
  have hsource : ws.source? file = none := by
    by_contra hsome
    obtain ⟨source, hs⟩ := Option.ne_none_iff_exists'.1 hsome
    obtain ⟨name, path, text, hf, -⟩ := h.source_iff.1 hs
    exact hgone ⟨name, path, hf⟩
  rw [declared?, hkey]
  show (ws.source? file).bind _ = none
  rw [hsource, Option.bind_none]

/-- A type that is not declared has no methods and no fields. -/
theorem exists_error_of_declared?_eq_none {key : TypeKey} (h : ws.declared? key = none) :
    (∀ selector signatures, ∃ e, ws.findMethod key selector signatures = .error e) ∧
      ∀ name, ∃ e, ws.findField key name = .error e := by
  constructor
  · intro selector signatures
    exact ⟨.elementNotFound key.qualifiedName, by simp only [findMethod, h]⟩
  · intro name
    exact ⟨.elementNotFound (key.qualifiedName ++ "." ++ name), by simp [findField, h]⟩

/-- **Numbers of files are never used again**, in any run of edits, whichever of them fail. Between a
state `earlier` of the workspace and a later one:

* a file of both is at the same place in both;
* a file that the next edit puts at a place has a number that no file of `earlier` had;
* so has the file that the next edit reports, and it is in the workspace from then on;
* a file of `earlier` that is gone stays away for good, and no handle of a type that was declared in
  it finds a type, a method or a field again. -/
theorem fileNumbers_afterAll (first more last : List Edit) (edit : Edit) :
    let earlier := initial.afterAll first
    let later := earlier.afterAll more
    (∀ {file name path name' path'}, earlier.fileAt? name path = some file →
      later.fileAt? name' path' = some file → name' = name ∧ path' = path) ∧
    (∀ {file name path}, (later.after edit).fileAt? name path = some file →
      later.fileAt? name path ≠ some file → ¬earlier.HasFile file) ∧
    (∀ {file next}, later.apply edit = .ok (.file file, next) →
      next.HasFile file ∧ ¬later.HasFile file ∧ ¬earlier.HasFile file) ∧
    ∀ {file}, earlier.HasFile file → ¬later.HasFile file →
      ¬(later.afterAll last).HasFile file ∧
      ∀ key : TypeKey, key.origin = .source file →
        (later.afterAll last).declared? key = none ∧
        (∀ selector signatures,
          ∃ e, (later.afterAll last).findMethod key selector signatures = .error e) ∧
        ∀ name, ∃ e, (later.afterAll last).findField key name = .error e := by
  intro earlier later
  have hearlier : earlier.InStep := inStep_afterAll first
  have hlater : later.InStep := hearlier.afterAll more
  have hkeeps : KeepsFiles earlier later := .afterAll hearlier more
  refine ⟨fun hf hf' => hkeeps.place_eq hearlier.files hf hf', ?_, ?_, ?_⟩
  · intro file name path hf hnew
    rcases (KeepsFiles.after hlater edit).old_or_new hf with hold | hfresh
    · exact absurd hold hnew
    · exact hkeeps.not_hasFile hearlier.files hfresh
  · intro file next hok
    obtain ⟨hhas, hindex⟩ := of_apply_file hlater.files hok
    have hfresh : later.ids.nextFile ≤ file.index := Nat.le_of_eq hindex.symm
    exact ⟨hhas, (KeepsFiles.refl later).not_hasFile hlater.files hfresh,
      hkeeps.not_hasFile hearlier.files hfresh⟩
  · intro file hhad hgone
    have hnever : ¬(later.afterAll last).HasFile file := by
      rintro ⟨name, path, hf⟩
      rcases (KeepsFiles.afterAll hlater last).old_or_new hf with hold | hfresh
      · exact hgone ⟨name, path, hold⟩
      · exact hkeeps.not_hasFile hearlier.files hfresh hhad
    refine ⟨hnever, fun key hkey => ?_⟩
    have hnone := (hlater.afterAll last).files.declared?_eq_none hnever hkey
    exact ⟨hnone, exists_error_of_declared?_eq_none hnone⟩

end Workspace

end SourceSearch
