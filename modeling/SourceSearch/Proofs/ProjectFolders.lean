import Mathlib.Data.List.Basic
import SourceSearch.Proofs.FolderPaths
import SourceSearch.Proofs.Store

/-!
# The folders of a project as a tree

`Project.hasFolder` says which folders there are. They come from a configuration
(`hasFolder_ofConfig`), are made (`hasFolder_addFolder`), or are made anew from those of another
project (`IsCopyOf`). `Project.IsTree` says that folders and files form a tree, which each of these
keeps under a condition of its own, and `Project.FoldersInStep` says what they keep in any case. The
two together leave no blank part in the path of a folder (`FoldersInStep.isPlain_of_isTree`), so
copies of trees are trees (`FoldersInStep.sameFolders_of_isCopyOf`).
-/

set_option autoImplicit false

namespace SourceSearch

open Workspace

/-! ## Which folders there are -/

namespace Project

variable {project old made : Project} {path : String}

theorem hasFolder_iff : project.hasFolder path = true ↔ path = "" ∨ project.folders.contains path := by
  rw [hasFolder, Bool.or_eq_true, beq_iff_eq]

@[simp] theorem hasFolder_root (project : Project) : project.hasFolder "" = true :=
  hasFolder_iff.2 (.inl rfl)

/-- What a table holds after keys were put into it. -/
theorem contains_foldl_insert (paths : List String) (folders : Table String Unit) :
    (paths.foldl (fun table path => table.insert path ()) folders).contains path = true ↔
      path ∈ paths ∨ folders.contains path = true := by
  induction paths generalizing folders with
  | nil => simp
  | cons first rest ih =>
    have hinsert : (folders.insert first ()).contains path = true ↔
        path = first ∨ folders.contains path = true := by
      rw [Table.contains, Table.contains, Table.get?_insert]
      split <;> simp [*]
    rw [List.foldl_cons, ih, hinsert, List.mem_cons]
    exact or_left_comm.trans or_assoc.symm

/-- A new project lists its source folders but for the root. -/
theorem contains_folders_ofConfig {id : ProjectId} {config : ProjectConfig} :
    (ofConfig id config).folders.contains path = true ↔
      path ≠ "" ∧ path ∈ config.sourceFolders := by
  unfold ofConfig
  rw [contains_foldl_insert, List.mem_filter, Table.contains, Table.get?_empty]
  simp [and_comm]

/-- The folders of a new project. -/
theorem hasFolder_ofConfig {id : ProjectId} {config : ProjectConfig} :
    (ofConfig id config).hasFolder path = true ↔ path = "" ∨ path ∈ config.sourceFolders := by
  rw [hasFolder_iff, contains_folders_ofConfig]
  by_cases hroot : path = "" <;> simp [hroot]

/-- The folders that are there when one was made. -/
theorem hasFolder_addFolder {rel : String} :
    (project.addFolder rel).hasFolder path = true ↔
      path ∈ folderPaths rel ∨ project.hasFolder path = true := by
  rw [hasFolder_iff, hasFolder_iff]
  unfold addFolder
  rw [contains_foldl_insert]
  exact or_left_comm

/-- The folders that are there when several were made. -/
theorem hasFolder_foldl_addFolder (rels : List String) :
    (rels.foldl (·.addFolder ·) project).hasFolder path = true ↔
      (∃ rel ∈ rels, path ∈ folderPaths rel) ∨ project.hasFolder path = true := by
  induction rels generalizing project with
  | nil => simp
  | cons first rest ih =>
    rw [List.foldl_cons, ih, hasFolder_addFolder, List.exists_mem_cons_iff]
    exact or_left_comm.trans or_assoc.symm

/-! ## Trees -/

/-- **The resources of a project form a tree**: nothing is both a folder and a file, what a folder's
path begins with is a folder, and every file is in a folder. -/
structure IsTree (project : Project) : Prop where
  apart : ∀ path, project.hasFolder path = true → project.file? path = none
  folders : ∀ outer inner, project.hasFolder (outer ++ "/" ++ inner) = true →
    project.hasFolder outer = true
  files : ∀ path file, project.file? path = some file →
    project.hasFolder (parentFolder path) = true

/-- The same folders, and no files at other paths but those that are `gained`, each of which is in a
folder and is none. -/
structure SameFolders (made old : Project) (gained : String → Prop) : Prop where
  sourceFolders : made.sourceFolders = old.sourceFolders
  folders : ∀ path, made.hasFolder path = old.hasFolder path
  files : ∀ path file, made.file? path = some file →
    gained path ∨ ∃ other, old.file? path = some other
  notFolder : ∀ path, gained path → old.hasFolder path = false
  parent : ∀ path, gained path → old.hasFolder (parentFolder path) = true

/-- No file is gained when files stay where they are or go. -/
theorem SameFolders.of_files (hsource : made.sourceFolders = old.sourceFolders)
    (hfolders : ∀ path, made.hasFolder path = old.hasFolder path)
    (hfiles : ∀ path file, made.file? path = some file → ∃ other, old.file? path = some other) :
    made.SameFolders old fun _ => False :=
  ⟨hsource, hfolders, fun path file h => .inr (hfiles path file h), fun _ => False.elim,
    fun _ => False.elim⟩

/-- **A tree stays a tree** when files go, or come into folders. -/
theorem IsTree.of_sameFolders {gained : String → Prop} (h : old.IsTree)
    (hsame : made.SameFolders old gained) : made.IsTree where
  apart path hfolder := by
    rw [hsame.folders] at hfolder
    by_contra hsome
    obtain ⟨file, hfile⟩ := Option.ne_none_iff_exists'.1 hsome
    rcases hsame.files path file hfile with hgained | ⟨other, hother⟩
    · rw [hsame.notFolder path hgained] at hfolder
      cases hfolder
    · rw [h.apart path hfolder] at hother
      cases hother
  folders outer inner hfolder := by
    rw [hsame.folders] at hfolder ⊢
    exact h.folders outer inner hfolder
  files path file hfile := by
    rw [hsame.folders]
    rcases hsame.files path file hfile with hgained | ⟨other, hother⟩
    · exact hsame.parent path hgained
    · exact h.files path other hother

/-- The folder around a folder of a tree is there. -/
theorem IsTree.parent (h : project.IsTree) (hfolder : project.hasFolder path = true) :
    project.hasFolder (parentFolder path) = true := by
  rcases eq_parentFolder_append path with hroot | ⟨last, hpath⟩
  · rw [hroot]
    exact hasFolder_root project
  · rw [hpath] at hfolder
    exact h.folders _ _ hfolder

/-- **The folders around all folders** are all that their paths begin with. -/
theorem hasFolder_of_parents
    (h : ∀ path, project.hasFolder path = true → project.hasFolder (parentFolder path) = true)
    (outer inner : String) (hfolder : project.hasFolder (outer ++ "/" ++ inner) = true) :
    project.hasFolder outer = true :=
  of_parentFolder (P := fun path => project.hasFolder path = true) h outer inner hfolder

/-- A new project is a tree if the folder around each source folder is one too. -/
theorem IsTree.ofConfig {id : ProjectId} {config : ProjectConfig}
    (h : ∀ folder ∈ config.sourceFolders,
      parentFolder folder = "" ∨ parentFolder folder ∈ config.sourceFolders) :
    (Project.ofConfig id config).IsTree where
  apart _ _ := rfl
  folders := by
    refine hasFolder_of_parents fun path hpath => hasFolder_ofConfig.2 ?_
    rcases hasFolder_ofConfig.1 hpath with rfl | hsource
    · exact .inl rfl
    · exact h path hsource
  files _ _ hfile := by cases hfile

/-- A tree gets a folder wherever no file is on the way to it. -/
theorem IsTree.addFolder {rel : String} (h : project.IsTree)
    (hfree : ∀ step ∈ folderPaths rel, project.file? step = none) :
    (project.addFolder rel).IsTree where
  apart path hpath := by
    rcases hasFolder_addFolder.1 hpath with hstep | hold
    · exact hfree path hstep
    · exact h.apart path hold
  folders := by
    refine hasFolder_of_parents fun path hpath => hasFolder_addFolder.2 ?_
    rcases hasFolder_addFolder.1 hpath with hstep | hold
    · rcases parentFolder_of_mem_folderPaths hstep with hroot | hparent
      · rw [hroot]
        exact .inr (hasFolder_root project)
      · exact .inl hparent
    · exact .inr (h.parent hold)
  files path file hfile := hasFolder_addFolder.2 (.inr (h.files path file hfile))

/-! ## What holds in any case -/

/-- What holds of the folders of every project: source folders are folders, all others have plain
paths, and every file is in a folder. -/
structure FoldersInStep (project : Project) : Prop where
  source : ∀ folder ∈ project.sourceFolders, project.hasFolder folder = true
  plain : ∀ path, project.hasFolder path = true →
    path = "" ∨ path ∈ project.sourceFolders ∨ IsPlain path
  files : ∀ path file, project.file? path = some file →
    project.hasFolder (parentFolder path) = true

/-- A project whose folders are those of another one, each made anew. -/
structure IsCopyOf (made old : Project) : Prop where
  sourceFolders : made.sourceFolders = old.sourceFolders
  folders : ∀ path, made.hasFolder path = true ↔ path = "" ∨ path ∈ old.sourceFolders ∨
    ∃ folder, old.hasFolder folder = true ∧ path ∈ folderPaths folder
  files : ∀ path file, made.file? path = some file → ∃ other, old.file? path = some other

namespace FoldersInStep

theorem ofConfig (id : ProjectId) (config : ProjectConfig) :
    (Project.ofConfig id config).FoldersInStep where
  source _ hfolder := hasFolder_ofConfig.2 (.inr hfolder)
  plain _ hpath := (hasFolder_ofConfig.1 hpath).imp_right .inl
  files _ _ hfile := by cases hfile

theorem of_sameFolders {gained : String → Prop} (h : old.FoldersInStep)
    (hsame : made.SameFolders old gained) : made.FoldersInStep where
  source folder hfolder := by
    rw [hsame.sourceFolders] at hfolder
    rw [hsame.folders]
    exact h.source folder hfolder
  plain path hpath := by
    rw [hsame.folders] at hpath
    rw [hsame.sourceFolders]
    exact h.plain path hpath
  files path file hfile := by
    rw [hsame.folders]
    rcases hsame.files path file hfile with hgained | ⟨other, hother⟩
    · exact hsame.parent path hgained
    · exact h.files path other hother

theorem addFolder (h : project.FoldersInStep) (rel : String) :
    (project.addFolder rel).FoldersInStep where
  source folder hfolder := hasFolder_addFolder.2 (.inr (h.source folder hfolder))
  plain path hpath := by
    rcases hasFolder_addFolder.1 hpath with hstep | hold
    · exact .inr (.inr (isPlain_of_mem_folderPaths hstep))
    · exact h.plain path hold
  files path file hfile := hasFolder_addFolder.2 (.inr (h.files path file hfile))

/-- **A copy** has all folders of what is copied. -/
theorem hasFolder_of_isCopyOf (h : old.FoldersInStep) (hcopy : made.IsCopyOf old)
    (hpath : old.hasFolder path = true) : made.hasFolder path = true := by
  rcases h.plain path hpath with hroot | hsource | hplain
  · exact (hcopy.folders path).2 (.inl hroot)
  · exact (hcopy.folders path).2 (.inr (.inl hsource))
  · exact (hcopy.folders path).2 (.inr (.inr ⟨path, hpath, isPlain_iff_mem_folderPaths.1 hplain⟩))

theorem of_isCopyOf (h : old.FoldersInStep) (hcopy : made.IsCopyOf old) :
    made.FoldersInStep where
  source folder hfolder := by
    rw [hcopy.sourceFolders] at hfolder
    exact (hcopy.folders folder).2 (.inr (.inl hfolder))
  plain path hpath := by
    rw [hcopy.sourceFolders]
    rcases (hcopy.folders path).1 hpath with hroot | hsource | ⟨folder, -, hstep⟩
    · exact .inl hroot
    · exact .inr (.inl hsource)
    · exact .inr (.inr (isPlain_of_mem_folderPaths hstep))
  files path file hfile := by
    obtain ⟨other, hother⟩ := hcopy.files path file hfile
    exact h.hasFolder_of_isCopyOf hcopy (h.files path other hother)

/-- **All folders of a tree have plain paths**, as its source folders are written without slashes
around them: a blank part would stand behind a folder whose path ends in a slash. -/
theorem isPlain_of_isTree (h : project.FoldersInStep) (htree : project.IsTree)
    (htrimmed : ∀ folder ∈ project.sourceFolders, IsTrimmed folder)
    (hpath : project.hasFolder path = true) (hne : path ≠ "") : IsPlain path := by
  rcases h.plain path hpath with hroot | hsource | hplain
  · exact absurd hroot hne
  · rw [isPlain_iff_of_isTrimmed hne (htrimmed path hsource)]
    rintro ⟨outer, inner, rfl⟩
    have hfolder := htree.folders (outer ++ "/") inner hpath
    have hends : outer ++ "/" ≠ "" := by
      intro h
      have hlist := congrArg String.toList h
      simp [String.toList_append] at hlist
    rcases h.plain (outer ++ "/") hfolder with hroot | hsource | hplain
    · exact hends hroot
    · exact not_isTrimmed_append_slash outer (htrimmed _ hsource)
    · exact not_isPlain_append_slash outer hplain
  · exact hplain

/-- **A copy of a tree** has the same folders. -/
theorem sameFolders_of_isCopyOf (h : old.FoldersInStep) (htree : old.IsTree)
    (htrimmed : ∀ folder ∈ old.sourceFolders, IsTrimmed folder) (hcopy : made.IsCopyOf old) :
    made.SameFolders old fun _ => False := by
  refine .of_files hcopy.sourceFolders (fun path => Bool.eq_iff_iff.2 ⟨fun hpath => ?_, ?_⟩)
    hcopy.files
  · rcases (hcopy.folders path).1 hpath with rfl | hsource | ⟨folder, hfolder, hstep⟩
    · exact hasFolder_root old
    · exact h.source path hsource
    · have hne : folder ≠ "" := by
        rintro rfl
        cases hstep
      have hplain := h.isPlain_of_isTree htree htrimmed hfolder hne
      rcases begins_of_mem_folderPaths hplain hstep with rfl | ⟨inner, rfl⟩
      · exact hfolder
      · exact htree.folders path inner hfolder
  · exact h.hasFolder_of_isCopyOf hcopy

end FoldersInStep

end Project

end SourceSearch
