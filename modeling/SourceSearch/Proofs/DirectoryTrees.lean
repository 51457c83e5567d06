import SourceSearch.Proofs.ProjectFolders
import SourceSearch.Store.Directory

/-!
# Directories as trees

What a file system holds is a tree (`Directory.IsTree`): paths are made of names, what a path goes
through is a folder, and no folder is a file. Below a folder of a tree is a tree again
(`IsTree.below`), and all that is there has the name of the folder before its path
(`get?_tableBelow`). Below what is no folder there is nothing (`IsTree.not_mem_paths_slash_append`).
-/

set_option autoImplicit false

namespace SourceSearch

open Workspace

namespace Directory

variable {dir : Directory} {path name : String}

/-- The paths of files and of folders. -/
def paths (dir : Directory) : List String := dir.files.keys ++ dir.folders.keys

/-- What a file system holds below a folder. -/
structure IsTree (dir : Directory) : Prop where
  names : ∀ path ∈ dir.paths, ∀ part ∈ Text.split '/' path, IsFileName part
  parent : ∀ path ∈ dir.paths,
    parentFolder path = "" ∨ dir.folders.contains (parentFolder path) = true
  apart : ∀ path ∈ dir.folders.keys, dir.files.get? path = none

instance (dir : Directory) : Decidable dir.IsTree :=
  decidable_of_iff
    ((∀ path ∈ dir.paths, ∀ part ∈ Text.split '/' path, IsFileName part) ∧
      (∀ path ∈ dir.paths,
        parentFolder path = "" ∨ dir.folders.contains (parentFolder path) = true) ∧
      ∀ path ∈ dir.folders.keys, (dir.files.get? path).isNone = true)
    ⟨fun h => ⟨h.1, h.2.1, fun path hpath => Option.isNone_iff_eq_none.1 (h.2.2 path hpath)⟩,
      fun h => ⟨h.names, h.parent, fun path hpath =>
        Option.isNone_iff_eq_none.2 (h.apart path hpath)⟩⟩

theorem mem_paths_of_file {bytes : ByteArray} (h : dir.files.get? path = some bytes) :
    path ∈ dir.paths :=
  List.mem_append_left _ (Table.mem_keys_iff.2 ⟨bytes, h⟩)

theorem mem_paths_of_folder (h : dir.folders.contains path = true) : path ∈ dir.paths :=
  List.mem_append_right _ (Table.mem_keys_iff.2 (Table.contains_iff.1 h))

/-! ## What is below a folder -/

/-- What is below a folder has the path of the folder and a slash before its own path. -/
theorem pathBelow?_eq_some_iff {folder rel : String} :
    pathBelow? folder path = some rel ↔ path = folder ++ "/" ++ rel := by
  unfold pathBelow?
  dsimp only
  constructor
  · intro h
    split at h
    next hbegins =>
      obtain ⟨rest, hrest⟩ := List.isPrefixOf_iff_prefix.1 hbegins
      obtain rfl := Option.some.inj h
      rw [← String.toList_inj, String.toList_append, String.toList_ofList, ← hrest, List.drop_left]
    next => cases h
  · rintro rfl
    rw [String.toList_append (s := folder ++ "/"), if_pos (by simp), List.drop_left,
      String.ofList_toList]

/-- **The entries below a folder** are found by the rest of their paths. -/
theorem get?_tableBelow {α : Type} (folder : String) (table : Table String α) (rel : String) :
    (tableBelow folder table).get? rel = table.get? (folder ++ "/" ++ rel) := by
  have hfold : ∀ (put : Table String α → String × α → Table String α),
      (∀ below entry, put below entry =
        (pathBelow? folder entry.1).elim below fun path => below.insert path entry.2) →
      ∀ (entries : List (String × α)) (below : Table String α),
        entries.Pairwise (fun a b => a.1 ≠ b.1) →
        (entries.foldl put below).get? rel =
          ((entries.find? fun e => e.1 = folder ++ "/" ++ rel).map (·.2)).or (below.get? rel) := by
    intro put hput entries
    induction entries with
    | nil => exact fun _ _ => rfl
    | cons first rest ih =>
      intro below hne
      obtain ⟨hfirst, hne⟩ := List.pairwise_cons.1 hne
      rw [List.foldl_cons, ih _ hne, List.find?_cons, hput]
      by_cases heq : first.1 = folder ++ "/" ++ rel
      · have hnone : rest.find? (fun e => e.1 = folder ++ "/" ++ rel) = none := by
          rw [List.find?_eq_none]
          intro e he
          rw [decide_eq_true_eq, ← heq]
          exact (hfirst e he).symm
        rw [hnone, pathBelow?_eq_some_iff.2 heq, decide_eq_true heq]
        simp
      · rw [decide_eq_false heq]
        congr 1
        cases hbelow : pathBelow? folder first.1 with
        | none => rfl
        | some other =>
          have hother : other ≠ rel := by
            rintro rfl
            exact heq (pathBelow?_eq_some_iff.1 hbelow)
          rw [Option.elim_some, Table.get?_insert, if_neg hother.symm]
  refine (hfold _ (fun below entry => ?_) table.entries ∅ table.entries_nodup).trans ?_
  · cases pathBelow? folder entry.1 <;> rfl
  rw [Table.get?_empty, Option.or_none]
  rfl

/-- The text of a file below a folder. -/
theorem text?_below (dir : Directory) (folder rel : String) :
    (dir.below folder).text? rel = dir.text? (folder ++ "/" ++ rel) := by
  rw [text?, text?, below, get?_tableBelow]

theorem contains_folders_below (dir : Directory) (folder rel : String) :
    (dir.below folder).folders.contains rel = dir.folders.contains (folder ++ "/" ++ rel) := by
  rw [Table.contains, Table.contains, below, get?_tableBelow]

theorem mem_paths_below_iff {folder rel : String} :
    rel ∈ (dir.below folder).paths ↔ folder ++ "/" ++ rel ∈ dir.paths := by
  simp only [paths, List.mem_append, Table.mem_keys_iff, below, get?_tableBelow]

/-- **Below a folder** of a tree is a tree. -/
theorem IsTree.below (h : dir.IsTree) (folder : String) : (dir.below folder).IsTree where
  names rel hrel part hpart := by
    refine h.names _ (mem_paths_below_iff.1 hrel) part ?_
    rw [Text.split_slash_append]
    exact List.mem_append_right _ hpart
  parent rel hrel := by
    rw [contains_folders_below]
    have hparent := h.parent _ (mem_paths_below_iff.1 hrel)
    rcases parentFolder_slash_append folder rel with ⟨hroot, -⟩ | hinner
    · exact .inl hroot
    · rw [hinner] at hparent
      exact .inr (hparent.resolve_left (Text.slash_append_ne_empty _ _))
  apart rel hrel := by
    obtain ⟨found, hfound⟩ := Table.mem_keys_iff.1 hrel
    rw [Directory.below, get?_tableBelow] at hfound ⊢
    exact h.apart _ (Table.mem_keys_iff.2 ⟨found, hfound⟩)

/-- **The folders on the way** to a folder of a tree are there. -/
theorem IsTree.contains_outer (h : dir.IsTree) {outer inner : String} (houter : outer ≠ "")
    (hinner : dir.folders.contains (outer ++ "/" ++ inner) = true) :
    dir.folders.contains outer = true := by
  refine (of_parentFolder (P := fun path => path = "" ∨ dir.folders.contains path = true)
    (fun path hpath => ?_) outer inner (.inr hinner)).resolve_left houter
  rcases hpath with rfl | hfolder
  · exact .inl rfl
  · exact h.parent path (mem_paths_of_folder hfolder)

/-- Below what is no folder there is nothing. -/
theorem IsTree.not_mem_paths_slash_append (h : dir.IsTree) (hname : name ≠ "")
    (hnone : dir.folders.contains name = false) (path : String) :
    name ++ "/" ++ path ∉ dir.paths := by
  intro hpath
  have hparent := h.parent _ hpath
  have hfolder : dir.folders.contains name = true := by
    rcases parentFolder_slash_append name path with ⟨-, houter⟩ | hinner
    · rw [houter] at hparent
      exact hparent.resolve_left hname
    · rw [hinner] at hparent
      exact h.contains_outer hname (hparent.resolve_left (Text.slash_append_ne_empty _ _))
  rw [hnone] at hfolder
  cases hfolder

/-- **A folder of the directory** is opened by its name. -/
theorem open?_of_isFileName (h : IsFileName name) :
    dir.open? name = if dir.folders.contains name then some (dir.below name) else none := by
  have hparts : parts name = [name] := by
    have hsplit : Text.split '/' name = [name] := by
      rw [Text.split, Text.splitAtChar_eq_singleton h.no_slash, List.map_singleton,
        String.ofList_toList]
    rw [parts, hsplit]
    simp [h.ne_empty, h.no_dots.1]
  have hfirst : name.toList.head? ≠ some '/' :=
    fun hfirst => h.no_slash (List.mem_of_mem_head? hfirst)
  have hpath : "/".intercalate ([] ++ [name]) = name := String.intercalate_singleton
  rw [open?, if_neg hfirst, hparts, List.foldlM_cons, step?, if_neg h.no_dots.2, hpath]
  split
  next => simp
  next => rfl

/-! ## The texts of a directory -/

/-- The texts are the files that are texts. -/
theorem mem_texts_iff {text : String} : (path, text) ∈ dir.texts ↔ dir.text? path = some text := by
  unfold texts text?
  rw [List.mem_filterMap, Option.bind_eq_some_iff]
  constructor
  · rintro ⟨⟨other, bytes⟩, hmem, hread⟩
    obtain ⟨found, hfound, heq⟩ := Option.map_eq_some_iff.1 hread
    obtain ⟨rfl, rfl⟩ := Prod.mk.inj heq
    exact ⟨bytes, Table.mem_entries_iff.1 hmem, hfound⟩
  · rintro ⟨bytes, hmem, hread⟩
    exact ⟨(path, bytes), Table.mem_entries_iff.2 hmem, Option.map_eq_some_iff.2 ⟨text, hread, rfl⟩⟩

/-- The first text of a path is the text at the path. -/
theorem find?_texts (dir : Directory) (path : String) :
    (dir.texts.find? fun file => file.1 = path).map (·.2) = dir.text? path := by
  cases hfind : dir.texts.find? fun file => file.1 = path with
  | none =>
    rw [List.find?_eq_none] at hfind
    refine (Option.eq_none_iff_forall_ne_some.2 fun text htext => ?_).symm
    exact hfind (path, text) (mem_texts_iff.2 htext) (by simp)
  | some file =>
    have hpath : file.1 = path := by simpa using List.find?_some hfind
    rw [← hpath]
    exact (mem_texts_iff.1 (List.mem_of_find?_eq_some hfind)).symm

/-- No text is where a folder is. -/
theorem IsTree.text?_eq_none (h : dir.IsTree) (hfolder : dir.folders.contains path = true) :
    dir.text? path = none := by
  rw [text?, h.apart path (Table.mem_keys_iff.2 (Table.contains_iff.1 hfolder)), Option.bind_none]

/-- The texts stand by ascending path. -/
theorem pairwise_texts (dir : Directory) : dir.texts.Pairwise fun a b => a.1 < b.1 := by
  refine List.Pairwise.filterMap _ ?_ dir.files.ascending
  rintro ⟨path, bytes⟩ ⟨path', bytes'⟩ hlt ⟨shown, text⟩ hread ⟨shown', text'⟩ hread'
  obtain ⟨_, -, heq⟩ := Option.map_eq_some_iff.1 hread
  obtain ⟨_, -, heq'⟩ := Option.map_eq_some_iff.1 hread'
  rw [← (Prod.mk.inj heq).1, ← (Prod.mk.inj heq').1]
  exact hlt

end Directory

end SourceSearch
