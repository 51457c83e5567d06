import Mathlib.Data.List.TakeWhile
import SourceSearch.Proofs.DottedNames
import SourceSearch.Proofs.Paths

/-!
# Paths of folders

The path of a folder is made of parts with slashes between them. The folder around it is what the
parts but the last one make (`parentFolder_intercalate`). `Project.folderPaths` leaves out blank
parts: it makes a folder with exactly the path that it is asked for iff no part of the path is blank
(`isPlain_iff_mem_folderPaths`), and in any case it makes the folder around each folder that it makes
(`parentFolder_of_mem_folderPaths`).
-/

set_option autoImplicit false

namespace SourceSearch

/-- No part of the path is blank. -/
def IsPlain (path : String) : Prop := "" ∉ Text.split '/' path

instance (path : String) : Decidable (IsPlain path) := inferInstanceAs (Decidable (_ ∉ _))

namespace Text

variable {parts before after : List String}

theorem split_ne_nil (sep : Char) (text : String) : split sep text ≠ [] := by
  simpa [split] using splitAtChar_ne_nil sep text.toList

/-- Parts that are put together with slashes are had back. -/
theorem split_slash_intercalate (hne : parts ≠ []) (h : ∀ part ∈ parts, '/' ∉ part.toList) :
    split '/' ("/".intercalate parts) = parts :=
  split_intercalate_of rfl hne h

/-- The parts of a path with slashes between them are the path. -/
theorem slash_intercalate_split (path : String) : "/".intercalate (split '/' path) = path :=
  intercalate_split_of rfl path

/-- The path of the parts before and of the parts after are joined by a slash. -/
theorem slash_intercalate_append (hbefore : before ≠ []) (hafter : after ≠ []) :
    "/".intercalate (before ++ after) =
      "/".intercalate before ++ "/" ++ "/".intercalate after :=
  String.intercalate_append_of_ne_nil hbefore hafter

/-- **The parts of two paths** with a slash between them are those of both. -/
theorem split_slash_append (outer inner : String) :
    split '/' (outer ++ "/" ++ inner) = split '/' outer ++ split '/' inner := by
  have hjoin := slash_intercalate_append (split_ne_nil '/' outer) (split_ne_nil '/' inner)
  rw [slash_intercalate_split, slash_intercalate_split] at hjoin
  rw [← hjoin]
  refine split_slash_intercalate (by simp [split_ne_nil]) fun part hpart => ?_
  rcases List.mem_append.1 hpart with hpart | hpart
  · exact not_mem_of_mem_split hpart
  · exact not_mem_of_mem_split hpart

/-- A path that has a slash in it is not empty. -/
theorem slash_append_ne_empty (outer inner : String) : outer ++ "/" ++ inner ≠ "" := by
  intro h
  have hlist := congrArg String.toList h
  simp [String.toList_append] at hlist

end Text

open Text

namespace Workspace

variable {parts : List String} {path : String}

/-- What stands before the last slash, if nothing behind it is one. -/
theorem parentFolder_append {last : String} (outer : String) (h : '/' ∉ last.toList) :
    parentFolder (outer ++ "/" ++ last) = outer := by
  have hcs : (outer ++ "/" ++ last).toList = outer.toList ++ '/' :: last.toList := by
    simp [String.toList_append]
  have hlast : ∀ c ∈ last.toList, (c == '/') = false := by
    intro c hc
    rw [beq_eq_false_iff_ne]
    rintro rfl
    exact h hc
  unfold parentFolder
  rw [hcs, beforeLast_append_cons rfl hlast, String.ofList_toList]

/-- A path of one part is in the root. -/
theorem parentFolder_eq_root (h : '/' ∉ path.toList) : parentFolder path = "" := by
  have hall : ∀ c ∈ path.toList.reverse, (!(c == '/')) = true := by
    intro c hc
    rw [Bool.not_eq_true', beq_eq_false_iff_ne]
    rintro rfl
    exact h (List.mem_reverse.1 hc)
  unfold parentFolder Text.beforeLast
  rw [List.dropWhile_eq_nil_iff.2 hall]
  rfl

/-- **The folder around a path** is what its parts but the last one make. -/
theorem parentFolder_intercalate (h : ∀ part ∈ parts, '/' ∉ part.toList) :
    parentFolder ("/".intercalate parts) = "/".intercalate parts.dropLast := by
  induction parts using List.reverseRecOn with
  | nil => rfl
  | append_singleton before last =>
    have hlast : '/' ∉ last.toList := h last (by simp)
    rw [List.dropLast_concat]
    by_cases hbefore : before = []
    · rw [hbefore, List.nil_append, String.intercalate_singleton, parentFolder_eq_root hlast]
      rfl
    · rw [slash_intercalate_append hbefore (by simp), String.intercalate_singleton,
        parentFolder_append _ hlast]

/-- A path is in the root, or it goes on behind the folder around it. -/
theorem eq_parentFolder_append (path : String) :
    parentFolder path = "" ∨ ∃ last, path = parentFolder path ++ "/" ++ last := by
  have hslash : ∀ part ∈ split '/' path, '/' ∉ part.toList := fun part => not_mem_of_mem_split
  have hparent := parentFolder_intercalate hslash
  rw [slash_intercalate_split] at hparent
  by_cases hroot : (split '/' path).dropLast = []
  · exact .inl (by rw [hparent, hroot]; rfl)
  · refine .inr ⟨(split '/' path).getLast (split_ne_nil '/' path), ?_⟩
    have hjoin := slash_intercalate_append hroot
      (List.cons_ne_nil ((split '/' path).getLast (split_ne_nil '/' path)) [])
    rw [List.dropLast_concat_getLast, slash_intercalate_split, String.intercalate_singleton]
      at hjoin
    rw [hparent]
    exact hjoin

/-- The folder around a path below another one is that other one, or the folder around the path
below it. -/
theorem parentFolder_slash_append (outer path : String) :
    parentFolder path = "" ∧ parentFolder (outer ++ "/" ++ path) = outer ∨
      parentFolder (outer ++ "/" ++ path) = outer ++ "/" ++ parentFolder path := by
  have hslash : ∀ text, ∀ part ∈ split '/' text, '/' ∉ part.toList :=
    fun _ _ => not_mem_of_mem_split
  have hpath := parentFolder_intercalate (hslash path)
  have hwhole := parentFolder_intercalate (hslash (outer ++ "/" ++ path))
  rw [slash_intercalate_split] at hpath hwhole
  rw [hwhole, split_slash_append, List.dropLast_append_of_ne_nil (split_ne_nil '/' path), hpath]
  by_cases hroot : (split '/' path).dropLast = []
  · exact .inl ⟨by rw [hroot]; rfl, by rw [hroot, List.append_nil, slash_intercalate_split]⟩
  · exact .inr (by rw [slash_intercalate_append (split_ne_nil '/' outer) hroot,
      slash_intercalate_split])

/-- **What the folders around all paths have** all paths have that they begin with. -/
theorem of_parentFolder {P : String → Prop} (h : ∀ path, P path → P (parentFolder path))
    (outer inner : String) (hinner : P (outer ++ "/" ++ inner)) : P outer := by
  have hparts : ∀ parts : List String, (∀ part ∈ parts, '/' ∉ part.toList) →
      P ("/".intercalate (split '/' outer ++ parts)) → P outer := by
    intro parts
    -- the parts of the inner path are taken off one by one, from the end
    induction parts using List.reverseRecOn with
    | nil =>
      intro _ hall
      rw [List.append_nil, slash_intercalate_split] at hall
      exact hall
    | append_singleton before last ih =>
      intro hslash hall
      refine ih (fun part hpart => hslash part (List.mem_append_left _ hpart)) ?_
      have hparent := h _ hall
      rw [parentFolder_intercalate, ← List.append_assoc, List.dropLast_concat] at hparent
      · exact hparent
      · intro part hpart
        rcases List.mem_append.1 hpart with hpart | hpart
        · exact not_mem_of_mem_split hpart
        · exact hslash part hpart
  refine hparts (split '/' inner) (fun part => not_mem_of_mem_split) ?_
  rw [← split_slash_append, slash_intercalate_split]
  exact hinner

end Workspace

namespace Project

open Workspace

variable {path step : String}

/-- The parts of a path that are not blank. -/
def segments (path : String) : List String := (split '/' path).filter (· ≠ "")

theorem mem_folderPaths_iff :
    step ∈ folderPaths path ↔
      ∃ n < (segments path).length, "/".intercalate ((segments path).take (n + 1)) = step := by
  unfold segments folderPaths
  simp only [List.mem_map, List.mem_range]

theorem no_slash_of_mem_segments {part : String} (h : part ∈ segments path) :
    '/' ∉ part.toList :=
  not_mem_of_mem_split (List.mem_filter.1 h).1

theorem no_slash_of_mem_take {n : Nat} {part : String} (h : part ∈ (segments path).take n) :
    '/' ∉ part.toList :=
  no_slash_of_mem_segments (List.mem_of_mem_take h)

/-- All parts of a plain path count. -/
theorem segments_of_isPlain (h : IsPlain path) : segments path = split '/' path :=
  List.filter_eq_self.2 fun part hpart => by
    rw [decide_eq_true_eq]
    rintro rfl
    exact h hpart

/-- **No part is blank** of a folder that is made. -/
theorem isPlain_of_mem_folderPaths (h : step ∈ folderPaths path) : IsPlain step := by
  obtain ⟨n, hn, rfl⟩ := mem_folderPaths_iff.1 h
  have hne : (segments path).take (n + 1) ≠ [] := by
    rw [ne_eq, List.take_eq_nil_iff, not_or]
    exact ⟨Nat.succ_ne_zero n, List.length_pos_iff.1 (Nat.zero_lt_of_lt hn)⟩
  unfold IsPlain
  rw [split_slash_intercalate hne fun part => no_slash_of_mem_take]
  intro hblank
  have hkept := (List.mem_filter.1 (List.mem_of_mem_take hblank)).2
  simp at hkept

/-- **The folder that is asked for is made** iff no part of its path is blank. -/
theorem isPlain_iff_mem_folderPaths : IsPlain path ↔ path ∈ folderPaths path := by
  refine ⟨fun h => ?_, isPlain_of_mem_folderPaths⟩
  have hpos : 0 < (split '/' path).length := List.length_pos_iff.2 (split_ne_nil '/' path)
  refine mem_folderPaths_iff.2 ⟨(split '/' path).length - 1, ?_, ?_⟩
  · rw [segments_of_isPlain h]
    exact Nat.sub_lt hpos Nat.one_pos
  · rw [segments_of_isPlain h, Nat.sub_add_cancel hpos, List.take_length, slash_intercalate_split]

/-- **The folder around a folder that is made** is the root or is made too. -/
theorem parentFolder_of_mem_folderPaths (h : step ∈ folderPaths path) :
    parentFolder step = "" ∨ parentFolder step ∈ folderPaths path := by
  obtain ⟨n, hn, rfl⟩ := mem_folderPaths_iff.1 h
  have hlast : ((segments path).take (n + 1)).dropLast = (segments path).take n := by
    rw [List.dropLast_eq_take, List.length_take, Nat.min_eq_left hn, Nat.succ_sub_one,
      List.take_take, Nat.min_eq_left (Nat.le_succ n)]
  rw [parentFolder_intercalate fun part => no_slash_of_mem_take, hlast]
  cases n with
  | zero => exact .inl rfl
  | succ n => exact .inr (mem_folderPaths_iff.2 ⟨n, Nat.lt_of_succ_lt hn, rfl⟩)

/-- The folders on the way to a plain path are what it begins with. -/
theorem begins_of_mem_folderPaths (hplain : IsPlain path) (h : step ∈ folderPaths path) :
    path = step ∨ ∃ inner, path = step ++ "/" ++ inner := by
  obtain ⟨n, hn, rfl⟩ := mem_folderPaths_iff.1 h
  rw [segments_of_isPlain hplain] at hn ⊢
  have htake : (split '/' path).take (n + 1) ≠ [] := by
    rw [ne_eq, List.take_eq_nil_iff, not_or]
    exact ⟨Nat.succ_ne_zero n, split_ne_nil '/' path⟩
  have hparts : (split '/' path).take (n + 1) ++ (split '/' path).drop (n + 1) =
      split '/' path := List.take_append_drop _ _
  by_cases hdrop : (split '/' path).drop (n + 1) = []
  · left
    rw [hdrop, List.append_nil] at hparts
    rw [hparts, slash_intercalate_split]
  · right
    refine ⟨"/".intercalate ((split '/' path).drop (n + 1)), ?_⟩
    rw [← slash_intercalate_append htake hdrop, hparts, slash_intercalate_split]

end Project

/-! ## Files in folders -/

/-- A name that a file can have in its folder. -/
structure IsFileName (name : String) : Prop where
  ne_empty : name ≠ ""
  no_slash : '/' ∉ name.toList
  no_dots : name ≠ "." ∧ name ≠ ".."

/-- **A file in a folder** has a path that a file can have. -/
theorem IsFilePath.append {folder name : String} (h : IsFilePath folder) (hname : IsFileName name) :
    IsFilePath (folder ++ "/" ++ name) where
  ne_empty := slash_append_ne_empty folder name
  no_slash_last := by
    have hne : name.toList ≠ [] := fun hnil => hname.ne_empty (by simpa using hnil)
    rw [String.toList_append, List.getLast?_append,
      Option.or_of_isSome (by simpa using hne)]
    exact fun hlast => hname.no_slash (List.mem_of_getLast? hlast)
  no_dots part hpart := by
    have hmem : String.ofList part ∈ split '/' (folder ++ "/" ++ name) :=
      List.mem_map_of_mem hpart
    have hlast : split '/' name = [name] := by
      unfold split
      rw [splitAtChar_eq_singleton hname.no_slash]
      simp
    rw [split_slash_append, hlast, List.mem_append, List.mem_singleton] at hmem
    rcases hmem with hmem | hmem
    · obtain ⟨found, hfound, heq⟩ := List.mem_map.1 hmem
      rw [String.ofList_inj.1 heq] at hfound
      exact h.no_dots part hfound
    · constructor
      · rintro rfl
        exact hname.no_dots.1 hmem.symm
      · rintro rfl
        exact hname.no_dots.2 hmem.symm

/-- A path that ends in a slash is not plain. -/
theorem not_isPlain_append_slash (outer : String) : ¬IsPlain (outer ++ "/") := by
  intro h
  refine h ?_
  have hparts := split_slash_append outer ""
  rw [String.append_empty] at hparts
  rw [hparts]
  exact List.mem_append_right _ (by decide)

instance (name : String) : Decidable (IsFileName name) :=
  decidable_of_iff (name ≠ "" ∧ '/' ∉ name.toList ∧ name ≠ "." ∧ name ≠ "..")
    ⟨fun h => ⟨h.1, h.2.1, h.2.2⟩, fun h => ⟨h.ne_empty, h.no_slash, h.no_dots⟩⟩

/-- No part of a path is blank whose parts are names of files. -/
theorem isPlain_of_parts {path : String} (h : ∀ part ∈ split '/' path, IsFileName part) :
    IsPlain path :=
  fun hblank => (h "" hblank).ne_empty rfl

/-- **A path whose parts are names of files** is one that a file can have. -/
theorem isFilePath_of_parts {path : String} (h : ∀ part ∈ split '/' path, IsFileName part) :
    IsFilePath path where
  ne_empty := by
    rintro rfl
    exact (h "" (by decide)).ne_empty rfl
  no_slash_last := by
    intro hlast
    obtain ⟨cs, hcs⟩ := List.getLast?_eq_some_iff.1 hlast
    have hpath : path = String.ofList cs ++ "/" := by
      rw [← String.toList_inj, hcs, String.toList_append, String.toList_ofList]
      rfl
    exact not_isPlain_append_slash (String.ofList cs) (hpath ▸ isPlain_of_parts h)
  no_dots part hpart := by
    have hname := (h (String.ofList part) (List.mem_map_of_mem hpart)).no_dots
    constructor
    · rintro rfl
      exact hname.1 rfl
    · rintro rfl
      exact hname.2 rfl

/-! ## Slashes around a path -/

/-- No slash stands at either end. -/
structure IsTrimmed (path : String) : Prop where
  no_slash_first : path.toList.head? ≠ some '/'
  no_slash_last : path.toList.getLast? ≠ some '/'

/-- **Slashes are taken off** both ends of a source folder. -/
theorem isTrimmed_trimSlashes (folder : String) :
    IsTrimmed (ProjectConfig.trimSlashes folder) := by
  have htrim : (ProjectConfig.trimSlashes folder).toList =
      Workspace.trimSlashEnd (folder.toList.dropWhile (· == '/')) := by
    unfold ProjectConfig.trimSlashes
    rw [String.toList_ofList]
    rfl
  constructor
  · rw [htrim]
    intro hfirst
    have hbegin : Workspace.trimSlashEnd (folder.toList.dropWhile (· == '/')) <+:
        folder.toList.dropWhile (· == '/') := by
      unfold Workspace.trimSlashEnd
      exact List.reverse_suffix.1 (by
        rw [List.reverse_reverse]
        exact List.dropWhile_suffix _)
    obtain ⟨rest, hrest⟩ := hbegin
    have hnot := List.head?_dropWhile_not (fun c : Char => c == '/') folder.toList
    rw [← hrest, List.head?_append, hfirst] at hnot
    simp at hnot
  · rw [htrim]
    exact Workspace.getLast?_trimSlashEnd _

theorem not_isTrimmed_append_slash (outer : String) : ¬IsTrimmed (outer ++ "/") := by
  intro h
  refine h.no_slash_last ?_
  simp [String.toList_append]

/-- A path without slashes at its ends has a blank part iff it has two slashes in a row. -/
theorem isPlain_iff_of_isTrimmed {path : String} (hne : path ≠ "") (h : IsTrimmed path) :
    IsPlain path ↔ ¬∃ outer inner, path = outer ++ "/" ++ "/" ++ inner := by
  constructor
  · rintro hplain ⟨outer, inner, rfl⟩
    refine hplain ?_
    have hparts := split_slash_append (outer ++ "/") inner
    have hends := split_slash_append outer ""
    rw [String.append_empty] at hends
    rw [hparts, hends]
    exact List.mem_append_left _ (List.mem_append_right _ (by decide))
  · intro hnone hblank
    obtain ⟨before, after, hparts⟩ := List.append_of_mem hblank
    have hpath := slash_intercalate_split path
    rw [hparts] at hpath
    by_cases hbefore : before = []
    · subst hbefore
      by_cases hafter : after = []
      · subst hafter
        exact hne hpath.symm
      · refine h.no_slash_first ?_
        rw [← hpath, List.nil_append, String.intercalate_cons_of_ne_nil hafter]
        simp [String.toList_append]
    · by_cases hafter : after = []
      · subst hafter
        refine h.no_slash_last ?_
        rw [← hpath, slash_intercalate_append hbefore (by simp), String.intercalate_singleton]
        simp [String.toList_append]
      · refine hnone ⟨"/".intercalate before, "/".intercalate after, ?_⟩
        rw [← hpath, slash_intercalate_append hbefore (by simp),
          String.intercalate_cons_of_ne_nil hafter, String.empty_append, ← String.append_assoc]

end SourceSearch
