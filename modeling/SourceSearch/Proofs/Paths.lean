import SourceSearch.Workspace

/-!
# Workspace paths

`Workspace.splitPath` cuts a path into a project and a path below it. What it answers has a normal
form (`of_splitPath`), and from every pair in normal form it can be had back by joining the two with
slashes (`splitPath_join`). So a file is reached under the path that it shows.
-/

set_option autoImplicit false

namespace SourceSearch

/-- A name that a project can have: it is not empty and no path. -/
structure IsProjectName (name : String) : Prop where
  ne_empty : name ≠ ""
  no_slash : '/' ∉ name.toList

/-- A path that a file can have below its project: it does not end in a slash and none of its parts
stays in place or leads upwards. -/
structure IsFilePath (path : String) : Prop where
  ne_empty : path ≠ ""
  no_slash_last : path.toList.getLast? ≠ some '/'
  no_dots : ∀ part ∈ Text.splitAtChar '/' path.toList, part ≠ ['.'] ∧ part ≠ ['.', '.']

namespace Workspace

/-- The characters of a path without the slashes at its end. -/
def trimSlashEnd (cs : List Char) : List Char := (cs.reverse.dropWhile (· == '/')).reverse

theorem getLast?_trimSlashEnd (cs : List Char) : (trimSlashEnd cs).getLast? ≠ some '/' := by
  unfold trimSlashEnd
  rw [List.getLast?_reverse]
  intro h
  have hnot := List.head?_dropWhile_not (fun c : Char => c == '/') cs.reverse
  rw [h] at hnot
  simp at hnot

theorem trimSlashEnd_eq_self {cs : List Char} (h : cs.getLast? ≠ some '/') :
    trimSlashEnd cs = cs := by
  unfold trimSlashEnd
  rw [List.getLast?_eq_head?_reverse] at h
  cases hrev : cs.reverse with
  | nil => simpa using hrev.symm
  | cons c rest =>
    have hc : (c == '/') = false := by
      rw [hrev] at h
      simpa using h
    rw [List.dropWhile_cons_of_neg (by simp [hc]), ← hrev, List.reverse_reverse]

/-- The answer of `splitPath` for a path after its first slash. -/
theorem splitPath_eq {path : String} {cs : List Char} (h : path.toList = '/' :: cs) :
    splitPath path =
      if ((trimSlashEnd cs).takeWhile (· ≠ '/')).isEmpty ||
          (Text.splitAtChar '/' (((trimSlashEnd cs).dropWhile (· ≠ '/')).drop 1)).any
            (fun s => s == ['.'] || s == ['.', '.'])
      then .error (.invalidPath path)
      else .ok (String.ofList ((trimSlashEnd cs).takeWhile (· ≠ '/')),
        String.ofList (((trimSlashEnd cs).dropWhile (· ≠ '/')).drop 1)) := by
  unfold splitPath
  rw [h]
  rfl

/-- **What a path is cut into**: the name of a project, and a path of a file unless it is empty. -/
theorem of_splitPath {path name rel : String} (h : splitPath path = .ok (name, rel)) :
    IsProjectName name ∧ (rel ≠ "" → IsFilePath rel) := by
  cases hcs : path.toList with
  | nil => simp [splitPath, hcs] at h
  | cons c cs =>
    by_cases hslash : c = '/'
    · subst hslash
      rw [splitPath_eq hcs] at h
      split at h
      · simp at h
      · rename_i hok
        simp only [Bool.or_eq_true, not_or, Bool.not_eq_true, List.isEmpty_eq_false_iff,
          List.any_eq_false] at hok
        obtain ⟨hname, hparts⟩ := hok
        simp only [Except.ok.injEq, Prod.mk.injEq] at h
        obtain ⟨rfl, rfl⟩ := h
        refine ⟨⟨?_, ?_⟩, fun hne => ⟨hne, ?_, ?_⟩⟩
        · intro hempty
          exact hname (by simpa using hempty)
        · intro hmem
          rw [String.toList_ofList] at hmem
          have := List.all_eq_true.1 List.all_takeWhile _ hmem
          simp at this
        · rw [String.toList_ofList]
          have hsuffix : ((trimSlashEnd cs).dropWhile (· ≠ '/')).drop 1 <:+ trimSlashEnd cs :=
            (List.drop_suffix _ _).trans (List.dropWhile_suffix _)
          obtain ⟨before, hbefore⟩ := hsuffix
          have hlast := getLast?_trimSlashEnd cs
          rw [← hbefore, List.getLast?_append] at hlast
          intro h
          rw [h] at hlast
          exact hlast rfl
        · rw [String.toList_ofList]
          intro part hpart
          have := hparts part hpart
          simpa using this
    · unfold splitPath at h
      rw [hcs] at h
      split at h
      · rename_i heq
        exact absurd (List.cons.inj heq).1 hslash
      · simp at h

/-- **A file is reached under its project's name and its path.** -/
theorem splitPath_join {name path : String} (hname : IsProjectName name) (hpath : IsFilePath path) :
    splitPath ("/" ++ name ++ "/" ++ path) = .ok (name, path) := by
  have hcs : ("/" ++ name ++ "/" ++ path).toList = '/' :: (name.toList ++ '/' :: path.toList) := by
    simp [String.toList_append]
  have hne : path.toList ≠ [] := by
    intro hnil
    exact hpath.ne_empty (by simpa using hnil)
  have htrim : trimSlashEnd (name.toList ++ '/' :: path.toList) =
      name.toList ++ '/' :: path.toList := by
    apply trimSlashEnd_eq_self
    rw [List.getLast?_append, List.getLast?_cons_of_ne_nil hne,
      Option.or_of_isSome (by simpa using hne)]
    exact hpath.no_slash_last
  have hall : ∀ c ∈ name.toList, (decide (c ≠ '/')) = true := by
    intro c hc
    simp only [decide_eq_true_eq]
    rintro rfl
    exact hname.no_slash hc
  have htake : (name.toList ++ '/' :: path.toList).takeWhile (· ≠ '/') = name.toList := by
    rw [List.takeWhile_append_of_pos hall, List.takeWhile_cons_of_neg (by simp), List.append_nil]
  have hdrop : (name.toList ++ '/' :: path.toList).dropWhile (· ≠ '/') = '/' :: path.toList := by
    rw [List.dropWhile_append_of_pos hall, List.dropWhile_cons_of_neg (by simp)]
  have hnonempty : name.toList.isEmpty = false := by
    rw [List.isEmpty_eq_false_iff]
    intro hnil
    exact hname.ne_empty (by simpa using hnil)
  have hparts : (Text.splitAtChar '/' path.toList).any (fun s => s == ['.'] || s == ['.', '.']) =
      false := by
    rw [List.any_eq_false]
    intro part hpart
    have := hpath.no_dots part hpart
    simpa using this
  rw [splitPath_eq hcs, htrim, htake, hdrop, List.drop_one, List.tail_cons, hnonempty, hparts]
  simp

end Workspace

end SourceSearch
