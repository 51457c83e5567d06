import Mathlib.Data.List.Induction
import Mathlib.Data.List.TakeWhile
import SourceSearch.Archive

/-!
# Dotted names

A dotted name is made of segments without dots. From the name the last segment can be had back
(`lastSegment_intercalate`), what stands before it can (`qualifier_append`), all segments can
(`split_intercalate`), and so can the names of the packages around it (`packagePath_intercalate`).
-/

set_option autoImplicit false

namespace SourceSearch

namespace Text

/-- What stands behind the last separator stands behind each that comes before. -/
theorem afterLast_append_sep {p : Char → Bool} {sep : Char} (hsep : p sep = true)
    (before after : List Char) : afterLast p (before ++ sep :: after) = afterLast p after := by
  unfold afterLast
  rw [List.reverse_append, List.reverse_cons, List.append_assoc, List.takeWhile_append]
  split
  next hall => simp [hsep, List.takeWhile_eq_self_iff.2
      (List.takeWhile_eq_self_iff.1 ((List.takeWhile_sublist _).eq_of_length hall))]
  next => rfl

/-- All characters, when none of them is a separator. -/
theorem afterLast_eq_self {p : Char → Bool} {cs : List Char} (h : ∀ c ∈ cs, p c = false) :
    afterLast p cs = cs := by
  unfold afterLast
  have hall : ∀ c ∈ cs.reverse, (!p c) = true := by
    intro c hc
    rw [h c (List.mem_reverse.1 hc)]
    rfl
  have htake : (cs.reverse ++ []).takeWhile (!p ·) = cs.reverse ++ [].takeWhile (!p ·) :=
    List.takeWhile_append_of_pos hall
  rw [List.append_nil, List.takeWhile_nil, List.append_nil] at htake
  rw [htake, List.reverse_reverse]

/-- The characters of a segment are not the dot. -/
theorem ne_dot_of_mem {name : String} (h : '.' ∉ name.toList) :
    ∀ c ∈ name.toList, (c == '.') = false := by
  intro c hc
  rw [beq_eq_false_iff_ne]
  rintro rfl
  exact h hc

/-- A name without dots is its own last segment. -/
theorem lastSegment_eq_self {name : String} (h : '.' ∉ name.toList) : lastSegment name = name := by
  unfold lastSegment
  rw [afterLast_eq_self (ne_dot_of_mem h), String.ofList_toList]

/-- A last segment has no dot. -/
theorem lastSegment_lastSegment (name : String) :
    lastSegment (lastSegment name) = lastSegment name := by
  refine lastSegment_eq_self fun hmem => ?_
  rw [lastSegment, String.toList_ofList, afterLast, List.mem_reverse] at hmem
  have hdot := List.mem_takeWhile_imp hmem
  simp at hdot

/-- **The last segment** of a name inside another one is that of the name. -/
theorem lastSegment_inside (outer name : String) :
    lastSegment (outer ++ "." ++ name) = lastSegment name := by
  unfold lastSegment
  have hcs : (outer ++ "." ++ name).toList = outer.toList ++ '.' :: name.toList := by
    simp [String.toList_append]
  rw [hcs, afterLast_append_sep rfl]

theorem lastSegment_append {name : String} (outer : String) (h : '.' ∉ name.toList) :
    lastSegment (outer ++ "." ++ name) = name :=
  (lastSegment_inside outer name).trans (lastSegment_eq_self h)

theorem lastSegment_qualified (outer name : String) :
    lastSegment (qualify outer name) = lastSegment name := by
  unfold qualify
  split
  · rfl
  · exact lastSegment_inside outer name

theorem lastSegment_qualify {name : String} (outer : String) (h : '.' ∉ name.toList) :
    lastSegment (qualify outer name) = name :=
  (lastSegment_qualified outer name).trans (lastSegment_eq_self h)

/-- What stands before the last separator. -/
theorem beforeLast_append_cons {p : Char → Bool} {before after : List Char} {sep : Char}
    (hsep : p sep = true) (hafter : ∀ c ∈ after, p c = false) :
    beforeLast p (before ++ sep :: after) = before := by
  unfold beforeLast
  have hall : ∀ c ∈ after.reverse, (!p c) = true := by
    intro c hc
    rw [hafter c (List.mem_reverse.1 hc)]
    rfl
  rw [List.reverse_append, List.reverse_cons, List.append_assoc,
    List.dropWhile_append_of_pos hall]
  simp [hsep]

/-- **The qualifier** of a name inside another one is the other one. -/
theorem qualifier_append {name : String} (outer : String) (h : '.' ∉ name.toList) :
    qualifier (outer ++ "." ++ name) = outer := by
  unfold qualifier
  have hcs : (outer ++ "." ++ name).toList = outer.toList ++ '.' :: name.toList := by
    simp [String.toList_append]
  rw [hcs, beforeLast_append_cons rfl (ne_dot_of_mem h), String.ofList_toList]

/-- A dotted name of several segments ends in the last one. -/
theorem intercalate_concat {segments : List String} (h : segments ≠ []) (last : String) :
    ".".intercalate (segments ++ [last]) = ".".intercalate segments ++ "." ++ last := by
  rw [String.intercalate_append_of_ne_nil h (by simp), String.intercalate_singleton]

/-- A dotted name ends as the last of the names that are put together. -/
theorem lastSegment_joined (segments : List String) :
    lastSegment (".".intercalate segments) = lastSegment (segments.getLast?.getD "") := by
  induction segments using List.reverseRecOn with
  | nil => rfl
  | append_singleton before last =>
    rw [List.getLast?_concat, Option.getD_some]
    by_cases hbefore : before = []
    · rw [hbefore, List.nil_append, String.intercalate_singleton]
    · rw [intercalate_concat hbefore, lastSegment_inside]

theorem lastSegment_intercalate {segments : List String}
    (h : ∀ segment ∈ segments, '.' ∉ segment.toList) :
    lastSegment (".".intercalate segments) = segments.getLast?.getD "" := by
  rw [lastSegment_joined]
  cases hlast : segments.getLast? with
  | none => rfl
  | some last => exact lastSegment_eq_self (h last (List.mem_of_getLast? hlast))

theorem splitAtChar_eq_singleton {sep : Char} {part : List Char} (h : sep ∉ part) :
    splitAtChar sep part = [part] := by
  induction part with
  | nil => rfl
  | cons c cs ih =>
    have hne : c ≠ sep := fun heq => h (heq ▸ List.mem_cons_self)
    rw [splitAtChar, if_neg hne, ih fun hmem => h (List.mem_cons_of_mem _ hmem)]

/-- **A text is split** before and behind each of its separators. -/
theorem splitAtChar_append (sep : Char) (before after : List Char) :
    splitAtChar sep (before ++ sep :: after) =
      splitAtChar sep before ++ splitAtChar sep after := by
  induction before with
  | nil => simp [splitAtChar]
  | cons c cs ih =>
    by_cases heq : c = sep
    · simp [splitAtChar, heq, ih]
    · obtain ⟨part, parts, hparts⟩ := List.exists_cons_of_ne_nil (splitAtChar_ne_nil sep cs)
      simp [splitAtChar, heq, ih, hparts]

/-- Splitting goes on behind a part and the separator after it. -/
theorem splitAtChar_append_cons {sep : Char} {part : List Char} (h : sep ∉ part)
    (rest : List Char) : splitAtChar sep (part ++ sep :: rest) = part :: splitAtChar sep rest := by
  rw [splitAtChar_append, splitAtChar_eq_singleton h, List.singleton_append]

/-- Every part is without separators. -/
theorem not_mem_of_mem_splitAtChar {sep : Char} {cs part : List Char}
    (h : part ∈ splitAtChar sep cs) : sep ∉ part := by
  induction cs generalizing part with
  | nil =>
    obtain rfl : part = [] := by simpa [splitAtChar] using h
    simp
  | cons c cs ih =>
    rw [splitAtChar] at h
    split at h
    next =>
      rcases List.mem_cons.1 h with rfl | h
      · simp
      · exact ih h
    next hne =>
      cases hparts : splitAtChar sep cs with
      | nil => exact absurd hparts (splitAtChar_ne_nil sep cs)
      | cons first parts =>
        rw [hparts] at h ih
        rcases List.mem_cons.1 h with rfl | h
        · rw [List.mem_cons, not_or]
          exact ⟨fun heq => hne heq.symm, ih List.mem_cons_self⟩
        · exact ih (List.mem_cons_of_mem _ h)

/-- The parts of a text hold no separator. -/
theorem not_mem_of_mem_split {sep : Char} {text part : String} (h : part ∈ split sep text) :
    sep ∉ part.toList := by
  obtain ⟨cs, hcs, rfl⟩ := List.mem_map.1 h
  rw [String.toList_ofList]
  exact not_mem_of_mem_splitAtChar hcs

/-- **Parts that are put together** with separators between them are had back by splitting. -/
theorem split_intercalate_of {sep : Char} {between : String} (hsep : between.toList = [sep])
    {parts : List String} (hne : parts ≠ []) (h : ∀ part ∈ parts, sep ∉ part.toList) :
    split sep (between.intercalate parts) = parts := by
  unfold split
  induction parts with
  | nil => exact absurd rfl hne
  | cons first rest ih =>
    have hfirst : sep ∉ first.toList := h first List.mem_cons_self
    by_cases hrest : rest = []
    · rw [hrest, String.intercalate_singleton, splitAtChar_eq_singleton hfirst]
      simp
    · have hcs : (between.intercalate (first :: rest)).toList =
          first.toList ++ sep :: (between.intercalate rest).toList := by
        rw [String.intercalate_cons_of_ne_nil hrest]
        simp [String.toList_append, hsep]
      rw [hcs, splitAtChar_append_cons hfirst, List.map_cons, String.ofList_toList,
        ih hrest fun part hmem => h part (List.mem_cons_of_mem _ hmem)]

/-- **The parts of a text** with separators between them are the text. -/
theorem intercalate_split_of {sep : Char} {between : String} (hsep : between.toList = [sep])
    (text : String) : between.intercalate (split sep text) = text := by
  have hbetween : between = String.ofList [sep] := by rw [← hsep, String.ofList_toList]
  have hparts : ∀ cs : List Char,
      between.intercalate ((splitAtChar sep cs).map String.ofList) = String.ofList cs := by
    intro cs
    induction cs with
    | nil => rfl
    | cons c cs ih =>
      rw [splitAtChar]
      have hne := splitAtChar_ne_nil sep cs
      split
      next heq =>
        subst heq
        rw [List.map_cons, String.intercalate_cons_of_ne_nil (by simpa using hne), ih, hbetween,
          ← String.ofList_append, ← String.ofList_append]
        rfl
      next =>
        cases hsplit : splitAtChar sep cs with
        | nil => exact absurd hsplit hne
        | cons part parts =>
          rw [hsplit] at ih
          have hcons : String.ofList (c :: part) = String.ofList [c] ++ String.ofList part := by
            rw [← String.ofList_append, List.singleton_append]
          have hall : String.ofList (c :: cs) = String.ofList [c] ++ String.ofList cs := by
            rw [← String.ofList_append, List.singleton_append]
          rw [hall, ← ih, List.map_cons, List.map_cons, hcons]
          by_cases hrest : parts.map String.ofList = []
          · rw [hrest, String.intercalate_singleton, String.intercalate_singleton]
          · rw [String.intercalate_cons_of_ne_nil hrest, String.intercalate_cons_of_ne_nil hrest]
            simp only [String.append_assoc]
  unfold split
  rw [hparts, String.ofList_toList]

/-- **The segments** of a dotted name are had back by splitting it. -/
theorem split_intercalate {segments : List String} (hne : segments ≠ [])
    (h : ∀ segment ∈ segments, '.' ∉ segment.toList) :
    split '.' (".".intercalate segments) = segments :=
  split_intercalate_of rfl hne h

/-- The parts of a text with dots between them are the text. -/
theorem intercalate_split (text : String) : ".".intercalate (split '.' text) = text :=
  intercalate_split_of rfl text

/-- A dotted name goes on behind the parts of its beginning. -/
theorem intercalate_split_append (text : String) (rest : List String) :
    ".".intercalate (split '.' text ++ rest) = ".".intercalate (text :: rest) := by
  have hne : split '.' text ≠ [] := by simpa [split] using splitAtChar_ne_nil '.' text.toList
  by_cases hrest : rest = []
  · rw [hrest, List.append_nil, intercalate_split, String.intercalate_singleton]
  · rw [String.intercalate_append_of_ne_nil hne hrest, String.intercalate_cons_of_ne_nil hrest,
      intercalate_split]

end Text

/-- **A package and the packages around it** are the names of the first segments. -/
theorem packagePath_intercalate {segments : List String}
    (h : ∀ segment ∈ segments, segment ≠ "" ∧ '.' ∉ segment.toList) :
    packagePath (".".intercalate segments) =
      (List.range segments.length).map fun n => ".".intercalate (segments.take (n + 1)) := by
  unfold packagePath
  by_cases hne : segments = []
  · subst hne
    rfl
  · rw [Text.split_intercalate hne fun segment hmem => (h segment hmem).2,
      List.filter_eq_self.2 fun segment hmem => by simpa using (h segment hmem).1]

end SourceSearch
