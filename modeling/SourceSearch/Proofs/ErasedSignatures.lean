import Mathlib.Data.List.TakeWhile
import SourceSearch.Proofs.DottedNames
import SourceSearch.Proofs.Words
import SourceSearch.Search.Pattern

/-!
# Signatures that are written as names

A declaration records a parameter type by its simple name with array brackets. Whoever looks a
method up gives signatures, which are erased first. Of the recorded names `Signature.erase` leaves
most as they are (`erase_displaySimple_eq_iff`): a name that holds a dollar sign is cut behind the
last one, and a name that is also the one-letter code of a primitive type is taken for the code,
unless brackets follow it.
-/

set_option autoImplicit false

namespace SourceSearch

/-- A name of a type without its package: characters of identifiers only. -/
structure IsSimpleName (name : String) : Prop where
  ne_empty : name ≠ ""
  chars : ∀ c ∈ name.toList, isIdentContinue c = true

theorem IsIdentifier.isSimpleName {name : String} (h : IsIdentifier name) : IsSimpleName name :=
  ⟨h.ne_empty, h.goesOn⟩

/-- Primitive types are written by simple names. -/
theorem Primitive.isSimpleName_spelling (p : Primitive) : IsSimpleName p.spelling := by
  refine ⟨?_, List.all_eq_true.1 ?_⟩
  · cases p <;> decide
  · cases p <;> decide

/-! ## Characters of identifiers -/

theorem ne_of_isIdentContinue {c d : Char} (h : isIdentContinue c = true)
    (hd : isIdentContinue d = false) : c ≠ d := by
  rintro rfl
  rw [h] at hd
  cases hd

/-- A character that identifiers do not have is not in a simple name. -/
theorem IsSimpleName.not_mem {name : String} (h : IsSimpleName name) {d : Char}
    (hd : isIdentContinue d = false) : d ∉ name.toList :=
  fun hmem => ne_of_isIdentContinue (h.chars d hmem) hd rfl

/-- A simple name does not end with such a character. -/
theorem IsSimpleName.getLast?_ne {name : String} (h : IsSimpleName name) {d : Char}
    (hd : isIdentContinue d = false) : name.toList.getLast? ≠ some d :=
  fun hlast => h.not_mem hd (List.mem_of_getLast? hlast)

/-- The code points of blanks. -/
def blankCodes : List Nat :=
  List.range' 9 5 ++ [0x20, 0x85, 0xA0, 0x1680] ++ List.range' 0x2000 11 ++
    [0x2028, 0x2029, 0x202F, 0x205F, 0x3000]

theorem toNat_mem_blankCodes {c : Char} (h : isBlank c = true) : c.toNat ∈ blankCodes := by
  simp only [isBlank, Bool.or_eq_true, Bool.and_eq_true, decide_eq_true_eq, beq_iff_eq] at h
  simp only [blankCodes, List.mem_append, List.mem_range'_1, List.mem_cons, List.not_mem_nil,
    or_false]
  omega

/-- **No character of an identifier is blank.** -/
theorem isBlank_of_isIdentContinue {c : Char} (h : isIdentContinue c = true) :
    isBlank c = false := by
  have hnone : ∀ n ∈ blankCodes, isIdentContinue (Char.ofNat n) = false := by decide +kernel
  by_contra hblank
  rw [Bool.not_eq_false] at hblank
  have hnot := hnone _ (toNat_mem_blankCodes hblank)
  rw [Char.ofNat_toNat, h] at hnot
  cases hnot

/-! ## Ends of texts -/

namespace Text

variable {suffix cs : List Char}

theorem dropEnding?_append (suffix cs : List Char) :
    dropEnding? suffix (cs ++ suffix) = some cs := by
  rw [dropEnding?, if_pos (by simp), List.length_append, Nat.add_sub_cancel, List.take_left']
  rfl

/-- A text that ends with another character does not end with these. -/
theorem dropEnding?_eq_none {c : Char} (hc : suffix.getLast? = some c)
    (hcs : cs.getLast? ≠ some c) : dropEnding? suffix cs = none := by
  rw [dropEnding?, if_neg]
  rw [List.isSuffixOf_iff_suffix]
  rintro ⟨before, rfl⟩
  rw [List.getLast?_append, hc] at hcs
  exact hcs rfl

/-- A text that is put together ends as its parts do. -/
theorem mem_getLast?_append {ds : List Char} {c : Char} (h : c ∈ (cs ++ ds).getLast?) :
    c ∈ cs.getLast? ∨ c ∈ ds.getLast? := by
  rw [List.getLast?_append, Option.mem_def, Option.or_eq_some_iff] at h
  exact h.symm.imp And.right id

/-- **All characters stand behind the last separator** iff there is no separator. -/
theorem afterLast_eq_self_iff {p : Char → Bool} :
    afterLast p cs = cs ↔ ∀ c ∈ cs, p c = false := by
  refine ⟨fun h c hc => ?_, afterLast_eq_self⟩
  rw [← h, afterLast, List.mem_reverse] at hc
  simpa using List.mem_takeWhile_imp hc

/-- Tests that agree on all characters find the same last separator. -/
theorem afterLast_congr {p q : Char → Bool} (h : ∀ c ∈ cs, p c = q c) :
    afterLast p cs = afterLast q cs := by
  have htake : ∀ ds : List Char, (∀ c ∈ ds, p c = q c) →
      ds.takeWhile (!p ·) = ds.takeWhile (!q ·) := by
    intro ds hds
    induction ds with
    | nil => rfl
    | cons d ds ih =>
      obtain ⟨hd, hds⟩ := List.forall_mem_cons.1 hds
      rw [List.takeWhile_cons, List.takeWhile_cons, hd, ih hds]
  rw [afterLast, afterLast, htake cs.reverse fun c hc => h c (List.mem_reverse.1 hc)]

end Text

/-- Nothing is trimmed off a text that neither starts nor ends with a blank. -/
theorem trimBlank_eq_self {cs : List Char} (hfirst : ∀ c ∈ cs.head?, isBlank c = false)
    (hlast : ∀ c ∈ cs.getLast?, isBlank c = false) : trimBlank cs = cs := by
  have hdrop : ∀ ds : List Char, (∀ c ∈ ds.head?, isBlank c = false) →
      ds.dropWhile isBlank = ds := by
    intro ds hds
    cases ds with
    | nil => rfl
    | cons d ds => exact List.dropWhile_cons_of_neg (by simp [hds d rfl])
  rw [trimBlank, hdrop cs hfirst, hdrop cs.reverse, List.reverse_reverse]
  rwa [List.head?_reverse]

/-- Nothing is left of a text iff all of it is blank. -/
theorem trimBlank_eq_nil_iff {cs : List Char} :
    trimBlank cs = [] ↔ ∀ c ∈ cs, isBlank c = true := by
  rw [trimBlank, List.reverse_eq_nil_iff, List.dropWhile_eq_nil_iff]
  simp only [List.mem_reverse]
  refine ⟨fun h => ?_, fun h c hc => h c ((List.dropWhile_suffix isBlank).subset hc)⟩
  rw [← List.dropWhile_eq_nil_iff]
  by_contra hne
  have hhead := h _ (List.head_mem hne)
  rw [List.head_dropWhile_not isBlank hne] at hhead
  cases hhead

/-- Blanks before a text are trimmed off. -/
theorem trimBlank_cons_of_isBlank {c : Char} (h : isBlank c = true) (cs : List Char) :
    trimBlank (c :: cs) = trimBlank cs := by
  rw [trimBlank, List.dropWhile_cons_of_pos h]
  rfl

/-! ## Names with array brackets -/

namespace TypeRef

/-- The characters of array brackets. -/
def bracketChars (dims : Nat) : List Char := (List.replicate dims ['[', ']']).flatten

theorem toList_brackets (dims : Nat) : (brackets dims).toList = bracketChars dims := by
  rw [brackets, String.toList_join, bracketChars, List.flatMap_replicate]
  rfl

@[simp] theorem bracketChars_zero : bracketChars 0 = [] := rfl

theorem bracketChars_succ (dims : Nat) :
    bracketChars (dims + 1) = bracketChars dims ++ ['[', ']'] := by
  rw [bracketChars, List.replicate_succ', List.flatten_concat, bracketChars]

theorem length_bracketChars (dims : Nat) : (bracketChars dims).length = 2 * dims := by
  induction dims with
  | zero => rfl
  | succ dims ih =>
    rw [bracketChars_succ, List.length_append, ih]
    rfl

theorem mem_bracketChars {dims : Nat} {c : Char} (h : c ∈ bracketChars dims) :
    c = '[' ∨ c = ']' := by
  obtain ⟨pair, hpair, hc⟩ := List.mem_flatten.1 h
  rw [List.eq_of_mem_replicate hpair] at hc
  simpa using hc

theorem toList_displaySimple (ref : TypeRef) :
    ref.displaySimple.toList = ref.simpleName.toList ++ bracketChars ref.dims := by
  rw [displaySimple, String.toList_append, toList_brackets]

/-- A recorded name is made of characters of identifiers and of brackets. -/
theorem mem_displaySimple {ref : TypeRef} (h : IsSimpleName ref.simpleName) {c : Char}
    (hc : c ∈ ref.displaySimple.toList) : isIdentContinue c = true ∨ c = '[' ∨ c = ']' := by
  rw [toList_displaySimple] at hc
  exact (List.mem_append.1 hc).imp (h.chars c) mem_bracketChars

/-- A recorded name has no character that is neither of identifiers nor a bracket. -/
theorem not_mem_displaySimple {ref : TypeRef} (h : IsSimpleName ref.simpleName) {d : Char}
    (hd : isIdentContinue d = false ∧ d ≠ '[' ∧ d ≠ ']') : d ∉ ref.displaySimple.toList := by
  intro hmem
  rcases mem_displaySimple h hmem with hident | hopen | hclose
  · rw [hd.1] at hident
    cases hident
  · exact hd.2.1 hopen
  · exact hd.2.2 hclose

/-- Nothing is trimmed off a recorded name. -/
theorem trimBlank_displaySimple {ref : TypeRef} (h : IsSimpleName ref.simpleName) :
    trimBlank ref.displaySimple.toList = ref.displaySimple.toList := by
  have hblank : ∀ c ∈ ref.displaySimple.toList, isBlank c = false := by
    intro c hc
    rcases mem_displaySimple h hc with hident | rfl | rfl
    · exact isBlank_of_isIdentContinue hident
    · rfl
    · rfl
  exact trimBlank_eq_self (fun c hc => hblank c (List.mem_of_mem_head? hc))
    fun c hc => hblank c (List.mem_of_mem_getLast? hc)

theorem displaySimple_ne_empty {ref : TypeRef} (h : IsSimpleName ref.simpleName) :
    ref.displaySimple ≠ "" := by
  intro heq
  have hnil := congrArg String.toList heq
  rw [toList_displaySimple] at hnil
  exact h.ne_empty (by simpa using (List.append_eq_nil_iff.1 hnil).1)

end TypeRef

namespace Signature

open TypeRef

/-- **Brackets are taken off** a name and counted. -/
theorem dropBrackets_append {name : List Char} (h : name.getLast? ≠ some ']') {dims fuel : Nat}
    (hfuel : dims ≤ fuel) : dropBrackets fuel (name ++ bracketChars dims) = (name, dims) := by
  induction dims generalizing fuel with
  | zero =>
    rw [bracketChars_zero, List.append_nil]
    cases fuel with
    | zero => rfl
    | succ fuel =>
      rw [dropBrackets, Text.dropEnding?_eq_none rfl h]
  | succ dims ih =>
    obtain ⟨fuel, rfl⟩ := Nat.exists_eq_add_of_lt hfuel
    rw [bracketChars_succ, ← List.append_assoc, dropBrackets, Text.dropEnding?_append]
    simp only [ih (Nat.le_add_right dims fuel)]

/-- A name with brackets behind it is in source form. -/
theorem sourceForm_append {name : List Char} (hbracket : name.getLast? ≠ some ']')
    (hdot : name.getLast? ≠ some '.') (dims : Nat) :
    sourceForm (name ++ bracketChars dims) = (name, dims) := by
  have hfuel : dims ≤ (name ++ bracketChars dims).length := by
    rw [List.length_append, length_bracketChars]
    omega
  rw [sourceForm, dropBrackets_append hbracket hfuel]
  simp only
  rw [Text.dropEnding?_eq_none rfl hdot]

/-- A class that is told by its descriptor ends in a semicolon. -/
theorem descriptorClass?_eq_none {cs : List Char} (h : cs.getLast? ≠ some ';') :
    descriptorClass? cs = none := by
  rw [descriptorClass?, Text.dropEnding?_eq_none rfl h]

/-- The code of a primitive type is no longer than one letter. -/
theorem length_of_descriptorPrimitive? {cs : List Char} {primitive : String}
    (h : descriptorPrimitive? cs = some primitive) : cs.length = 1 ∧ 1 < primitive.length := by
  unfold descriptorPrimitive? at h
  split at h <;> cases h <;> decide

/-- No text is a code that has more than a name. -/
theorem descriptorPrimitive?_append {name rest : List Char} (hname : name ≠ [])
    (hrest : rest ≠ []) : descriptorPrimitive? (name ++ rest) = none := by
  by_contra hsome
  obtain ⟨primitive, hprimitive⟩ := Option.ne_none_iff_exists'.1 hsome
  have hlength := (length_of_descriptorPrimitive? hprimitive).1
  have hname := List.length_pos_iff.2 hname
  have hrest := List.length_pos_iff.2 hrest
  rw [List.length_append] at hlength
  omega

/-- Of a simple name what stands behind its last dollar sign is kept. -/
theorem simpleName_of_isSimpleName {name : String} (h : IsSimpleName name) :
    simpleName name.toList = Text.afterLast (· == '$') name.toList := by
  have htake : name.toList.takeWhile (· != '<') = name.toList := by
    refine List.takeWhile_eq_self_iff.2 fun c hc => ?_
    simpa using ne_of_isIdentContinue (h.chars c hc) (by decide)
  have hsame : ∀ c ∈ name.toList, (c == '.' || c == '/' || c == '$') = (c == '$') := by
    intro c hc
    have hident := h.chars c hc
    simp [ne_of_isIdentContinue hident (show isIdentContinue '.' = false by decide),
      ne_of_isIdentContinue hident (show isIdentContinue '/' = false by decide)]
  rw [simpleName, htake, Text.afterLast_congr hsame]

/-- **What is no descriptor of a class** is the code of a primitive type, or in source form. -/
theorem erase_of_not_descriptor {text : String} (htrim : trimBlank text.toList = text.toList)
    (hopening : text.toList.head? ≠ some '[') (hclass : text.toList.getLast? ≠ some ';') :
    erase text =
      match descriptorPrimitive? text.toList with
      | some primitive => primitive
      | none =>
        String.ofList (simpleName (sourceForm text.toList).1 ++
          bracketChars (sourceForm text.toList).2) := by
  have hnone : text.toList.takeWhile (· == '[') = [] := by
    cases hcs : text.toList with
    | nil => rfl
    | cons c cs =>
      rw [hcs] at hopening
      rw [List.takeWhile_cons_of_neg]
      simpa using hopening
  rw [erase, htrim, hnone, List.length_nil, List.drop_zero, descriptorClass?_eq_none hclass]
  cases descriptorPrimitive? text.toList with
  | some primitive => simp
  | none =>
    simp only [Nat.zero_add]
    rfl

/-- **A descriptor of a class** is its letter, the name and a semicolon behind the dimensions. -/
theorem erase_of_descriptor {text : String} {mark : Char} (hmark : mark ∈ ['Q', 'L', 'T'])
    {name : List Char} (hname : name ≠ []) {dims : Nat}
    (htext : text.toList = List.replicate dims '[' ++ mark :: (name ++ [';'])) :
    erase text = String.ofList (simpleName name ++ bracketChars dims) := by
  have hopening : text.toList.takeWhile (· == '[') = List.replicate dims '[' := by
    rw [htext, List.takeWhile_append_of_pos fun c hc => by simp [List.eq_of_mem_replicate hc],
      List.takeWhile_cons_of_neg, List.append_nil]
    rintro heq
    rw [eq_of_beq heq] at hmark
    simp at hmark
  have hclass : descriptorClass? (mark :: (name ++ [';'])) = some name := by
    rw [descriptorClass?, ← List.cons_append, Text.dropEnding?_append]
    simp only [List.mem_cons, List.not_mem_nil, or_false] at hmark
    rcases hmark with rfl | rfl | rfl <;> simp [hname]
  have htrim : trimBlank text.toList = text.toList := by
    rw [htext]
    refine trimBlank_eq_self ?_ ?_
    · intro c hc
      cases dims with
      | zero =>
        obtain rfl : mark = c := Option.some.inj hc
        simp only [List.mem_cons, List.not_mem_nil, or_false] at hmark
        rcases hmark with rfl | rfl | rfl <;> rfl
      | succ dims =>
        obtain rfl : '[' = c := Option.some.inj hc
        rfl
    · intro c hc
      rw [← List.cons_append, ← List.append_assoc, List.getLast?_concat] at hc
      obtain rfl : ';' = c := Option.some.inj hc
      rfl
  have hdrop : text.toList.drop dims = mark :: (name ++ [';']) := by
    rw [htext, List.drop_left' List.length_replicate]
  rw [erase, htrim, hopening, List.length_replicate, hdrop, hclass]
  rfl

/-- **What the recorded name of a parameter type is erased to**: the type of which it is the code,
or else what stands behind its last dollar sign, with the brackets. -/
theorem erase_displaySimple {ref : TypeRef} (h : IsSimpleName ref.simpleName) :
    erase ref.displaySimple =
      match if ref.dims = 0 then descriptorPrimitive? ref.simpleName.toList else none with
      | some primitive => primitive
      | none =>
        String.ofList
          (Text.afterLast (· == '$') ref.simpleName.toList ++ bracketChars ref.dims) := by
  have hne : ref.simpleName.toList ≠ [] := fun hnil => h.ne_empty (by simpa using hnil)
  have hcode : descriptorPrimitive? ref.displaySimple.toList =
      if ref.dims = 0 then descriptorPrimitive? ref.simpleName.toList else none := by
    rw [ref.toList_displaySimple]
    split
    next hdims =>
      rw [hdims]
      exact congrArg _ (List.append_nil _)
    next hdims =>
      refine descriptorPrimitive?_append hne fun hnil => hdims ?_
      have hlength := congrArg List.length hnil
      rw [length_bracketChars, List.length_nil] at hlength
      omega
  rw [erase_of_not_descriptor (trimBlank_displaySimple h), hcode, ref.toList_displaySimple,
    sourceForm_append (h.getLast?_ne (by decide)) (h.getLast?_ne (by decide)),
    simpleName_of_isSimpleName h]
  · obtain ⟨first, rest, hfirst⟩ := List.exists_cons_of_ne_nil hne
    have hident := h.chars first (hfirst ▸ List.mem_cons_self)
    rw [ref.toList_displaySimple, hfirst, List.cons_append, List.head?_cons]
    exact fun heq => ne_of_isIdentContinue hident (by decide) (Option.some.inj heq)
  · exact fun hlast => not_mem_displaySimple h (by decide) (List.mem_of_getLast? hlast)

end Signature

/-- A parameter type whose recorded name is a signature of itself: it holds no dollar sign and is,
without brackets, no code of a primitive type. -/
def TypeRef.IsOwnSignature (ref : TypeRef) : Prop :=
  '$' ∉ ref.simpleName.toList ∧
    (ref.dims = 0 → Signature.descriptorPrimitive? ref.simpleName.toList = none)

instance (ref : TypeRef) : Decidable ref.IsOwnSignature := inferInstanceAs (Decidable (_ ∧ _))

namespace Signature

/-- **A recorded name is erased to itself** iff it is its own signature. -/
theorem erase_displaySimple_eq_iff {ref : TypeRef} (h : IsSimpleName ref.simpleName) :
    erase ref.displaySimple = ref.displaySimple ↔ ref.IsOwnSignature := by
  have hown : String.ofList (Text.afterLast (· == '$') ref.simpleName.toList ++
      TypeRef.bracketChars ref.dims) = ref.displaySimple ↔ '$' ∉ ref.simpleName.toList := by
    rw [← String.toList_inj, String.toList_ofList, TypeRef.toList_displaySimple,
      List.append_cancel_right_eq, Text.afterLast_eq_self_iff]
    simp only [beq_eq_false_iff_ne, ne_eq]
    exact ⟨fun hall hmem => hall _ hmem rfl, fun hnot c hc heq => hnot (heq ▸ hc)⟩
  rw [erase_displaySimple h, TypeRef.IsOwnSignature]
  by_cases hdims : ref.dims = 0
  · rw [if_pos hdims]
    cases hcode : descriptorPrimitive? ref.simpleName.toList with
    | none => simpa using hown
    | some primitive =>
      -- the name of a primitive type is longer than its code
      obtain ⟨hshort, hlong⟩ := length_of_descriptorPrimitive? hcode
      refine iff_of_false (fun heq => ?_) fun hnone => by simp [hdims] at hnone
      have hlength := congrArg (fun text : String => text.toList.length) heq
      simp only [TypeRef.displaySimple, hdims, String.toList_append, TypeRef.toList_brackets,
        TypeRef.bracketChars, List.replicate_zero, List.flatten_nil, List.append_nil, hshort,
        String.length_toList] at hlength
      omega
  · rw [if_neg hdims]
    simpa [hdims] using hown

end Signature

end SourceSearch
