import Mathlib
import SourceSearch.Proofs.ErasedSignatures

/-!
# Patterns that are written like calls

A pattern for methods can be written like a call, `p.X.foo(Object, int)`. It is taken apart at the
first parenthesis, and what stands between the parentheses is cut at every comma
(`SearchPattern.readParams?_intercalate`). So parameter types without commas are read one by one
(`ofString_call`), but a type with several type arguments is cut within them.

A list of types in source form (`WrittenType`) is hence read as what these types are erased to iff
none of them holds a comma. Whenever the pattern is read it has one parameter more for each comma
(`ofString_writtenCall_iff`).
-/

set_option autoImplicit false

namespace SourceSearch

/-! ## Parts between separators -/

namespace Text

theorem length_splitAtChar (sep : Char) (cs : List Char) :
    (splitAtChar sep cs).length = cs.count sep + 1 := by
  induction cs with
  | nil => rfl
  | cons c cs ih =>
    by_cases heq : c = sep
    · simp [splitAtChar, heq, ih]
    · obtain ⟨part, parts, hparts⟩ := List.exists_cons_of_ne_nil (splitAtChar_ne_nil sep cs)
      rw [hparts, List.length_cons] at ih
      simp [splitAtChar, heq, hparts, ih]

/-- Each character of a text is a separator or stands in a part. -/
theorem eq_or_mem_of_mem {sep : Char} {cs : List Char} {c : Char} (h : c ∈ cs) :
    c = sep ∨ ∃ part ∈ splitAtChar sep cs, c ∈ part := by
  induction cs with
  | nil => cases h
  | cons d cs ih =>
    by_cases hd : d = sep
    · rw [splitAtChar, if_pos hd]
      rcases List.mem_cons.1 h with rfl | h
      · exact Or.inl hd
      · refine (ih h).imp_right ?_
        rintro ⟨part, hpart, hc⟩
        exact ⟨part, List.mem_cons_of_mem _ hpart, hc⟩
    · obtain ⟨first, parts, hparts⟩ := List.exists_cons_of_ne_nil (splitAtChar_ne_nil sep cs)
      rw [splitAtChar, if_neg hd, hparts]
      rw [hparts] at ih
      rcases List.mem_cons.1 h with rfl | h
      · exact Or.inr ⟨_, List.mem_cons_self, List.mem_cons_self⟩
      · refine (ih h).imp_right ?_
        rintro ⟨part, hpart, hc⟩
        rcases List.mem_cons.1 hpart with rfl | hpart
        · exact ⟨_, List.mem_cons_self, List.mem_cons_of_mem _ hc⟩
        · exact ⟨part, List.mem_cons_of_mem _ hpart, hc⟩

end Text

namespace SearchPattern

/-! ## Parameters -/

/-- What stands between the commas of some texts. -/
def pieces (texts : List String) : List (List Char) :=
  texts.flatMap fun text => (Text.splitAtChar ',' text.toList).map trimBlank

theorem pieces_cons (first : String) (rest : List String) :
    pieces (first :: rest) = (Text.splitAtChar ',' first.toList).map trimBlank ++ pieces rest :=
  rfl

/-- There is one piece more for each comma. -/
theorem length_pieces (texts : List String) :
    (pieces texts).length = texts.length + (texts.map fun text => text.toList.count ',').sum := by
  induction texts with
  | nil => rfl
  | cons first rest ih =>
    rw [pieces_cons, List.length_append, List.length_map, Text.length_splitAtChar, ih]
    simp only [List.length_cons, List.map_cons, List.sum_cons]
    omega

/-- Texts without commas and without blanks at their ends are their own pieces. -/
theorem pieces_eq_map {texts : List String}
    (h : ∀ text ∈ texts, ',' ∉ text.toList ∧ trimBlank text.toList = text.toList) :
    pieces texts = texts.map (·.toList) := by
  induction texts with
  | nil => rfl
  | cons first rest ih =>
    obtain ⟨⟨hcomma, htrim⟩, hrest⟩ := List.forall_mem_cons.1 h
    rw [pieces_cons, Text.splitAtChar_eq_singleton hcomma, ih hrest, List.map_cons, htrim]
    rfl

/-- **A list is cut** at the commas within its items as well as between them. -/
theorem map_trimBlank_splitAtChar {texts : List String} (hne : texts ≠ []) :
    (Text.splitAtChar ',' (", ".intercalate texts).toList).map trimBlank = pieces texts := by
  induction texts with
  | nil => exact absurd rfl hne
  | cons first rest ih =>
    rw [pieces_cons]
    by_cases hnil : rest = []
    · rw [hnil, String.intercalate_singleton]
      exact (List.append_nil _).symm
    · have hcs : (", ".intercalate (first :: rest)).toList =
          first.toList ++ ',' :: ' ' :: (", ".intercalate rest).toList := by
        rw [String.intercalate_cons_of_ne_nil hnil]
        simp [String.toList_append]
      have hblank : ∀ cs, (Text.splitAtChar ',' (' ' :: cs)).map trimBlank =
          (Text.splitAtChar ',' cs).map trimBlank := by
        intro cs
        rw [Text.splitAtChar, if_neg (by decide)]
        obtain ⟨part, parts, hparts⟩ :=
          List.exists_cons_of_ne_nil (Text.splitAtChar_ne_nil ',' cs)
        simp only [hparts, List.map_cons,
          trimBlank_cons_of_isBlank (show isBlank ' ' = true by rfl)]
      rw [hcs, Text.splitAtChar_append, List.map_append, hblank, ih hnil]

/-- A joined text starts with its first part. -/
theorem toList_intercalate_cons (between first : String) (rest : List String) :
    ∃ tail, (between.intercalate (first :: rest)).toList = first.toList ++ tail := by
  by_cases hnil : rest = []
  · exact ⟨[], by rw [hnil, String.intercalate_singleton, List.append_nil]⟩
  · refine ⟨between.toList ++ (between.intercalate rest).toList, ?_⟩
    rw [String.intercalate_cons_of_ne_nil hnil, String.toList_append, String.toList_append,
      List.append_assoc]

/-- **Parameters with commas between them** are read piece by piece, none of which may be blank. -/
theorem readParams?_intercalate {texts : List String}
    (h : ∀ text ∈ texts, trimBlank text.toList ≠ []) :
    readParams? (", ".intercalate texts).toList =
      if (pieces texts).any (·.isEmpty) then none
      else some ((pieces texts).map fun piece => Signature.erase (String.ofList piece)) := by
  by_cases hne : texts = []
  · subst hne
    rfl
  · have hparts := map_trimBlank_splitAtChar hne
    obtain ⟨first, rest, rfl⟩ := List.exists_cons_of_ne_nil hne
    have hnotBlank : (trimBlank (", ".intercalate (first :: rest)).toList).isEmpty = false := by
      rw [List.isEmpty_eq_false_iff, Ne, trimBlank_eq_nil_iff]
      intro hblank
      refine h first List.mem_cons_self (trimBlank_eq_nil_iff.2 fun c hc => hblank c ?_)
      obtain ⟨tail, htail⟩ := toList_intercalate_cons ", " first rest
      exact htail ▸ List.mem_append_left tail hc
    rw [readParams?, hnotBlank, if_neg Bool.false_ne_true, hparts]

/-- Texts that are pieces of their own are erased one by one. -/
theorem readParams?_of_plain {texts : List String}
    (h : ∀ text ∈ texts, ',' ∉ text.toList ∧ trimBlank text.toList = text.toList ∧ text ≠ "") :
    readParams? (", ".intercalate texts).toList = some (texts.map Signature.erase) := by
  have hne : ∀ text ∈ texts, text.toList ≠ [] := fun text htext hnil =>
    (h text htext).2.2 (by simpa using hnil)
  have hsome : (texts.map (·.toList)).any (·.isEmpty) = false := by
    simpa using fun text htext => (h text htext).2.2
  rw [readParams?_intercalate fun text htext => (h text htext).2.1.symm ▸ hne text htext,
    pieces_eq_map fun text htext => ⟨(h text htext).1, (h text htext).2.1⟩, hsome,
    if_neg Bool.false_ne_true]
  simp [Function.comp_def]

/-! ## Calls -/

/-- A dotted name with wildcards. -/
def IsPatternName (name : String) : Prop :=
  ∀ segment ∈ Text.splitAtChar '.' name.toList, isSegment segment = true

instance (name : String) : Decidable (IsPatternName name) :=
  inferInstanceAs (Decidable (∀ _ ∈ _, _))

/-- The pattern for methods with a dotted name and these parameters. -/
def ofMethodName (name : String) (params : List String) (limitTo : LimitTo)
    (caseSensitive : Bool) : SearchPattern :=
  let qualifier := if '.' ∈ name.toList then some (Text.qualifier name) else none
  ⟨.name .method (qualifier.map (⟨·, caseSensitive⟩)) ⟨Text.lastSegment name, caseSensitive⟩
    (some params), limitTo⟩

theorem ofMethodName_inj {name : String} {params params' : List String} {limitTo : LimitTo}
    {caseSensitive : Bool} :
    ofMethodName name params limitTo caseSensitive =
      ofMethodName name params' limitTo caseSensitive ↔ params = params' := by
  simp [ofMethodName]

/-- The characters of a segment are those of identifiers and wildcards. -/
theorem of_isSegment {segment : List Char} (h : isSegment segment = true) :
    ∀ c ∈ segment, isIdentContinue c = true ∨ isWildcard c = true := by
  cases segment with
  | nil => cases h
  | cons first rest =>
    simp only [isSegment, Bool.and_eq_true, Bool.or_eq_true, List.all_eq_true] at h
    refine List.forall_mem_cons.2 ⟨h.1.imp_left isIdentContinue_of_isIdentStart, h.2⟩

namespace IsPatternName

variable {name : String}

theorem ne_nil (h : IsPatternName name) : name.toList ≠ [] := by
  intro hnil
  have hempty := h [] (by rw [hnil]; exact List.mem_cons_self)
  cases hempty

/-- The characters of a name are dots and those of its segments. -/
theorem chars (h : IsPatternName name) :
    ∀ c ∈ name.toList, c = '.' ∨ isIdentContinue c = true ∨ isWildcard c = true := by
  intro c hc
  refine (Text.eq_or_mem_of_mem hc).imp_right ?_
  rintro ⟨segment, hsegment, hmem⟩
  exact of_isSegment (h segment hsegment) c hmem

theorem not_mem (h : IsPatternName name) {d : Char}
    (hd : d ≠ '.' ∧ isIdentContinue d = false ∧ isWildcard d = false) : d ∉ name.toList := by
  intro hmem
  rcases h.chars d hmem with rfl | hident | hwild
  · exact hd.1 rfl
  · rw [hd.2.1] at hident
    cases hident
  · rw [hd.2.2] at hwild
    cases hwild

theorem isBlank_eq_false (h : IsPatternName name) : ∀ c ∈ name.toList, isBlank c = false := by
  intro c hc
  rcases h.chars c hc with rfl | hident | hwild
  · rfl
  · exact isBlank_of_isIdentContinue hident
  · simp only [isWildcard, Bool.or_eq_true, beq_iff_eq] at hwild
    rcases hwild with rfl | rfl <;> rfl

end IsPatternName

/-- An identifier is a name without wildcards. -/
theorem isPatternName_of_isIdentifier {name : String} (h : IsIdentifier name) :
    IsPatternName name := by
  have hdot : '.' ∉ name.toList := h.isSimpleName.not_mem (by decide)
  obtain ⟨first, tail, hfirst, hstart⟩ := h.opens
  have hrest : ∀ c ∈ tail, isIdentContinue c = true := fun c hc =>
    h.goesOn c (hfirst ▸ List.mem_cons_of_mem _ hc)
  unfold IsPatternName
  rw [Text.splitAtChar_eq_singleton hdot, hfirst, List.forall_mem_singleton, isSegment, hstart,
    Bool.true_or, Bool.true_and, List.all_eq_true]
  exact fun c hc => by rw [hrest c hc, Bool.true_or]

/-- **A call is taken apart** at its first parenthesis. -/
theorem readCall?_call {path : List Char} (hpath : '(' ∉ path) (inner : List Char) :
    readCall? .method (path ++ '(' :: (inner ++ [')'])) =
      (readParams? inner).map fun params => (path, some params) := by
  have hstop : ∀ c ∈ path, (c != '(') = true := fun c hc => by
    simpa using fun heq : c = '(' => hpath (heq ▸ hc)
  rw [readCall?, if_pos ⟨rfl, by simp⟩, List.dropWhile_append_of_pos hstop,
    List.takeWhile_append_of_pos hstop]
  simp only [bne_self_eq_false, Bool.false_eq_true, not_false_eq_true, List.dropWhile_cons_of_neg,
    List.takeWhile_cons_of_neg, List.drop_succ_cons, List.drop_zero, List.append_nil,
    Text.dropEnding?_append, Option.bind_eq_bind, Option.bind_some]
  cases readParams? inner <;> rfl

/-- **The text of a call is a pattern** for methods of its name if its parameters can be read. -/
theorem ofString_parenthesized {name : String} (hname : IsPatternName name) (inner : String)
    (limitTo : LimitTo) (caseSensitive : Bool) :
    ofString (name ++ "(" ++ inner ++ ")") .method limitTo caseSensitive =
      match readParams? inner.toList with
      | none => .error (.invalidPattern (name ++ "(" ++ inner ++ ")"))
      | some params => .ok (ofMethodName name params limitTo caseSensitive) := by
  have hcs : (name ++ "(" ++ inner ++ ")").toList =
      name.toList ++ '(' :: (inner.toList ++ [')']) := by
    simp [String.toList_append]
  have htrim : trimBlank (name ++ "(" ++ inner ++ ")").toList =
      (name ++ "(" ++ inner ++ ")").toList := by
    obtain ⟨first, tail, hfirst⟩ := List.exists_cons_of_ne_nil hname.ne_nil
    rw [hcs]
    refine trimBlank_eq_self ?_ ?_
    · intro c hc
      rw [hfirst, List.cons_append, List.head?_cons, Option.mem_some_iff] at hc
      exact hname.isBlank_eq_false c (hfirst ▸ hc ▸ List.mem_cons_self)
    · intro c hc
      rw [← List.cons_append, ← List.append_assoc, List.getLast?_concat, Option.mem_some_iff] at hc
      exact hc ▸ rfl
  have hsegments : (Text.splitAtChar '.' name.toList).all isSegment = true :=
    List.all_eq_true.2 hname
  rw [ofString, htrim, String.ofList_toList, hcs, readCall?_call (hname.not_mem (by decide))]
  cases readParams? inner.toList with
  | none => rfl
  | some params =>
    simp only [Option.map_some, hsegments, if_true]
    rfl

/-- A call whose parameters hold no commas is a pattern with these parameters. -/
theorem ofString_call {name : String} (hname : IsIdentifier name) {params : List String}
    (h : ∀ p ∈ params, ',' ∉ p.toList ∧ trimBlank p.toList = p.toList ∧ p ≠ "")
    (limitTo : LimitTo) (caseSensitive : Bool) :
    ofString (name ++ "(" ++ ", ".intercalate params ++ ")") .method limitTo caseSensitive =
      .ok ⟨.name .method none ⟨name, caseSensitive⟩ (some (params.map Signature.erase)),
        limitTo⟩ := by
  have hdot : '.' ∉ name.toList := hname.isSimpleName.not_mem (by decide)
  rw [ofString_parenthesized (isPatternName_of_isIdentifier hname), readParams?_of_plain h]
  simp [ofMethodName, hdot, Text.lastSegment_eq_self hdot]

end SearchPattern

/-! ## Types in source form -/

/-- A segment of a dotted name, with type arguments between angle brackets behind it or none. -/
structure NamePart where
  name : String
  arguments : Option String
  isSimpleName : IsSimpleName name

/-- The text of a segment. -/
def NamePart.text (part : NamePart) : String :=
  match part.arguments with
  | none => part.name
  | some arguments => part.name ++ "<" ++ arguments ++ ">"

/-- A type in source form: a dotted name, array brackets and the dots of varargs. -/
structure WrittenType where
  first : NamePart
  others : List NamePart
  dims : Nat
  isVarargs : Bool

/-- The text of a type. -/
def WrittenType.text (type : WrittenType) : String :=
  ".".intercalate ((type.first :: type.others).map (·.text)) ++ TypeRef.brackets type.dims ++
    if type.isVarargs then "..." else ""

namespace NamePart

/-- A segment starts with a character of its name. -/
theorem exists_toList (part : NamePart) :
    ∃ c tail, part.text.toList = c :: tail ∧ isIdentContinue c = true := by
  have hne : part.name.toList ≠ [] := fun hnil => part.isSimpleName.ne_empty (by simpa using hnil)
  obtain ⟨c, tail, hname⟩ := List.exists_cons_of_ne_nil hne
  have hc := part.isSimpleName.chars c (hname ▸ List.mem_cons_self)
  unfold text
  cases part.arguments with
  | none => exact ⟨c, tail, hname, hc⟩
  | some arguments =>
    exact ⟨c, tail ++ '<' :: arguments.toList ++ ['>'], by simp [String.toList_append, hname], hc⟩

/-- A segment ends with a character of its name or with an angle bracket. -/
theorem isBlank_last (part : NamePart) : ∀ c ∈ part.text.toList.getLast?, isBlank c = false := by
  intro c hc
  unfold text at hc
  cases harguments : part.arguments with
  | none =>
    rw [harguments] at hc
    exact isBlank_of_isIdentContinue (part.isSimpleName.chars c (List.mem_of_mem_getLast? hc))
  | some arguments =>
    rw [harguments] at hc
    simp only [String.toList_append] at hc
    obtain rfl : '>' = c := Option.some_inj.1 ((List.getLast?_concat ..).symm.trans hc)
    rfl

end NamePart

namespace WrittenType

/-- The segments do not end with a blank. -/
theorem isBlank_last_intercalate (parts : List NamePart) :
    ∀ c ∈ (".".intercalate (parts.map (·.text))).toList.getLast?, isBlank c = false := by
  induction parts with
  | nil => exact fun c hc => by cases hc
  | cons first rest ih =>
    intro c hc
    by_cases hnil : rest.map (·.text) = []
    · rw [List.map_cons, hnil, String.intercalate_singleton] at hc
      exact first.isBlank_last c hc
    · rw [List.map_cons, String.intercalate_cons_of_ne_nil hnil, String.toList_append,
        String.toList_append] at hc
      rcases Text.mem_getLast?_append hc with hc | hc
      · rcases Text.mem_getLast?_append hc with hc | hc
        · exact first.isBlank_last c hc
        · obtain rfl : '.' = c := by simpa using hc
          rfl
      · exact ih c hc

/-- A type starts with a character of its name. -/
theorem exists_toList (type : WrittenType) :
    ∃ c tail, type.text.toList = c :: tail ∧ isIdentContinue c = true := by
  obtain ⟨c, tail, hfirst, hc⟩ := type.first.exists_toList
  obtain ⟨rest, hrest⟩ :=
    SearchPattern.toList_intercalate_cons "." type.first.text (type.others.map (·.text))
  refine ⟨c, tail ++ rest ++ (TypeRef.brackets type.dims).toList ++
    (if type.isVarargs then "..." else "").toList, ?_, hc⟩
  rw [text, String.toList_append, String.toList_append, List.map_cons, hrest, hfirst]
  simp

theorem text_ne_empty (type : WrittenType) : type.text ≠ "" := by
  obtain ⟨c, tail, htext, -⟩ := type.exists_toList
  rintro hempty
  rw [hempty] at htext
  cases htext

/-- **Nothing is trimmed off a type.** -/
theorem trimBlank_text (type : WrittenType) : trimBlank type.text.toList = type.text.toList := by
  refine trimBlank_eq_self ?_ ?_
  · obtain ⟨first, tail, htext, hfirst⟩ := type.exists_toList
    rw [htext]
    rintro c ⟨⟩
    exact isBlank_of_isIdentContinue hfirst
  · intro c hc
    rw [text, String.toList_append, String.toList_append] at hc
    rcases Text.mem_getLast?_append hc with hc | hc
    · rcases Text.mem_getLast?_append hc with hc | hc
      · exact isBlank_last_intercalate _ c hc
      · rw [TypeRef.toList_brackets] at hc
        rcases TypeRef.mem_bracketChars (List.mem_of_mem_getLast? hc) with rfl | rfl <;> rfl
    · cases hvarargs : type.isVarargs with
      | false =>
        rw [hvarargs] at hc
        cases hc
      | true =>
        rw [hvarargs] at hc
        obtain rfl : '.' = c := by simpa using hc
        rfl

end WrittenType

namespace SearchPattern

/-- The text of a call with these parameter types. -/
def writtenCall (name : String) (types : List WrittenType) : String :=
  name ++ "(" ++ ", ".intercalate (types.map (·.text)) ++ ")"

/-- **A written call** that is read has one parameter more for each comma within its types. -/
theorem length_of_ofString_writtenCall {name : String} (hname : IsPatternName name)
    {types : List WrittenType} {limitTo : LimitTo} {caseSensitive : Bool}
    {pattern : SearchPattern}
    (h : ofString (writtenCall name types) .method limitTo caseSensitive = .ok pattern) :
    ∃ params, pattern = ofMethodName name params limitTo caseSensitive ∧
      params.length = types.length + (types.map (·.text.toList.count ',')).sum := by
  have hnotBlank : ∀ text ∈ types.map (·.text), trimBlank text.toList ≠ [] := by
    intro text htext
    obtain ⟨type, -, rfl⟩ := List.mem_map.1 htext
    rw [type.trimBlank_text]
    simpa using type.text_ne_empty
  rw [writtenCall, ofString_parenthesized hname, readParams?_intercalate hnotBlank] at h
  by_cases hblank : (pieces (types.map (·.text))).any (·.isEmpty) = true
  · rw [if_pos hblank] at h
    cases h
  · rw [if_neg hblank] at h
    cases h
    refine ⟨_, rfl, ?_⟩
    rw [List.length_map, length_pieces, List.length_map, List.map_map]
    rfl

/-- **A written call has the parameter types** that its types are erased to iff there is no comma
within these. In any case the pattern, if the call is one, has one parameter more for each comma. -/
theorem ofString_writtenCall_iff {name : String} (hname : IsPatternName name)
    (types : List WrittenType) (limitTo : LimitTo) (caseSensitive : Bool) :
    (ofString (writtenCall name types) .method limitTo caseSensitive =
        .ok (ofMethodName name (types.map fun type => Signature.erase type.text) limitTo
          caseSensitive) ↔
      ∀ type ∈ types, ',' ∉ type.text.toList) ∧
    ∀ pattern, ofString (writtenCall name types) .method limitTo caseSensitive = .ok pattern →
      ∃ params, pattern = ofMethodName name params limitTo caseSensitive ∧
        params.length = types.length + (types.map (·.text.toList.count ',')).sum := by
  refine ⟨⟨fun h type htype hcomma => ?_, fun h => ?_⟩,
    fun pattern => length_of_ofString_writtenCall hname⟩
  · obtain ⟨params, hpattern, hlength⟩ := length_of_ofString_writtenCall hname h
    rw [← ofMethodName_inj.1 hpattern, List.length_map] at hlength
    have hpos : 0 < type.text.toList.count ',' := List.count_pos_iff.2 hcomma
    have hle : type.text.toList.count ',' ≤ (types.map (·.text.toList.count ',')).sum :=
      List.le_sum_of_mem (List.mem_map_of_mem htype)
    omega
  · have hplain : ∀ text ∈ types.map (·.text),
        ',' ∉ text.toList ∧ trimBlank text.toList = text.toList ∧ text ≠ "" := by
      intro text htext
      obtain ⟨type, htype, rfl⟩ := List.mem_map.1 htext
      exact ⟨h type htype, type.trimBlank_text, type.text_ne_empty⟩
    rw [writtenCall, ofString_parenthesized hname, readParams?_of_plain hplain, List.map_map,
      Function.comp_def]

/-- `Map<K,V>`, a type with two type arguments. -/
def mapType : WrittenType where
  first := ⟨"Map", some "K,V", ⟨by decide, List.all_eq_true.1 (by decide)⟩⟩
  others := []
  dims := 0
  isVarargs := false

/-- `Map<K,V>` is cut into `Map<K` and `V>`. -/
theorem ofString_cuts_typeArguments :
    writtenCall "foo" [mapType] = "foo(Map<K,V>)" ∧ Signature.erase mapType.text = "Map" ∧
      ofString "foo(Map<K,V>)" .method .references true ≠
        .ok (ofMethodName "foo" ["Map"] .references true) ∧
      ∀ pattern, ofString "foo(Map<K,V>)" .method .references true = .ok pattern →
        ∃ params, pattern = ofMethodName "foo" params .references true ∧ params.length = 2 := by
  have hcall : writtenCall "foo" [mapType] = "foo(Map<K,V>)" := by decide +kernel
  have herase : Signature.erase mapType.text = "Map" := by decide +kernel
  have hlength : [mapType].length + ([mapType].map (·.text.toList.count ',')).sum = 2 := by
    decide +kernel
  have hname : IsPatternName "foo" := by decide +kernel
  have h := ofString_writtenCall_iff hname [mapType] .references true
  rw [hcall, hlength, List.map_cons, herase] at h
  exact ⟨hcall, herase, fun hok => h.1.1 hok mapType List.mem_cons_self (by decide +kernel), h.2⟩

end SearchPattern

end SourceSearch
