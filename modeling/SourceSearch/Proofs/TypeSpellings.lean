import SourceSearch.Proofs.AngleBrackets
import SourceSearch.Proofs.ErasedSignatures
import SourceSearch.Proofs.SpelledTypes

/-!
# Spellings of a class type

A class type is written with a dotted name, type arguments or none, pairs of brackets, and the three
points of a parameter that takes any number of arguments (`ClassSpelling`). As the type of a
parameter it is recorded by its simple name with one array dimension for each pair of brackets and
one for the points (`ClassSpelling.exists_param`), and a descriptor is erased to just that
(`ClassSpelling.erase_descriptor`).

The source form is not always. Brackets are taken off its end before the points are, so that those
before the points are left with the name, which is cut at its type arguments
(`ClassSpelling.erase_source`).
-/

set_option autoImplicit false

namespace SourceSearch

variable {cs after rest : List Char} {ss : List Stretch}

/-! ## Dotted names -/

/-- The characters of names with a point before each. -/
def dottedChars (names : List String) : List Char := names.flatMap fun name => '.' :: name.toList

theorem toList_dottedName (first : String) (others : List String) :
    (".".intercalate (first :: others)).toList = first.toList ++ dottedChars others := by
  induction others generalizing first with
  | nil => rw [String.intercalate_singleton, dottedChars, List.flatMap_nil, List.append_nil]
  | cons second others ih =>
    rw [String.intercalate_cons_of_ne_nil (List.cons_ne_nil _ _), String.toList_append,
      String.toList_append, ih, List.append_assoc]
    rfl

/-- A class type as it can be written: names, none of which has a dollar sign and which are no code
of a primitive type, what stands between angle brackets behind the last one or nothing, pairs of
brackets, and three points or none. -/
structure ClassSpelling where
  first : String
  others : List String
  arguments : Option String
  dims : Nat
  isVarargs : Bool
  isIdentifier : ∀ name ∈ first :: others, IsIdentifier name
  noDollar : ∀ name ∈ first :: others, '$' ∉ name.toList
  noCode : Signature.descriptorPrimitive? (".".intercalate (first :: others)).toList = none

namespace ClassSpelling

variable (t : ClassSpelling)

/-- The dotted name. -/
def name : String := ".".intercalate (t.first :: t.others)

/-- The last of the names. -/
def simpleName : String := (t.first :: t.others).getLast (List.cons_ne_nil _ _)

/-- The type arguments. -/
def argumentText : String :=
  match t.arguments with
  | none => ""
  | some inner => "<" ++ inner ++ ">"

/-- The dimensions, the one that three points stand for among them. -/
def allDims : Nat := t.dims + t.isVarargs.toNat

/-- The type in source form. -/
def source : String :=
  t.name ++ t.argumentText ++ TypeRef.brackets t.dims ++ if t.isVarargs then "..." else ""

/-- The type as a descriptor that starts with this letter. -/
def descriptor (mark : Char) : String :=
  String.ofList (List.replicate t.allDims '[' ++ [mark]) ++ t.name ++ t.argumentText ++ ";"

/-- The simple name with all dimensions. -/
def canonical : String := t.simpleName ++ TypeRef.brackets t.allDims

/-! ## Characters -/

/-- The characters of the type arguments. -/
def argumentChars : List Char :=
  match t.arguments with
  | none => []
  | some inner => '<' :: (inner.toList ++ ['>'])

theorem toList_argumentText : t.argumentText.toList = t.argumentChars := by
  unfold argumentText argumentChars
  cases t.arguments with
  | none => rfl
  | some inner => simp [String.toList_append]

/-- The characters of three points, or none. -/
def pointChars (isVarargs : Bool) : List Char := if isVarargs then ['.', '.', '.'] else []

/-- The name with the type arguments. -/
def namedChars : List Char := t.name.toList ++ t.argumentChars

theorem toList_source : t.source.toList =
    t.namedChars ++ TypeRef.bracketChars t.dims ++ pointChars t.isVarargs := by
  rw [source, String.toList_append, String.toList_append, String.toList_append,
    toList_argumentText, TypeRef.toList_brackets]
  congr 1
  cases t.isVarargs <;> rfl

theorem toList_descriptor (mark : Char) : (t.descriptor mark).toList =
    List.replicate t.allDims '[' ++ mark :: (t.namedChars ++ [';']) := by
  simp [descriptor, namedChars, String.toList_append, toList_argumentText]

theorem toList_name : t.name.toList = t.first.toList ++ dottedChars t.others :=
  toList_dottedName t.first t.others

theorem isIdentifier_simpleName : IsIdentifier t.simpleName :=
  t.isIdentifier _ (List.getLast_mem _)

/-- The name starts with a character of an identifier. -/
theorem exists_toList_name : ∃ c cs, t.name.toList = c :: cs ∧ isIdentStart c = true := by
  obtain ⟨c, cs, hfirst, hstart⟩ := (t.isIdentifier t.first List.mem_cons_self).opens
  exact ⟨c, cs ++ dottedChars t.others, by rw [toList_name, hfirst]; rfl, hstart⟩

theorem name_ne_nil : t.name.toList ≠ [] := by
  obtain ⟨c, cs, hname, -⟩ := t.exists_toList_name
  rw [hname]
  exact List.cons_ne_nil c cs

/-- The characters of the name are points and those of identifiers. -/
theorem mem_name {c : Char} (h : c ∈ t.name.toList) : c = '.' ∨ isIdentContinue c = true := by
  rw [toList_name, List.mem_append] at h
  rcases h with h | h
  · exact .inr ((t.isIdentifier t.first List.mem_cons_self).goesOn c h)
  · obtain ⟨other, hother, hc⟩ := List.mem_flatMap.1 h
    exact (List.mem_cons.1 hc).imp_right
      ((t.isIdentifier other (List.mem_cons_of_mem _ hother)).goesOn c)

theorem lt_notMem_name : '<' ∉ t.name.toList := by
  intro h
  rcases t.mem_name h with h | h
  · cases h
  · cases h

/-- The name ends with the last of the names, before which nothing stands or a point. -/
theorem exists_toList_name_eq : ∃ before, t.name.toList = before ++ t.simpleName.toList ∧
    (before = [] ∨ ∃ outer, before = outer ++ ['.']) := by
  rw [toList_name]
  rcases t.others.eq_nil_or_concat with hnil | ⟨outer, last, hlast⟩
  · refine ⟨[], ?_, .inl rfl⟩
    simp [simpleName, dottedChars, hnil]
  · refine ⟨t.first.toList ++ dottedChars outer ++ ['.'], ?_, .inr ⟨_, rfl⟩⟩
    simp [simpleName, dottedChars, hlast]

/-- The name with the type arguments ends with a character of an identifier or an angle bracket. -/
theorem last_namedChars :
    ∀ c ∈ t.namedChars.getLast?, isIdentContinue c = true ∨ c = '>' := by
  intro c hc
  unfold namedChars argumentChars at hc
  cases harguments : t.arguments with
  | none =>
    rw [harguments, List.append_nil] at hc
    obtain ⟨before, hname, -⟩ := t.exists_toList_name_eq
    have hne : t.simpleName.toList ≠ [] := by
      simpa using t.isIdentifier_simpleName.ne_empty
    rw [hname, List.getLast?_append_of_ne_nil _ hne] at hc
    exact .inl (t.isIdentifier_simpleName.goesOn c (List.mem_of_getLast? hc))
  | some inner =>
    rw [harguments] at hc
    dsimp only at hc
    rw [← List.cons_append, ← List.append_assoc, List.getLast?_concat] at hc
    exact .inr (Option.some.inj hc).symm

theorem last_namedChars_ne {d : Char} (hd : isIdentContinue d = false ∧ d ≠ '>') :
    t.namedChars.getLast? ≠ some d := by
  intro hlast
  rcases t.last_namedChars d hlast with hident | rfl
  · rw [hd.1] at hident
    cases hident
  · exact hd.2 rfl

/-- The source form ends with none but these characters. -/
theorem last_source : ∀ c ∈ t.source.toList.getLast?,
    isIdentContinue c = true ∨ c ∈ ['>', '[', ']', '.'] := by
  intro c hc
  rw [toList_source] at hc
  rcases Text.mem_getLast?_append hc with hc | hc
  · rcases Text.mem_getLast?_append hc with hc | hc
    · exact (t.last_namedChars c hc).imp_right fun heq => by simp [heq]
    · rcases TypeRef.mem_bracketChars (List.mem_of_getLast? hc) with rfl | rfl <;> simp
  · cases hvarargs : t.isVarargs with
    | false =>
      rw [hvarargs] at hc
      cases hc
    | true =>
      rw [hvarargs] at hc
      obtain rfl : '.' = c := Option.some.inj hc
      simp

/-- The source form starts with a character of an identifier. -/
theorem exists_toList_source :
    ∃ c cs, t.source.toList = c :: cs ∧ isIdentStart c = true := by
  obtain ⟨c, cs, hname, hstart⟩ := t.exists_toList_name
  rw [toList_source, namedChars, hname]
  exact ⟨c, _, rfl, hstart⟩

/-- Nothing is trimmed off the source form. -/
theorem trimBlank_source : trimBlank t.source.toList = t.source.toList := by
  refine trimBlank_eq_self ?_ fun c hc => ?_
  · obtain ⟨c, cs, hsource, hstart⟩ := t.exists_toList_source
    rw [hsource]
    rintro _ ⟨⟩
    exact isBlank_of_isIdentContinue (isIdentContinue_of_isIdentStart hstart)
  · rcases t.last_source c hc with hident | hmem
    · exact isBlank_of_isIdentContinue hident
    · simp only [List.mem_cons, List.not_mem_nil, or_false] at hmem
      rcases hmem with rfl | rfl | rfl | rfl <;> rfl

/-! ## What is erased -/

/-- What stands behind an angle bracket is no part of a simple name. -/
theorem simpleName_append_arguments {arguments : List Char} (hcs : '<' ∉ cs)
    (harguments : ∀ c ∈ arguments.head?, c = '<') :
    Signature.simpleName (cs ++ arguments) = Signature.simpleName cs := by
  have hnone : arguments.takeWhile (· != '<') = [] := by
    cases arguments with
    | nil => rfl
    | cons c cs => rw [List.takeWhile_cons_of_neg (by simp [harguments c rfl])]
  have hall : cs.takeWhile (· != '<') = cs := by
    refine List.takeWhile_eq_self_iff.2 fun c hc => ?_
    simpa using fun heq : c = '<' => hcs (heq ▸ hc)
  rw [Signature.simpleName, Signature.simpleName, List.takeWhile_append, hall, if_pos rfl, hnone,
    List.append_nil]

/-- Brackets that are left with a name stay behind its last part. -/
theorem simpleName_name_append (dims : Nat) :
    Signature.simpleName (t.name.toList ++ TypeRef.bracketChars dims) =
      t.simpleName.toList ++ TypeRef.bracketChars dims := by
  have hnot : '<' ∉ t.name.toList ++ TypeRef.bracketChars dims := by
    intro h
    rcases List.mem_append.1 h with h | h
    · exact t.lt_notMem_name h
    · rcases TypeRef.mem_bracketChars h with h | h <;> cases h
  have hall : ∀ c ∈ t.simpleName.toList ++ TypeRef.bracketChars dims,
      (c == '.' || c == '/' || c == '$') = false := by
    intro c hc
    rcases List.mem_append.1 hc with hc | hc
    · have hident := t.isIdentifier_simpleName.goesOn c hc
      have hdollar : c ≠ '$' := by
        rintro rfl
        exact t.noDollar _ (List.getLast_mem _) hc
      simp [hdollar, ne_of_isIdentContinue hident (show isIdentContinue '.' = false by decide),
        ne_of_isIdentContinue hident (show isIdentContinue '/' = false by decide)]
    · rcases TypeRef.mem_bracketChars hc with rfl | rfl <;> rfl
  rw [Signature.simpleName, List.takeWhile_eq_self_iff.2]
  · obtain ⟨before, hname, rfl | ⟨outer, rfl⟩⟩ := t.exists_toList_name_eq
    · rw [hname, List.nil_append, Text.afterLast_eq_self hall]
    · rw [hname, List.append_assoc, List.append_assoc, List.singleton_append,
        Text.afterLast_append_sep rfl, Text.afterLast_eq_self hall]
  · intro c hc
    simpa using fun heq : c = '<' => hnot (heq ▸ hc)

/-- Brackets that are left with a name that has type arguments are no part of it. -/
theorem simpleName_namedChars_append (dims : Nat) :
    Signature.simpleName (t.namedChars ++ TypeRef.bracketChars dims) =
      t.simpleName.toList ++ TypeRef.bracketChars (if t.arguments.isSome then 0 else dims) := by
  have hname := t.simpleName_name_append 0
  rw [TypeRef.bracketChars_zero, List.append_nil, List.append_nil] at hname
  unfold namedChars argumentChars
  cases t.arguments with
  | none =>
    rw [List.append_nil, t.simpleName_name_append]
    rfl
  | some inner =>
    have hbehind : ∀ c ∈ ('<' :: (inner.toList ++ ['>']) ++ TypeRef.bracketChars dims).head?,
        c = '<' := by
      rintro _ ⟨⟩
      rfl
    dsimp only
    rw [List.append_assoc, simpleName_append_arguments t.lt_notMem_name hbehind, hname,
      Option.isSome_some, if_pos rfl, TypeRef.bracketChars_zero, List.append_nil]

theorem toList_canonical :
    t.canonical.toList = t.simpleName.toList ++ TypeRef.bracketChars t.allDims := by
  rw [canonical, String.toList_append, TypeRef.toList_brackets]

/-- **A descriptor** is erased to the simple name with all dimensions. -/
theorem erase_descriptor {mark : Char} (hmark : mark ∈ ['Q', 'L', 'T']) :
    Signature.erase (t.descriptor mark) = t.canonical := by
  have hne : t.namedChars ≠ [] := fun hnil => t.name_ne_nil (List.append_eq_nil_iff.1 hnil).1
  have hname := t.simpleName_namedChars_append 0
  rw [ite_self, TypeRef.bracketChars_zero, List.append_nil, List.append_nil] at hname
  rw [Signature.erase_of_descriptor hmark hne (t.toList_descriptor mark), hname,
    ← toList_canonical, String.ofList_toList]

/-- The source form is no code of a primitive type. -/
theorem descriptorPrimitive?_source :
    Signature.descriptorPrimitive? t.source.toList = none := by
  rw [toList_source, namedChars, List.append_assoc, List.append_assoc]
  by_cases hrest : t.argumentChars ++ (TypeRef.bracketChars t.dims ++ pointChars t.isVarargs) = []
  · rw [hrest, List.append_nil]
    exact t.noCode
  · exact Signature.descriptorPrimitive?_append t.name_ne_nil hrest

/-- **Brackets before points are left with the name.** -/
theorem sourceForm_source : Signature.sourceForm t.source.toList =
    if t.isVarargs then (t.namedChars ++ TypeRef.bracketChars t.dims, 1)
    else (t.namedChars, t.dims) := by
  rw [toList_source]
  cases t.isVarargs with
  | false =>
    rw [pointChars, if_neg Bool.false_ne_true, List.append_nil,
      Signature.sourceForm_append (t.last_namedChars_ne (by decide))
        (t.last_namedChars_ne (by decide)), if_neg Bool.false_ne_true]
  | true =>
    have hlast : ∀ cs : List Char, (cs ++ ['.', '.', '.']).getLast? ≠ some ']' := by
      intro cs
      rw [List.getLast?_append]
      simp
    have hnone := Signature.dropBrackets_append
      (hlast (t.namedChars ++ TypeRef.bracketChars t.dims))
      (Nat.zero_le (t.namedChars ++ TypeRef.bracketChars t.dims ++ ['.', '.', '.']).length)
    rw [TypeRef.bracketChars_zero, List.append_nil] at hnone
    rw [pointChars, if_pos rfl, if_pos rfl, Signature.sourceForm, hnone]
    simp only [Text.dropEnding?_append]

/-- **The source form is erased** to the simple name. Where it has type arguments and points, only
the points count. -/
theorem erase_source : Signature.erase t.source = t.simpleName ++
    TypeRef.brackets (if t.arguments.isSome ∧ t.isVarargs then 1 else t.allDims) := by
  have hhead : t.source.toList.head? ≠ some '[' := by
    obtain ⟨c, cs, hsource, hstart⟩ := t.exists_toList_source
    rw [hsource]
    rintro ⟨⟩
    cases hstart
  have hlast : t.source.toList.getLast? ≠ some ';' := by
    intro hlast
    rcases t.last_source ';' hlast with hident | hmem
    · cases hident
    · simp at hmem
  have hname := t.simpleName_namedChars_append 0
  rw [ite_self, TypeRef.bracketChars_zero, List.append_nil, List.append_nil] at hname
  rw [Signature.erase_of_not_descriptor t.trimBlank_source hhead hlast,
    t.descriptorPrimitive?_source, t.sourceForm_source, ← String.toList_inj, String.toList_append,
    TypeRef.toList_brackets, allDims, String.toList_ofList]
  cases t.isVarargs with
  | false => simp [hname]
  | true =>
    rw [if_pos rfl, t.simpleName_namedChars_append]
    cases t.arguments with
    | none => simp [TypeRef.bracketChars_succ]
    | some inner => simp

/-- **The source form is erased to the recorded name** unless it has type arguments, brackets and
points at once. -/
theorem erase_source_eq_canonical_iff : Signature.erase t.source = t.canonical ↔
    ¬ (t.arguments.isSome ∧ t.isVarargs ∧ 0 < t.dims) := by
  have hbrackets : ∀ dims dims' : Nat, t.simpleName ++ TypeRef.brackets dims =
      t.simpleName ++ TypeRef.brackets dims' ↔ dims = dims' := by
    refine fun dims dims' => ⟨fun heq => ?_, fun heq => heq ▸ rfl⟩
    have hlength := congrArg (·.toList.length) heq
    simp only [String.toList_append, TypeRef.toList_brackets, List.length_append,
      TypeRef.length_bracketChars] at hlength
    omega
  rw [erase_source, canonical, hbrackets]
  cases harguments : t.arguments.isSome with
  | false => simp
  | true =>
    cases hvarargs : t.isVarargs with
    | false => simp
    | true =>
      simp only [allDims, hvarargs]
      simp

end ClassSpelling

/-! ## Stretches -/

/-- The spelling of a stretch that is a token. -/
def Stretch.spelling? : Stretch → Option (TokenKind × String)
  | ⟨.gap, _⟩ => none
  | ⟨.token kind, chars⟩ => some (kind, String.ofList chars)

/-- The spellings of the tokens among stretches. -/
def spellingsOf (stretches : List Stretch) : List (TokenKind × String) :=
  stretches.filterMap (·.spelling?)

theorem spellingsOf_append (ss ss' : List Stretch) :
    spellingsOf (ss ++ ss') = spellingsOf ss ++ spellingsOf ss' :=
  List.filterMap_append

theorem spellingsOf_identifier (name : String) (ss : List Stretch) :
    spellingsOf (⟨.token .ident, name.toList⟩ :: ss) = (.ident, name) :: spellingsOf ss := by
  show (TokenKind.ident, String.ofList name.toList) :: spellingsOf ss = _
  rw [String.ofList_toList]

theorem map_spelling_tokensFrom (offset : Nat) (ss : List Stretch) :
    (tokensFrom offset ss).map (·.spelling) = spellingsOf ss := by
  induction ss generalizing offset with
  | nil => rfl
  | cons s ss ih =>
    obtain ⟨_ | kind, chars⟩ := s
    · exact ih _
    · exact congrArg ((kind, String.ofList chars) :: ·) (ih _)

/-- A text whose stretches leave no character has their tokens. -/
theorem ReadsInto.exists_tokenize_eq {text : String} (h : ReadsInto text.toList ss []) :
    ∃ tokens, tokenize text = .ok tokens ∧ tokens.map (·.spelling) = spellingsOf ss := by
  refine ⟨tokensFrom 0 ss, ?_, map_spelling_tokensFrom 0 ss⟩
  have hread : ReadsInto (text.toList.drop 0) ss [] := h
  rw [tokenize, hread.tokenizeFrom_eq, if_pos rfl]
  rfl

/-- The stretches of names with a point before each. -/
def dottedStretches (names : List String) : List Stretch :=
  names.flatMap fun name => [Symbol.dot.stretch, ⟨.token .ident, name.toList⟩]

/-- The stretches of pairs of brackets. -/
def bracketStretches (dims : Nat) : List Stretch :=
  (List.replicate dims [Symbol.lBracket.stretch, Symbol.rBracket.stretch]).flatten

/-- The stretches of three points, or none. -/
def pointStretches (isVarargs : Bool) : List Stretch :=
  if isVarargs then [Symbol.ellipsis.stretch] else []

theorem spellingsOf_dottedStretches (names : List String) :
    spellingsOf (dottedStretches names) = Parser.dottedTokens names := by
  induction names with
  | nil => rfl
  | cons name names ih =>
    show Symbol.dot.token :: spellingsOf (⟨.token .ident, name.toList⟩ :: dottedStretches names) = _
    rw [spellingsOf_identifier, ih]
    rfl

theorem spellingsOf_bracketStretches (dims : Nat) :
    spellingsOf (bracketStretches dims) = Parser.bracketTokens dims := by
  induction dims with
  | zero => rfl
  | succ dims ih =>
    exact congrArg (Symbol.lBracket.token :: Symbol.rBracket.token :: ·) ih

theorem spellingsOf_pointStretches (isVarargs : Bool) :
    spellingsOf (pointStretches isVarargs) = Parser.pointTokens isVarargs := by
  cases isVarargs <;> rfl

namespace ReadsInto

/-- **An identifier is read** as a token unless it breaks. -/
theorem identifier_append {name : String} (hname : IsIdentifier name)
    (hwhole : ∀ word, ¬ BreaksBehind word name.toList)
    (hafter : ∀ c ∈ after.head?, isIdentContinue c = false) (h : ReadsInto after ss rest) :
    ReadsInto (name.toList ++ after) (⟨.token .ident, name.toList⟩ :: ss) rest := by
  have hkind : runKind name.toList = .ident := by
    rw [runKind, String.ofList_toList, hname.not_reserved]
    rfl
  have hrun : IsIdentifierRun [] name.toList after :=
    ⟨hname.opens, hname.goesOn, by rintro _ ⟨⟩, hafter⟩
  rw [← hkind]
  exact h.run_append hrun hwhole

theorem head_dottedChars_append {names : List String}
    (hafter : ∀ c ∈ after.head?, isIdentContinue c = false) :
    ∀ c ∈ (dottedChars names ++ after).head?, isIdentContinue c = false := by
  cases names with
  | nil => exact hafter
  | cons name names =>
    rintro _ ⟨⟩
    rfl

/-- **Points and identifiers** are read by turns. -/
theorem dotted_append {names : List String} (hnames : ∀ name ∈ names, IsIdentifier name)
    (hwhole : ∀ name ∈ names, ∀ word, ¬ BreaksBehind word name.toList)
    (hafter : ∀ c ∈ after.head?, isIdentContinue c = false) (h : ReadsInto after ss rest) :
    ReadsInto (dottedChars names ++ after) (dottedStretches names ++ ss) rest := by
  induction names with
  | nil => exact h
  | cons name names ih =>
    obtain ⟨hname, hnames⟩ := List.forall_mem_cons.1 hnames
    obtain ⟨hwholeName, hwhole⟩ := List.forall_mem_cons.1 hwhole
    have hread := identifier_append hname hwholeName (head_dottedChars_append hafter)
      (ih hnames hwhole)
    have hdot : Lexeme.read '.' (name.toList ++ (dottedChars names ++ after)) =
        some (.token Symbol.dot, 0) := by
      refine Lexeme.read_dot ?_
      obtain ⟨c, cs, hcs, hstart⟩ := hname.opens
      rw [hcs]
      rintro ⟨⟩
      cases hstart
    have hchars : dottedChars (name :: names) ++ after =
        '.' :: (name.toList ++ (dottedChars names ++ after)) := by
      simp [dottedChars]
    rw [hchars]
    exact symbol_append .dot '.' [] rfl hdot hread

/-- **Pairs of brackets** are read one by one. -/
theorem brackets_append (dims : Nat) (h : ReadsInto after ss rest) :
    ReadsInto (TypeRef.bracketChars dims ++ after) (bracketStretches dims ++ ss) rest := by
  induction dims with
  | zero => exact h
  | succ dims ih =>
    exact symbol_append .lBracket '[' [] rfl rfl (symbol_append .rBracket ']' [] rfl rfl ih)

/-- **Three points** are one symbol. -/
theorem points_append (isVarargs : Bool) (h : ReadsInto after ss rest) :
    ReadsInto (ClassSpelling.pointChars isVarargs ++ after) (pointStretches isVarargs ++ ss)
      rest := by
  cases isVarargs with
  | false => exact h
  | true => exact symbol_append .ellipsis '.' ['.', '.'] rfl rfl h

end ReadsInto

/-! ## Parameters -/

/-- What stands between angle brackets are type arguments: the angle brackets within are closed in
turn, and no comment goes on behind the last one. -/
structure IsTypeArguments (inner : String) : Prop where
  reads : ∃ ss, ReadsInto ('<' :: inner.toList ++ ['>']) (ss ++ [Symbol.gt.stretch]) [] ∧
    SpellsTypeArguments (spellingsOf (ss ++ [Symbol.gt.stretch]))

namespace ClassSpelling

variable {t : ClassSpelling} {name : String}

/-- The type can be read as that of a parameter with this name: no identifier breaks, and between
angle brackets stand type arguments. -/
structure IsReadableWith (t : ClassSpelling) (name : String) : Prop where
  isIdentifier : IsIdentifier name
  whole : ∀ identifier ∈ name :: t.first :: t.others, ∀ word,
    ¬ BreaksBehind word identifier.toList
  arguments : ∀ inner, t.arguments = some inner → IsTypeArguments inner

/-- Type arguments are read alike whatever stands behind them. -/
theorem IsReadableWith.exists_argumentStretches (h : t.IsReadableWith name)
    (hafter : after.head? ≠ some '=') (hread : ReadsInto after ss rest) :
    ∃ arguments, ReadsInto (t.argumentChars ++ after) (arguments ++ ss) rest ∧
      (spellingsOf arguments = [] ∨ SpellsTypeArguments (spellingsOf arguments)) := by
  unfold argumentChars
  cases harguments : t.arguments with
  | none => exact ⟨[], hread, .inl rfl⟩
  | some inner =>
    obtain ⟨mid, hinner, hspelled⟩ := (h.arguments inner harguments).reads
    refine ⟨mid ++ [Symbol.gt.stretch], ?_, .inr hspelled⟩
    have happend := hinner.append_gt hafter hread
    simpa using happend

/-- The characters behind the name and the type arguments. -/
def behindChars (t : ClassSpelling) (name : String) : List Char :=
  TypeRef.bracketChars t.dims ++ (pointChars t.isVarargs ++ ' ' :: name.toList)

/-- The stretches behind the name and the type arguments. -/
def behindStretches (t : ClassSpelling) (name : String) : List Stretch :=
  bracketStretches t.dims ++
    (pointStretches t.isVarargs ++ [⟨.gap, [' ']⟩, ⟨.token .ident, name.toList⟩])

theorem IsReadableWith.reads_behind (h : t.IsReadableWith name) :
    ReadsInto (t.behindChars name) (t.behindStretches name) [] := by
  have hend : ∀ c ∈ ([] : List Char).head?, isIdentContinue c = false := by rintro _ ⟨⟩
  have hname : ReadsInto (name.toList ++ []) [⟨.token .ident, name.toList⟩] [] :=
    .identifier_append h.isIdentifier (h.whole name List.mem_cons_self) hend .done
  have hgap : Lexeme.read ' ' (name.toList ++ []) = some (.gap, 0) := by
    obtain ⟨c, cs, hcs, -⟩ := h.isIdentifier.opens
    have hident := h.isIdentifier.goesOn c (hcs ▸ List.mem_cons_self)
    have hnot : ¬ Lexeme.isGapChar c = true := fun hgap => by
      rw [Lexeme.not_isIdentContinue_of_isGapChar hgap] at hident
      cases hident
    have hrun : Lexeme.runLength Lexeme.isGapChar (name.toList ++ []) = 0 := by
      rw [hcs, List.cons_append, Lexeme.runLength, List.takeWhile_cons_of_neg hnot]
      rfl
    rw [Lexeme.read, if_pos (by rfl), hrun]
  rw [List.append_nil] at hname hgap
  exact .brackets_append _ (.points_append _ (.next hgap hname))

/-- What stands behind starts with a bracket, a point or a blank. -/
theorem head_behindChars (t : ClassSpelling) (name : String) :
    ∀ c ∈ (t.behindChars name).head?, c ∈ ['[', '.', ' '] := by
  unfold behindChars
  cases t.dims with
  | zero => cases t.isVarargs <;> rintro _ ⟨⟩ <;> simp
  | succ dims =>
    rintro _ ⟨⟩
    simp

/-- **A parameter of the type is read** as its tokens. -/
theorem IsReadableWith.exists_tokens (h : t.IsReadableWith name) :
    ∃ tokens arguments, tokenize (t.source ++ " " ++ name) = .ok tokens ∧
      (arguments = [] ∨ SpellsTypeArguments arguments) ∧
      tokens.map (·.spelling) =
        Parser.paramTokens t.first t.others arguments t.dims t.isVarargs name := by
  have hhead := t.head_behindChars name
  have hnotEq : (t.behindChars name).head? ≠ some '=' := fun heq => by
    simpa using hhead '=' heq
  obtain ⟨arguments, harguments, hspelled⟩ :=
    h.exists_argumentStretches hnotEq h.reads_behind
  have hends : ∀ c ∈ (t.argumentChars ++ t.behindChars name).head?,
      isIdentContinue c = false := by
    unfold argumentChars
    cases t.arguments with
    | none =>
      have hnone : ∀ c ∈ ['[', '.', ' '], isIdentContinue c = false :=
        List.forall_mem_cons.2 ⟨rfl, List.forall_mem_cons.2 ⟨rfl, List.forall_mem_singleton.2 rfl⟩⟩
      exact fun c hc => hnone c (hhead c hc)
    | some inner =>
      rintro _ ⟨⟩
      rfl
  have hdotted := ReadsInto.dotted_append
    (fun other hother => t.isIdentifier other (List.mem_cons_of_mem _ hother))
    (fun other hother => h.whole other (List.mem_cons_of_mem _ (List.mem_cons_of_mem _ hother)))
    hends harguments
  have hread := ReadsInto.identifier_append (t.isIdentifier t.first List.mem_cons_self)
    (h.whole t.first (by simp)) (ReadsInto.head_dottedChars_append hends) hdotted
  have hchars : (t.source ++ " " ++ name).toList =
      t.first.toList ++ (dottedChars t.others ++ (t.argumentChars ++ t.behindChars name)) := by
    simp [String.toList_append, toList_source, namedChars, toList_name, behindChars]
  rw [← hchars] at hread
  obtain ⟨tokens, htokens, hspellings⟩ := hread.exists_tokenize_eq
  refine ⟨tokens, spellingsOf arguments, htokens, hspelled, hspellings.trans ?_⟩
  have hname : spellingsOf [⟨.gap, [' ']⟩, ⟨.token .ident, name.toList⟩] = [(.ident, name)] :=
    spellingsOf_identifier name []
  simp only [spellingsOf_identifier, behindStretches, spellingsOf_append,
    spellingsOf_dottedStretches, spellingsOf_bracketStretches, spellingsOf_pointStretches, hname,
    Parser.paramTokens, List.append_assoc, List.cons_append]

/-- **The recorded type of a parameter** is the simple name with all dimensions. -/
theorem IsReadableWith.exists_param (h : t.IsReadableWith name) (lastEnd textEnd : Nat) :
    ∃ tokens, tokenize (t.source ++ " " ++ name) = .ok tokens ∧
      ∃ p next, Parser.param ⟨tokens, lastEnd, textEnd⟩ = .ok (p, next) ∧ next.rest = [] ∧
        p.name.text = name ∧ p.isVarargs = t.isVarargs ∧ p.type.displaySimple = t.canonical := by
  obtain ⟨tokens, arguments, htokens, harguments, hspelled⟩ := h.exists_tokens
  have hparam := Parser.readsSpelled_param t.first t.others t.dims t.isVarargs name harguments
  obtain ⟨p, next, hok, hnext, hsegments, hdims, hname, hvarargs⟩ :=
    hparam.exists_run (c := ⟨tokens, lastEnd, textEnd⟩) (by rw [List.append_nil]; exact hspelled)
  refine ⟨tokens, htokens, p, next, hok, List.map_eq_nil_iff.1 hnext, hname, hvarargs, ?_⟩
  rw [TypeRef.displaySimple, TypeRef.simpleName, hsegments, hdims, canonical, allDims, simpleName,
    List.getLast?_eq_some_getLast (List.cons_ne_nil _ _)]
  rfl

/-- **Descriptors are erased to the type that a parameter is recorded with**, and so is the source
form unless it has type arguments, brackets and points at once. Then of its dimensions only the one
of the points is left. -/
theorem erase_spellings (t : ClassSpelling) :
    (∀ mark ∈ ['Q', 'L', 'T'], Signature.erase (t.descriptor mark) = t.canonical) ∧
    (Signature.erase t.source = t.canonical ↔
      ¬ (t.arguments.isSome ∧ t.isVarargs ∧ 0 < t.dims)) ∧
    (t.arguments.isSome ∧ t.isVarargs → Signature.erase t.source = t.simpleName ++ "[]") ∧
    ∀ name, t.IsReadableWith name → ∀ lastEnd textEnd,
      ∃ tokens, tokenize (t.source ++ " " ++ name) = .ok tokens ∧
        ∃ p next, Parser.param ⟨tokens, lastEnd, textEnd⟩ = .ok (p, next) ∧ next.rest = [] ∧
          p.name.text = name ∧ p.isVarargs = t.isVarargs ∧
          p.type.displaySimple = t.canonical := by
  refine ⟨fun mark hmark => t.erase_descriptor hmark, t.erase_source_eq_canonical_iff,
    fun hpoints => ?_, fun name hname => hname.exists_param⟩
  rw [t.erase_source, if_pos hpoints]
  rfl

/-- `List<String>[]...`, the type of a parameter that takes any number of arrays. -/
def listArrays : ClassSpelling where
  first := "List"
  others := []
  arguments := some "String"
  dims := 1
  isVarargs := true
  isIdentifier :=
    List.forall_mem_singleton.2
      (isIdentifier_of_isWordChar (by decide) (List.all_eq_true.1 (by decide)) (by decide))
  noDollar := by decide
  noCode := by decide

theorem isTypeArguments_string : IsTypeArguments "String" := by
  have hword : ∀ c ∈ "String".toList, Lexeme.isWordChar c = true :=
    List.all_eq_true.1 (by decide)
  have hname : IsIdentifier "String" := isIdentifier_of_isWordChar (by decide) hword (by decide)
  have hclosing : ReadsInto ['>'] [Symbol.gt.stretch] [] :=
    .symbol_append .gt '>' [] rfl rfl .done
  have hends : ∀ c ∈ ['>'].head?, isIdentContinue c = false := by
    rintro _ ⟨⟩
    rfl
  have hinner := ReadsInto.identifier_append hname (fun _ => not_breaksBehind hword) hends hclosing
  refine ⟨[Symbol.lt.stretch, ⟨.token .ident, "String".toList⟩], ?_, _, rfl, by decide⟩
  exact .symbol_append .lt '<' [] rfl rfl hinner

theorem isReadableWith_listArrays : listArrays.IsReadableWith "x" where
  isIdentifier :=
    isIdentifier_of_isWordChar (by decide) (List.all_eq_true.1 (by decide)) (by decide)
  whole := by
    have hall : ∀ name ∈ ["x", "List"], name.toList.all Lexeme.isWordChar = true := by decide
    exact fun name hname _ => not_breaksBehind (List.all_eq_true.1 (hall name hname))
  arguments := by
    rintro _ ⟨⟩
    exact isTypeArguments_string

/-- A parameter of the type `List<String>[]...` is recorded with `List[][]`, to which the descriptor
is erased, and the source form to `List[]`. -/
theorem erase_loses_brackets :
    Signature.erase "[[LList<String>;" = "List[][]" ∧
      Signature.erase "List<String>[]..." = "List[]" ∧
      ∃ tokens, tokenize "List<String>[]... x" = .ok tokens ∧
        ∃ p next, Parser.param ⟨tokens, 0, 19⟩ = .ok (p, next) ∧ next.rest = [] ∧
          p.type.displaySimple = "List[][]" := by
  have hsource : listArrays.source = "List<String>[]..." := by decide +kernel
  have hdescriptor : listArrays.descriptor 'L' = "[[LList<String>;" := by decide +kernel
  have hcanonical : listArrays.canonical = "List[][]" := by decide +kernel
  have hlost : listArrays.simpleName ++ "[]" = "List[]" := by decide +kernel
  have h := erase_spellings listArrays
  obtain ⟨hdescriptors, -, hpoints, hparam⟩ := h
  obtain ⟨tokens, htokens, p, next, hok, hnext, -, -, htype⟩ :=
    hparam "x" isReadableWith_listArrays 0 19
  rw [hsource] at htokens
  refine ⟨?_, ?_, tokens, htokens, p, next, hok, hnext, htype.trans hcanonical⟩
  · rw [← hdescriptor, hdescriptors 'L' (by decide), hcanonical]
  · rw [← hsource, hpoints ⟨rfl, rfl⟩, hlost]

end ClassSpelling

end SourceSearch
