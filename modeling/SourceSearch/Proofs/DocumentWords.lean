import SourceSearch.Search.Finding
import SourceSearch.Proofs.TargetWords

/-!
# The words of a document

Wherever a target is found in a document, the document writes its word (`word_of_mem_findings`,
`word_of_inBinaryType`). There is one exception: the supertypes in the head of a type are told
without a look at whether they are primitive, and the word of a primitive type is no identifier
(`SourceFile.HasPrimitiveHead`).
-/

set_option autoImplicit false

namespace SourceSearch

variable {ws : Workspace} {s : BoundWorkspace}

/-- A type of the file that counts has a primitive type as a supertype in its head. -/
def SourceFile.HasPrimitiveHead (s : BoundWorkspace) (coverage : Coverage) (file : SourceFile)
    (p : Primitive) : Prop :=
  ∃ info ∈ file.types, coverage.encloses (s.enclosingChain (some info.key)) = true ∧
    ∃ ref ∈ info.superclass.toList ++ info.interfaces, ref.segments = [p.spelling]

namespace Target

variable {target : Target} {word : String} {words : String → Prop} {found : Finding}

/-! ## Types of source files -/

/-- A type, and the members that it declares, are named in the document. -/
theorem Names.word_of_mem_declarations (hnames : target.Names word) {info : DeclaredType}
    {decl : TypeDecl} (hname : words info.simpleName)
    (hmembers : WrittenIn words (Walk.members decl.members))
    (hfound : found ∈ target.declarations info decl) : words word := by
  have hdeclared : ∀ {label : String} {name : TextRange} {isTarget : Bool},
      Finding.declaration? label name isTarget = some found → isTarget = true :=
    fun h => (Option.ite_none_right_eq_some.1 h).1
  rcases List.mem_append.1 hfound with hfound | hfound
  · rw [← hnames.type (hdeclared (Option.mem_toList.1 hfound))]
    exact hname
  · obtain ⟨member, hmember, hfound⟩ := List.mem_filterMap.1 hfound
    have hwritten := writtenIn_member hmembers hmember
    cases member with
    | method head body =>
      rw [← hnames.method (hdeclared hfound)]
      exact (writtenIn_cons.1 hwritten).1
    | field head init =>
      rw [← hnames.field (hdeclared hfound)]
      exact (writtenIn_cons.1 hwritten).1
    | initializer isStatic body range => cases hfound
    | type inner => cases hfound

/-- The supertypes in the head of a type are among its nodes. -/
theorem writtenIn_heads {decl : TypeDecl} (h : WrittenIn words (Walk.typeDecl decl)) :
    ∀ ref ∈ decl.head.superclass.toList ++ decl.head.interfaces, ref.WrittenIn words := by
  obtain ⟨head, members⟩ := decl
  rw [Walk.typeDecl, List.cons_append, writtenIn_cons, writtenIn_append,
    writtenIn_map_typeRef] at h
  exact h.2.1

/-- A supertype in the head of a type that is the target writes the word, unless it is primitive. -/
theorem Seeks.word_of_mem_implementors (hseeks : target.Seeks word) (h : ws.InStep)
    (hwords : ∀ other, words other → IsWord other) {outside : NameScope}
    (houtside : outside.IsIn ws) {info : DeclaredType} {decl : TypeDecl}
    (hdecl : WrittenIn words (Walk.typeDecl decl))
    (hfound : found ∈ target.implementors s outside info decl) :
    words word ∨ ∃ p : Primitive, word = p.spelling ∧
      ∃ ref ∈ decl.head.superclass.toList ++ decl.head.interfaces, ref.segments = [p.spelling] := by
  obtain ⟨o, ho, -⟩ := List.mem_map.1 hfound
  obtain ⟨ref, hmem, ho⟩ := List.mem_filterMap.1 ho
  obtain ⟨accuracy, haccuracy, -⟩ := Option.map_eq_some_iff.1 ho
  have href := writtenIn_heads hdecl ref hmem
  cases hprimitive : ref.isPrimitive with
  | false => exact Or.inl (hseeks.word_of_typeRef houtside h hwords href hprimitive haccuracy)
  | true =>
    -- nothing is bound to a primitive type, so it is told by its spelling
    have hnone : s.typeOfRef? outside ref = none := if_pos hprimitive
    rw [hnone] at haccuracy
    have hlast := hseeks.last_of_typeAccuracy? (by simp) haccuracy
    rcases href with ⟨p, hp⟩ | ⟨-, hall⟩
    · rw [hp, List.getLast?_singleton] at hlast
      exact Or.inr ⟨p, (Option.some.inj hlast).symm, ref, hmem, hp⟩
    · exact Or.inl (hall word (List.mem_of_getLast? hlast))

/-- A member that is no type shows the places in it, and a type shows none. -/
theorem exists_memberPlaces_eq_iff {inside : NameScope} {info : DeclaredType} {kind : TypeDeclKind}
    {member : Member} {places : List Place} :
    (∃ label, memberPlaces s inside info kind member = some (label, places)) ↔
      ¬member.IsType ∧ s.memberPlaces inside .none member = places := by
  cases member <;> simp [memberPlaces, Member.IsType]

/-- **The places in a member**, which is no type, are among its nodes. -/
theorem node_mem_of_memberPlaces {inside : NameScope} {info : DeclaredType} {kind : TypeDeclKind}
    {member : Member} {label : String} {places : List Place}
    (hplaces : memberPlaces s inside info kind member = some (label, places)) :
    ¬member.IsType ∧ ∀ place ∈ places, place.node ∈ Walk.member member := by
  obtain ⟨hplain, rfl⟩ := exists_memberPlaces_eq_iff.1 ⟨label, hplaces⟩
  exact ⟨hplain, s.memberPlaces_subset inside .none member⟩

/-- A reference in a type, in its head or in a member, writes the word. -/
theorem Seeks.word_of_mem_references (hseeks : target.Seeks word) (h : ws.InStep)
    (hwords : ∀ other, words other → IsWord other) {outside inside : NameScope}
    (houtside : outside.IsIn ws) (hinside : inside.IsIn ws) {info : DeclaredType} {decl : TypeDecl}
    (hdecl : WrittenIn words (Walk.typeDecl decl))
    (hfound : found ∈ target.references s outside inside info decl) : words word := by
  unfold references at hfound
  rcases List.mem_append.1 hfound with hfound | hfound
  · obtain ⟨o, ho, -⟩ := List.mem_map.1 hfound
    obtain ⟨place, hplace, ho⟩ := List.mem_filterMap.1 ho
    obtain ⟨ref, href, rfl⟩ := List.mem_map.1 hplace
    have hwritten : (Place.typeRef ref).node.WrittenIn words := writtenIn_heads hdecl ref href
    exact hseeks.word_of_at? houtside h hwords hwritten ho
  · obtain ⟨⟨label, places⟩, hmember, hfound⟩ := List.mem_flatMap.1 hfound
    obtain ⟨member, hmem, hplaces⟩ := List.mem_filterMap.1 hmember
    obtain ⟨o, ho, -⟩ := List.mem_map.1 hfound
    obtain ⟨place, hplace, ho⟩ := List.mem_filterMap.1 ho
    have hwritten := writtenIn_member (TypeDecl.writtenIn_members hdecl) hmem
    have hnode := (node_mem_of_memberPlaces hplaces).2 place hplace
    exact hseeks.word_of_at? hinside h hwords (hwritten _ hnode) ho

/-! ## Source files -/

/-- What an import names of a type is a part of what it writes. -/
theorem of_importedType? {i : ImportDecl} {segments : List String}
    (hsegments : importedType? i = some segments) :
    segments ≠ [] ∧ ∀ segment ∈ segments, segment ∈ i.segments := by
  obtain ⟨hsome, heq⟩ := Option.ite_none_left_eq_some.1 hsegments
  rw [Bool.or_eq_true, not_or, Option.some.inj heq] at hsome
  refine ⟨fun hnil => hsome.2 (List.isEmpty_iff.2 hnil), fun segment hmem => ?_⟩
  rw [← Option.some.inj heq] at hmem
  split at hmem
  · exact List.dropLast_subset _ hmem
  · exact hmem

/-- An import of the target writes the word. -/
theorem Seeks.word_of_mem_inImports (hseeks : target.Seeks word) (h : ws.InStep)
    (hwords : ∀ other, words other → IsWord other) {scope : NameScope} (hscope : scope.IsIn ws)
    (himports : ∀ i ∈ scope.unit.imports, ∀ segment ∈ i.segments, words segment)
    (hfound : found ∈ target.inImports scope) : words word := by
  unfold inImports at hfound
  split at hfound
  next =>
    obtain ⟨i, hi, hfound⟩ := List.mem_filterMap.1 hfound
    obtain ⟨segments, hsegments, hfound⟩ := Option.bind_eq_some_iff.1 hfound
    obtain ⟨accuracy, haccuracy, -⟩ := Option.bind_eq_some_iff.1 hfound
    have hnamed := of_importedType? hsegments
    have hlast : segments.getLast? = some word := by
      refine hseeks.last_of_typeAccuracy? (fun key hkey => ?_) haccuracy
      have hdots : ∀ segment ∈ segments, '.' ∉ segment.toList := fun segment hmem =>
        (hwords _ (himports i hi segment (hnamed.2 segment hmem))).no_dot
      rw [TypeKey.simpleName, (hscope.of_lookup? h hkey).1, Text.lastSegment_intercalate hdots,
        List.getLast?_eq_some_getLast hnamed.1, Option.getD_some]
    exact himports i hi word (hnamed.2 word (List.mem_of_getLast? hlast))
  next => cases hfound

/-- **What counts in a source file** writes the word, but for a primitive type in a head. -/
theorem Seeks.word_of_mem_findings (hseeks : target.Seeks word) (hover : s.IsOver ws)
    (h : ws.InStep) {id : FileId} {file : SourceFile} (hfile : ws.source? id = some file)
    {limitTo : LimitTo}
    {coverage : Coverage} (hfound : found ∈ target.findings s limitTo coverage file) :
    word ∈ WordIndex.wordsOfText file.text ∨
      limitTo = .implementors ∧ ∃ p : Primitive, word = p.spelling ∧
        file.HasPrimitiveHead s coverage p := by
  have hwords : ∀ other, other ∈ WordIndex.wordsOfText file.text → IsWord other :=
    fun _ => isWord_of_mem_wordsOfText
  unfold findings at hfound
  split at hfound
  next => cases hfound
  next scope hscope =>
    have hin := hover.isIn_of_scope? h hfile hscope
    obtain ⟨hunit, -⟩ := hover.of_scope? hscope
    have hwritten := h.files.unit_written hfile hunit
    rcases List.mem_append.1 hfound with hfound | hfound
    · split at hfound
      next => exact Or.inl (hseeks.word_of_mem_inImports h hwords hin hwritten.imports hfound)
      next => cases hfound
    · obtain ⟨info, hinfo, hfound⟩ := List.mem_flatMap.1 hfound
      obtain ⟨hinfo, hcounts⟩ := List.mem_filter.1 hinfo
      obtain ⟨decl, hdecl, heq⟩ := h.files.exists_decl? hfile hunit hinfo
      have hnodes := DeclaredType.writtenIn_decl? hwritten hdecl
      rw [inType, hdecl] at hfound
      rcases List.mem_append.1 hfound with hfound | hfound
      · rcases List.mem_append.1 hfound with hfound | hfound
        · split at hfound
          next =>
            have hname := (h.files.namedIn_source hfile hinfo).name
            exact Or.inl (hseeks.names.word_of_mem_declarations hname
              (TypeDecl.writtenIn_members hnodes) hfound)
          next => cases hfound
        · split at hfound
          next =>
            exact Or.inl (hseeks.word_of_mem_references h hwords (hin.inside _) (hin.inside _)
              hnodes hfound)
          next => cases hfound
      · split at hfound
        next hlimit =>
          rcases hseeks.word_of_mem_implementors h hwords (hin.inside _) hnodes hfound with
            hword | ⟨p, hp, ref, href, hsegments⟩
          · exact Or.inl hword
          · rw [heq] at hinfo hcounts
            exact Or.inr ⟨hlimit, p, hp, _, hinfo, hcounts, ref, href, hsegments⟩
        next => cases hfound

/-- **A primitive type in a head** is found among implementors by its spelling. -/
theorem exists_finding_of_hasPrimitiveHead (hover : s.IsOver ws) (h : ws.InStep) {id : FileId}
    {file : SourceFile} (hfile : ws.source? id = some file) {coverage : Coverage} {p : Primitive}
    (hhead : file.HasPrimitiveHead s coverage p) (qualifier : Option NamePattern)
    (params : Option (List String)) :
    ∃ found, found ∈
      (named .type qualifier ⟨p.spelling, true⟩ params).findings s .implementors coverage file := by
  obtain ⟨info, hinfo, hcounts, ref, href, hsegments⟩ := hhead
  obtain ⟨unit, hunit⟩ := h.files.exists_unit hfile hinfo
  obtain ⟨decl, hdecl, heq⟩ := h.files.exists_decl? hfile hunit hinfo
  obtain ⟨env, hscope⟩ := hover.exists_scope? h.files hfile hunit
  have hmatches : (⟨p.spelling, true⟩ : NamePattern).matches? p.spelling = true := by
    refine (NamePattern.matches?_of_exactWord? ?_).2 rfl
    cases p <;> decide
  have haccuracy : ∀ scope, (named .type qualifier ⟨p.spelling, true⟩ params).typeAccuracy?
      (s.typeOfRef? scope ref) ref.segments = some .inaccurate := by
    intro scope
    rw [BoundWorkspace.typeOfRef?, TypeRef.isPrimitive_of_spelling hsegments, if_pos rfl,
      hsegments]
    simp [typeAccuracy?, couldBeType, hmatches]
  refine ⟨⟨info.qualifiedName, .implementor, ⟨ref.range, .inaccurate⟩⟩, ?_⟩
  rw [findings, hscope]
  refine List.mem_append_right _ (List.mem_flatMap.2 ⟨info, List.mem_filter.2 ⟨hinfo, hcounts⟩, ?_⟩)
  rw [inType, hdecl]
  refine List.mem_append_right _ ?_
  rw [if_pos rfl]
  refine List.mem_map.2 ⟨⟨ref.range, .inaccurate⟩, List.mem_filterMap.2 ⟨ref, ?_, ?_⟩, rfl⟩
  · rw [heq] at href
    exact href
  · rw [haccuracy]
    rfl

/-! ## Archives -/

/-- A supertype that an archive's type writes binds to a type of its name. -/
theorem simpleName_of_typeOfMemberRef? {owner key : TypeKey} {id : ArchiveId}
    (howner : owner.origin = .archive id) {ref : TypeRef}
    (href : ref.WrittenIn fun word => '.' ∉ word.toList)
    (hkey : s.typeOfMemberRef? owner ref = some key) : key.simpleName = ref.simpleName := by
  unfold BoundWorkspace.typeOfMemberRef? at hkey
  split at hkey
  next => cases hkey
  next hprimitive =>
    rw [howner] at hkey
    rcases href with ⟨p, hp⟩ | ⟨-, hdots⟩
    · exact absurd (TypeRef.isPrimitive_of_spelling hp) hprimitive
    · rw [TypeKey.simpleName, BoundWorkspace.qualifiedName_of_binaryType? hkey, TypeRef.dotted,
        Text.lastSegment_intercalate hdots, TypeRef.simpleName]

/-- **What is declared in an archive's type** is one of the words that the index keeps of it. -/
theorem Names.word_of_mem_binaryDeclarations (hnames : target.Names word) {info : DeclaredType}
    {label : String} (hlabel : label ∈ target.binaryDeclarations info) :
    word ∈ WordIndex.wordsOfType info := by
  refine List.mem_append_left _ ?_
  unfold binaryDeclarations at hlabel
  split at hlabel
  next =>
    split at hlabel
    next htype =>
      rw [← hnames.type htype]
      exact List.mem_append_left _ List.mem_cons_self
    next => cases hlabel
  next =>
    obtain ⟨m, hm, -⟩ := List.mem_map.1 hlabel
    obtain ⟨hmem, hmethod⟩ := List.mem_filter.1 hm
    rw [← hnames.method hmethod]
    exact List.mem_append_left _ (List.mem_cons_of_mem _ (List.mem_map_of_mem hmem))
  next =>
    obtain ⟨f, hf, -⟩ := List.mem_map.1 hlabel
    obtain ⟨hmem, hfield⟩ := List.mem_filter.1 hf
    rw [← hnames.field hfield]
    exact List.mem_append_right _ (List.mem_map_of_mem hmem)

/-- **What counts in an archive's type** is one of the words that the index keeps of it. -/
theorem Names.word_of_mem_inBinaryType (hnames : target.Names word) {info : DeclaredType}
    {id : ArchiveId} (hinfo : info.NamedIn IsWord (fun word => '.' ∉ word.toList) (.archive id))
    {limitTo : LimitTo} {found : String × MatchKind}
    (hfound : found ∈ target.inBinaryType s limitTo info) : word ∈ WordIndex.wordsOfType info := by
  unfold inBinaryType at hfound
  split at hfound
  next =>
    split at hfound
    next himplementor =>
      obtain ⟨ref, href, hany⟩ := List.any_eq_true.1 himplementor
      obtain ⟨key, hkey, htype⟩ := (Option.any_eq_true _ _).1 hany
      have hname := simpleName_of_typeOfMemberRef? hinfo.origin_eq (hinfo.heads ref href) hkey
      rw [← hnames.type htype, hname]
      exact List.mem_append_right _ (List.mem_map_of_mem href)
    next => cases hfound
  next =>
    split at hfound
    next =>
      obtain ⟨label, hlabel, -⟩ := List.mem_map.1 hfound
      exact hnames.word_of_mem_binaryDeclarations hlabel
    next => cases hfound

end Target

end SourceSearch
