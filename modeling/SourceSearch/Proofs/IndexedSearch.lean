import Mathlib.Data.List.Flatten
import SourceSearch.Search.Searchable
import SourceSearch.Proofs.DocumentWords

/-!
# Searches with the index

The index says of a document that is there whether it has a word (`mayContain_source_iff`,
`mayContain_archive_iff`), and a document where something is found has it, but for one case: who
asks for the implementors of `int`, or of another primitive type, finds a type with `int` in its
head when no document is skipped, while the index keeps identifiers only, and `int` is none. Nothing
else is lost by skipping documents (`search_eq_iff`).
-/

set_option autoImplicit false

namespace SourceSearch

variable {ws : Workspace}

/-! ## Look-ups in the index -/

namespace WordIndex

/-- A source file may have a word iff the word is an identifier of its text. -/
theorem mayContain_source_iff (h : ws.FilesInStep) {file : FileId} {source : SourceFile}
    (hsource : ws.source? file = some source) {word : String} :
    (ofWorkspace ws).mayContain (.source file) word = true ↔ word ∈ wordsOfText source.text := by
  have hfind : ws.sources.values.find? (fun f => DocumentId.source f.id == .source file) =
      some source := by
    have hmem : source ∈ ws.sources.values := Table.mem_values_iff.2 ⟨file.index, hsource⟩
    have hsame : (DocumentId.source source.id == .source file) = true := by
      rw [h.source_id hsource, beq_self_eq_true]
    have hsome :
        (ws.sources.values.find? fun f => DocumentId.source f.id == .source file).isSome :=
      List.find?_isSome.2 ⟨source, hmem, hsame⟩
    obtain ⟨found, hfound⟩ := Option.isSome_iff_exists.1 hsome
    obtain ⟨key, hkey⟩ := Table.mem_values_iff.1 (List.mem_of_find?_eq_some hfound)
    have hid : found.id = file := by simpa using List.find?_some hfound
    have hindex : found.id = ⟨key⟩ := h.source_id hkey
    obtain rfl : key = file.index := congrArg FileId.index (hindex.symm.trans hid)
    rw [hfound, ← hkey]
    exact hsource
  unfold mayContain ofWorkspace
  rw [List.lookup_append, lookup_map_pair, hfind]
  simp

/-- An archive may have a word iff one of its types writes the word. -/
theorem mayContain_archive_iff {id : ArchiveId} {archive : Archive}
    (harchive : ws.archive? id = some archive) {word : String} :
    (ofWorkspace ws).mayContain (.archive id) word = true ↔
      ∃ info ∈ archive.types, word ∈ wordsOfType info := by
  have hsources :
      ws.sources.values.find? (fun f => DocumentId.source f.id == .archive id) = none := by
    simp
  have hfind : ws.archives.values.find? (fun a => DocumentId.archive a.id == .archive id) =
      some archive := by
    rw [← harchive, Workspace.archive?]
    congr
    funext a
    simp [Bool.beq_eq_decide_eq]
  unfold mayContain ofWorkspace
  rw [List.lookup_append, lookup_map_pair, lookup_map_pair, hsources, hfind]
  simp

end WordIndex

/-! ## Documents that are skipped -/

/-- What counts in a document has a type with a primitive type as a supertype in its head. -/
def Document.HasPrimitiveHead (s : BoundWorkspace) (doc : Document) (p : Primitive) : Prop :=
  ∃ file source, doc.id = .source file ∧ s.workspace.source? file = some source ∧
    source.HasPrimitiveHead s doc.coverage p

/-- The pattern asks for the implementors of types with the name of a primitive type. -/
def SearchPattern.SeeksImplementorsOf (pattern : SearchPattern) (p : Primitive) : Prop :=
  pattern.limitTo = .implementors ∧
    ∃ qualifier params, pattern.subject = .name .type qualifier ⟨p.spelling, true⟩ params

namespace Searchable

variable {s : BoundWorkspace} {target : Target} {word : String}

/-- Elements that a test leaves out change nothing iff they come to nothing. -/
theorem flatMap_filter_eq_iff {α β : Type} {as : List α} {p : α → Bool} {f : α → List β} :
    (as.filter p).flatMap f = as.flatMap f ↔ ∀ a ∈ as, p a = false → f a = [] := by
  induction as with
  | nil => simp
  | cons a as ih =>
    cases hp : p a with
    | true =>
      rw [List.filter_cons_of_pos hp, List.flatMap_cons, List.flatMap_cons,
        List.append_cancel_left_eq, ih]
      simp [hp]
    | false =>
      have hle : ((as.filter p).flatMap f).length ≤ (as.flatMap f).length :=
        (List.filter_sublist.flatMap f).length_le
      rw [List.filter_cons_of_neg (by simp [hp]), List.flatMap_cons]
      constructor
      · intro heq
        have hlength := congrArg List.length heq
        rw [List.length_append] at hlength
        have hnil : f a = [] := List.length_eq_zero_iff.1 (by omega)
        rw [hnil, List.nil_append] at heq
        intro b hb hpb
        rcases List.mem_cons.1 hb with rfl | hb
        · exact hnil
        · exact ih.1 heq b hb hpb
      · intro hall
        rw [hall a List.mem_cons_self hp, List.nil_append]
        exact ih.2 fun b hb => hall b (List.mem_cons_of_mem _ hb)

theorem inOrder_eq_nil_iff {found : List Match} : inOrder found = [] ↔ found = [] := by
  rw [← List.length_eq_zero_iff, inOrder, List.length_mergeSort, List.length_eq_zero_iff]

/-- **An archive where something is found** may have the word. -/
theorem mayContain_of_mem_inArchive (h : ws.InStep) (hnames : target.Names word)
    {limitTo : LimitTo} {doc : Document} {id : ArchiveId} {archive : Archive}
    (harchive : ws.archive? id = some archive) {found : Match}
    (hfound : found ∈ target.inArchive s limitTo doc archive) :
    (WordIndex.ofWorkspace ws).mayContain (.archive id) word = true := by
  obtain ⟨rfl, path, hpath⟩ := Workspace.mem_entries_of_archive? harchive
  obtain ⟨info, hinfo, hfound⟩ := List.mem_flatMap.1 hfound
  obtain ⟨binary, hbinary, -⟩ := List.mem_map.1 hfound
  have hmem : info ∈ archive.types := List.mem_mergeSort.1 (List.mem_filter.1 hinfo).1
  have hnamed := h.archives.namedIn_archive hpath hmem
  rw [WordIndex.mayContain_archive_iff harchive]
  exact ⟨info, hmem, hnames.word_of_mem_inBinaryType hnamed hbinary⟩

/-- **A document where something is found** may have the word, or it is a source file that does not
write the word. -/
theorem mayContain_or_of_mem_locate (hover : s.IsOver ws) (h : ws.InStep)
    (hnames : target.Names word) {limitTo : LimitTo} {doc : Document} {found : Match}
    (hfound : found ∈ locate s target limitTo doc) :
    (WordIndex.ofWorkspace ws).mayContain doc.id word = true ∨
      ∃ file source, doc.id = .source file ∧ ws.source? file = some source ∧
        word ∉ WordIndex.wordsOfText source.text ∧
          ∃ finding, finding ∈ target.findings s limitTo doc.coverage source := by
  unfold locate at hfound
  rw [hover.workspace] at hfound
  split at hfound
  next file hdoc =>
    split at hfound
    next source hsource =>
      obtain ⟨finding, hfinding, -⟩ := List.mem_map.1 hfound
      rw [hdoc, WordIndex.mayContain_source_iff h.files hsource, or_iff_not_imp_left]
      exact fun hnot => ⟨file, source, rfl, hsource, hnot, finding, hfinding⟩
    next => cases hfound
  next id hdoc =>
    split at hfound
    next archive harchive =>
      rw [hdoc]
      exact Or.inl (mayContain_of_mem_inArchive h hnames harchive hfound)
    next => cases hfound

/-- What is found in a source file is found in its document. -/
theorem locate_ne_nil (hover : s.IsOver ws) {limitTo : LimitTo} {doc : Document} {file : FileId}
    {source : SourceFile} (hdoc : doc.id = .source file) (hsource : ws.source? file = some source)
    {finding : Finding} (hfinding : finding ∈ target.findings s limitTo doc.coverage source) :
    locate s target limitTo doc ≠ [] := by
  intro hnil
  rw [locate, hdoc] at hnil
  simp only [hover.workspace, hsource] at hnil
  exact List.ne_nil_of_mem (List.mem_map_of_mem hfinding) hnil

/-- A document where a target is found may have its word, or a primitive type is in a head. -/
theorem mayContain_or_hasPrimitiveHead (hover : s.IsOver ws) (h : ws.InStep)
    (hseeks : target.Seeks word) {limitTo : LimitTo} {doc : Document} {found : Match}
    (hfound : found ∈ locate s target limitTo doc) :
    (WordIndex.ofWorkspace ws).mayContain doc.id word = true ∨
      limitTo = .implementors ∧ ∃ p : Primitive, word = p.spelling ∧ doc.HasPrimitiveHead s p := by
  rcases mayContain_or_of_mem_locate hover h hseeks.names hfound with
    hmay | ⟨file, source, hdoc, hsource, hnot, finding, hfinding⟩
  · exact Or.inl hmay
  · obtain ⟨hlimit, p, hp, hhead⟩ :=
      (hseeks.word_of_mem_findings hover h hsource hfinding).resolve_left hnot
    refine Or.inr ⟨hlimit, p, hp, file, source, hdoc, ?_, hhead⟩
    rw [hover.workspace, hsource]

/-- A document with a primitive type in a head is skipped, although something is found there. -/
theorem of_hasPrimitiveHead (hover : s.IsOver ws) (h : ws.InStep) {doc : Document} {p : Primitive}
    (hhead : doc.HasPrimitiveHead s p) (qualifier : Option NamePattern)
    (params : Option (List String)) :
    (WordIndex.ofWorkspace ws).mayContain doc.id p.spelling = false ∧
      locate s (.named .type qualifier ⟨p.spelling, true⟩ params) .implementors doc ≠ [] := by
  obtain ⟨file, source, hdoc, hsource, hhead⟩ := hhead
  have hfile : ws.source? file = some source := by rw [← hover.workspace, hsource]
  constructor
  · rw [hdoc, Bool.eq_false_iff, ne_eq, WordIndex.mayContain_source_iff h.files hfile]
    intro hword
    have hreserved := (isWord_of_mem_wordsOfText hword).not_reserved
    rw [p.ofReserved?_spelling] at hreserved
    cases hreserved
  · obtain ⟨found, hfound⟩ :=
      Target.exists_finding_of_hasPrimitiveHead hover h hfile hhead qualifier params
    exact locate_ne_nil hover hdoc hfile hfound

/-- The pattern of a target that seeks the word of a primitive type names it. -/
theorem seeksImplementorsOf (hover : s.IsOver ws) (h : ws.InStep) {pattern : SearchPattern}
    (hpattern : pattern.seeksConstructor = false)
    (htarget : Target.ofPattern s pattern = .ok target) {p : Primitive}
    (hword : target.indexWord? = some p.spelling)
    (hlimit : pattern.limitTo = .implementors) : pattern.SeeksImplementorsOf p := by
  have hseeks := Target.seeks_of_ofPattern hover h hpattern htarget hword
  obtain ⟨hbind, hkind⟩ := Target.ofPattern_eq_ok_iff.1 htarget
  have hnoWord : ¬IsWord p.spelling := by
    intro hisword
    have hreserved := hisword.not_reserved
    rw [p.ofReserved?_spelling] at hreserved
    cases hreserved
  cases target with
  | type key => exact absurd hseeks.2 hnoWord
  | method handle hierarchy => exact absurd hseeks.2.1 hnoWord
  | field handle => exact absurd hseeks.2 hnoWord
  | named kind qualifier name params =>
    obtain rfl : kind = .type := hkind hlimit
    refine ⟨hlimit, qualifier, params, ?_⟩
    obtain ⟨text, caseSensitive⟩ := name
    obtain ⟨hexact, htext⟩ := Option.ite_none_right_eq_some.1 hword
    rw [Bool.and_eq_true] at hexact
    rw [Target.subject_of_bind_named hbind, ← Option.some.inj htext]
    rw [show caseSensitive = true from hexact.1]

/-- What a prepared workspace searches in. -/
theorem search_ofWorkspace (ws : Workspace) (pattern : SearchPattern) (scope : SearchScope) :
    (ofWorkspace ws).search pattern scope = (do
      let target ← Target.ofPattern (.ofWorkspace ws) pattern
      return locateAll (.ofWorkspace ws) target pattern.limitTo
        (scope.documents.filter (admits (.ofWorkspace ws) target))) := rfl

/-- **Skipping documents** loses nothing iff nothing is found in the documents that are skipped. -/
theorem search_eq_searchUnindexed_iff {pattern : SearchPattern}
    (htarget : Target.ofPattern (.ofWorkspace ws) pattern = .ok target) (scope : SearchScope) :
    (ofWorkspace ws).search pattern scope = searchUnindexed (.ofWorkspace ws) pattern scope ↔
      ∀ doc ∈ scope.documents, admits (.ofWorkspace ws) target doc = false →
        locate (.ofWorkspace ws) target pattern.limitTo doc = [] := by
  rw [search_ofWorkspace, searchUnindexed, htarget]
  show Except.ok (locateAll _ _ _ _) = Except.ok (locateAll _ _ _ _) ↔ _
  rw [Except.ok.injEq, locateAll, locateAll, flatMap_filter_eq_iff]
  simp only [inOrder_eq_nil_iff]

/-- **Skipping documents** loses matches iff the pattern asks for the implementors of a primitive
type and a document of the scope has one. -/
theorem search_eq_iff (h : ws.InStep) {pattern : SearchPattern}
    (hpattern : pattern.seeksConstructor = false) (scope : SearchScope) :
    (ofWorkspace ws).search pattern scope = searchUnindexed (.ofWorkspace ws) pattern scope ↔
      ¬∃ p, pattern.SeeksImplementorsOf p ∧
        ∃ doc ∈ scope.documents, doc.HasPrimitiveHead (.ofWorkspace ws) p := by
  have hover := BoundWorkspace.isOver_ofWorkspace ws
  have hnamed : ∀ {p}, pattern.SeeksImplementorsOf p → ∃ qualifier params,
      Target.ofPattern (.ofWorkspace ws) pattern =
        .ok (.named .type qualifier ⟨p.spelling, true⟩ params) := by
    rintro p ⟨-, qualifier, params, hsubject⟩
    refine ⟨qualifier, params, Target.ofPattern_eq_ok_iff.2 ⟨?_, fun _ => rfl⟩⟩
    rw [hsubject]
    rfl
  cases htarget : Target.ofPattern (.ofWorkspace ws) pattern with
  | error e =>
    rw [search_ofWorkspace, searchUnindexed, htarget]
    refine ⟨?_, fun _ => rfl⟩
    rintro - ⟨p, hseeks, -⟩
    obtain ⟨qualifier, params, hok⟩ := hnamed hseeks
    rw [htarget] at hok
    cases hok
  | ok target =>
    rw [search_eq_searchUnindexed_iff htarget]
    constructor
    · rintro hall ⟨p, hseeks, doc, hdoc, hhead⟩
      obtain ⟨qualifier, params, hok⟩ := hnamed hseeks
      obtain rfl := Except.ok.inj (htarget.symm.trans hok)
      obtain ⟨hskipped, hfound⟩ := of_hasPrimitiveHead hover h hhead qualifier params
      have hadmits : admits (.ofWorkspace ws)
          (.named .type qualifier ⟨p.spelling, true⟩ params) doc = false := by
        have hword : (⟨p.spelling, true⟩ : NamePattern).exactWord? = some p.spelling := by
          cases p <;> decide
        rw [admits, Target.indexWord?, hword]
        exact hskipped
      rw [← hseeks.1] at hfound
      exact hfound (hall doc hdoc hadmits)
    · intro hnone doc hdoc hskipped
      rw [List.eq_nil_iff_forall_not_mem]
      intro found hfound
      obtain ⟨word, hword, hmay⟩ : ∃ word, target.indexWord? = some word ∧
          (WordIndex.ofWorkspace ws).mayContain doc.id word = false := by
        unfold admits at hskipped
        cases hword : target.indexWord? with
        | none =>
          rw [hword] at hskipped
          cases hskipped
        | some word =>
          rw [hword] at hskipped
          exact ⟨word, rfl, hskipped⟩
      have hseeks := Target.seeks_of_ofPattern hover h hpattern htarget hword
      rcases mayContain_or_hasPrimitiveHead hover h hseeks hfound with
        hcontains | ⟨hlimit, p, rfl, hhead⟩
      · rw [hmay] at hcontains
        cases hcontains
      · exact hnone ⟨p, seeksImplementorsOf hover h hpattern htarget hword hlimit, doc, hdoc, hhead⟩

/-- A search for neither implementors nor a constructor finds what is in the documents. -/
theorem search_eq_ok_of_ofPattern (h : ws.InStep) {target : Target} {pattern : SearchPattern}
    (hlimit : pattern.limitTo ≠ .implementors) (hconstructor : pattern.seeksConstructor = false)
    (htarget : Target.ofPattern (.ofWorkspace ws) pattern = .ok target) (scope : SearchScope) :
    (ofWorkspace ws).search pattern scope =
      .ok (locateAll (.ofWorkspace ws) target pattern.limitTo scope.documents) := by
  rw [(search_eq_iff h hconstructor scope).2 fun ⟨_, hseeks, _⟩ => hlimit hseeks.1,
    searchUnindexed, htarget]
  rfl

/-- **The index** costs no match in any state of a workspace, but for primitive types in heads: the
matches are those that are found without it, unless the pattern asks for the implementors of a
primitive type and a type that counts has this type in its head. -/
theorem search_afterAll_eq_searchUnindexed_iff (edits : List Edit) {pattern : SearchPattern}
    (hpattern : pattern.seeksConstructor = false) (scope : SearchScope) :
    (ofWorkspace (Workspace.initial.afterAll edits)).search pattern scope =
        searchUnindexed (.ofWorkspace (Workspace.initial.afterAll edits)) pattern scope ↔
      ¬∃ p, pattern.SeeksImplementorsOf p ∧ ∃ doc ∈ scope.documents,
        doc.HasPrimitiveHead (.ofWorkspace (Workspace.initial.afterAll edits)) p :=
  search_eq_iff (Workspace.inStep_afterAll edits) hpattern scope

/-- A project with a class that extends `int`. -/
def extendingInt : List Edit :=
  [.createProject ⟨"P", [""], [], none⟩, .createFile "/P/X.java" "class X extends int \x7b\x7d"]

/-- The file with the class, as a scope. -/
def extendingIntScope : SearchScope :=
  ⟨.workspace, ["P"], [⟨.source ⟨0⟩, "P", "X.java", .all⟩]⟩

/-- The class that extends `int` is lost to who asks for the implementors of `int`. -/
theorem search_loses_implementor_of_int :
    (ofWorkspace (.afterAll .initial extendingInt)).search
        ⟨.name .type none ⟨"int", true⟩ none, .implementors⟩ extendingIntScope ≠
      searchUnindexed (.ofWorkspace (.afterAll .initial extendingInt))
        ⟨.name .type none ⟨"int", true⟩ none, .implementors⟩ extendingIntScope := by
  intro heq
  let file := SourceFile.ofText ⟨0⟩ "P" "X.java" "class X extends int \x7b\x7d"
  have hhead : ∃ info ∈ file.types, ∃ ref ∈ info.superclass.toList ++ info.interfaces,
      ref.segments = [Primitive.int.spelling] := by
    decide +kernel
  have hfile : (Workspace.afterAll .initial extendingInt).source? ⟨0⟩ = some file := by
    refine (Workspace.inStep_afterAll _).files.source_iff.2 ⟨"P", "X.java", _, ?_, ?_, ?_, rfl⟩
    · decide +kernel
    · decide +kernel
    · decide +kernel
  obtain ⟨info, hinfo, ref, href, hsegments⟩ := hhead
  apply (search_afterAll_eq_searchUnindexed_iff extendingInt rfl extendingIntScope).1 heq
  refine ⟨.int, ⟨rfl, none, none, rfl⟩, _, List.mem_cons_self, ?_⟩
  exact ⟨⟨0⟩, file, rfl, hfile, info, hinfo, rfl, ref, href, hsegments⟩

end Searchable

end SourceSearch
