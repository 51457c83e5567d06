import SourceSearch.Proofs.CallPlaces
import SourceSearch.Proofs.ConstructorSearch
import SourceSearch.Proofs.ScopeUnion

/-!
# Searches for the calls of a method

A search for the references to a method, in the whole workspace, looks at each parsed file
(`exists_document_workspace`). It tells each call that binds to the method, unless the method is
named like its type: then its handle is taken for that of a constructor, and no call is told
(`search_calls_afterAll`).
-/

set_option autoImplicit false

namespace SourceSearch

variable {ws : Workspace} {s : BoundWorkspace} {handle : MethodHandle} {hierarchy : TypeHierarchy}

/-! ## What a call binds to -/

namespace BoundWorkspace

theorem mem_of_bestOverload? {args : List StaticType} {methods : List DeclaredMethod}
    {m : DeclaredMethod} (h : bestOverload? args methods = some m) : m ∈ methods := by
  cases methods with
  | nil => cases h
  | cons first others =>
    obtain rfl := Option.some.inj h
    refine List.foldlRecOn (motive := (· ∈ first :: others)) others _ List.mem_cons_self ?_
    intro best hbest other hother
    split
    · exact List.mem_cons_of_mem _ hother
    · exact hbest

/-- The method that a call binds to has the name of the call. -/
theorem name_of_method? {receiver : TypeKey} {name : String} {args : List StaticType}
    {binding : BoundMethod} (h : s.method? receiver name args = some binding) :
    binding.method.name = name := by
  obtain ⟨key, -, hfound⟩ := List.exists_of_findSome?_eq_some h
  obtain ⟨info, -, hown⟩ := Option.bind_eq_some_iff.1 hfound
  obtain ⟨m, hbest, rfl⟩ := Option.map_eq_some_iff.1 hown
  have hmem := (List.mem_filter.1 (mem_of_bestOverload? hbest)).1
  have hname := (List.mem_filter.1 hmem).2
  simp only [Bool.and_eq_true, beq_iff_eq] at hname
  exact hname.1

theorem name_of_call {scope : NameScope} {locals : Locals} {receiver : Option Expr} {name : Ident}
    {args : List Expr} {binding : BoundMethod}
    (h : (s.call scope locals receiver name args).method = some binding) :
    binding.method.name = name.text := by
  unfold call bindCall at h
  split at h
  · unfold bindUnqualified at h
    dsimp only at h
    split at h
    next key found hfound =>
      obtain rfl := Option.some.inj h
      obtain ⟨around, -, haround⟩ := List.exists_of_findSome?_eq_some hfound
      obtain ⟨m, hm, heq⟩ := Option.map_eq_some_iff.1 haround
      obtain ⟨-, rfl⟩ := Prod.mk.inj heq
      exact name_of_method? hm
    next => cases h
  · obtain ⟨key, -, hfound⟩ := Option.bind_eq_some_iff.1 h
    exact name_of_method? hfound

/-! ## Own methods -/

/-- **A call without a receiver** binds to the method of the type around it, if this has one. -/
theorem call_of_own (hlimit : 0 < s.chainLimit) {scope : NameScope} {key : TypeKey}
    (hscope : scope.enclosing = some key) {info : DeclaredType}
    (hinfo : s.declared? key = some info) {locals : Locals} {name : Ident} {args : List Expr}
    {m : DeclaredMethod} (hm : ownMethod? info name.text (s.types scope locals args) = some m) :
    (s.call scope locals none name args).method = some ⟨info, m⟩ := by
  have hmethod : s.method? key name.text (s.types scope locals args) = some ⟨info, m⟩ := by
    obtain ⟨rest, hrest⟩ := s.exists_lookupOrder_eq_cons hlimit key
    rw [method?, methodOrder, hrest, List.cons_append, List.findSome?_cons, hinfo,
      Option.bind_some, hm]
    rfl
  rw [call, meaningOpt, bindCall, bindUnqualified, hscope, enclosingChain, outerChain]
  simp only [List.findSome?_cons, hmethod, Option.map_some]

end BoundWorkspace

namespace Target

/-! ## Calls as references -/

/-- **A call that binds to a method** is an exact reference to it, unless the method is named like
its type. -/
theorem inCall?_of_binds (hplain : handle.isConstructor = false) {scope : NameScope}
    {locals : Locals} {receiver : Option Expr} {name : Ident} {args : List Expr} {range : TextRange}
    {binding : BoundMethod}
    (hbinds : (s.call scope locals receiver name args).method = some binding)
    (hhandle : binding.handle = handle) :
    (method handle hierarchy).inExpr? s scope locals ⟨.call receiver name args, range⟩ =
      some ⟨.upTo name.range.start range.stop, .exact⟩ := by
  have hname : name.text = handle.selector := by
    rw [← BoundWorkspace.name_of_call hbinds, ← hhandle]
    rfl
  show Occurrence.at? _ (callAccuracy? _ _ _ _) = _
  simp [callAccuracy?, hplain, hname, hbinds, hhandle, Occurrence.at?]

/-- What is told of a method that is named like its type is no call. -/
theorem not_isCall_of_inExpr? (hconstructor : handle.isConstructor = true) {scope : NameScope}
    {locals : Locals} {e : Expr} {o : Occurrence}
    (ho : (method handle hierarchy).inExpr? s scope locals e = some o) :
    ¬e.IsCall ∧ o.range = e.range := by
  obtain ⟨kind, range⟩ := e
  cases kind with
  | call receiver callee args =>
    simp [inExpr?, inCall?, callAccuracy?, hconstructor, Occurrence.at?, Target.kind] at ho
  | new created args body =>
    obtain ⟨a, -, rfl⟩ := Option.map_eq_some_iff.1 ho
    exact ⟨id, rfl⟩
  | constructorCall isSuper args =>
    obtain ⟨a, -, rfl⟩ := Option.map_eq_some_iff.1 ho
    exact ⟨id, rfl⟩
  | methodRef receiver name =>
    obtain ⟨a, -, rfl⟩ := Option.map_eq_some_iff.1 ho
    exact ⟨id, rfl⟩
  | _ => cases ho

/-- **References to a method** in a file are expressions at the places of the file. -/
theorem exists_mem_findings_iff {coverage : Coverage}
    (hall : ∀ around, coverage.encloses around = true) {file : SourceFile} {kind : MatchKind}
    {o : Occurrence} :
    (∃ label, ⟨label, kind, o⟩ ∈ (method handle hierarchy).findings s .references coverage file) ↔
      kind = .reference ∧ ∃ scope locals e, file.StandsAt s scope locals e ∧
        (method handle hierarchy).inExpr? s scope locals e = some o := by
  constructor
  · rintro ⟨label, hfound⟩
    unfold findings at hfound
    split at hfound
    next => cases hfound
    next top htop =>
      rcases List.mem_append.1 hfound with hfound | hfound
      · -- an import names no method
        cases (List.mem_ite_nil_right.1 hfound).2
      · obtain ⟨info, hinfo, hfound⟩ := List.mem_flatMap.1 hfound
        unfold inType at hfound
        split at hfound
        next => cases hfound
        next decl hdecl =>
          obtain ⟨rfl, member, hmember, hplain, locals, e, hplace, ho⟩ :=
            exists_mem_references_iff.1 ⟨label, by simpa [LimitTo.includesDeclarations,
              LimitTo.includesReferences] using hfound⟩
          exact ⟨rfl, _, locals, e, ⟨top, htop, info, (List.mem_filter.1 hinfo).1, rfl, decl, hdecl,
            member, hmember, hplain, hplace⟩, ho⟩
  · rintro ⟨rfl, scope, locals, e, ⟨top, htop, info, hinfo, rfl, decl, hdecl, member, hmember,
      hplain, hplace⟩, ho⟩
    obtain ⟨label, hfound⟩ :
        ∃ label, ⟨label, .reference, o⟩ ∈ (method handle hierarchy).references s
          (top.inside (info.outer.map fun name => ⟨info.key.origin, name⟩))
          (top.inside (some info.key)) info decl :=
      exists_mem_references_iff.2 ⟨rfl, member, hmember, hplain, locals, e, hplace, ho⟩
    refine ⟨label, ?_⟩
    rw [findings, htop]
    refine List.mem_append_right _ (List.mem_flatMap.2
      ⟨info, List.mem_filter.2 ⟨hinfo, hall _⟩, ?_⟩)
    rw [inType, hdecl]
    exact List.mem_append_left _ (List.mem_append_right _ hfound)

end Target

/-! ## The scope of the workspace -/

namespace SearchScope

/-- Projects are added to a draft as the elements that they are. -/
theorem foldlM_addElement {projects : List Project}
    (hprojects : ∀ project ∈ projects, ws.project? project.name = some project)
    (draft : ScopeDraft) :
    (projects.map fun project => Element.project project.name).foldlM
        (ScopeDraft.addElement ws) draft =
      .ok (projects.foldl (ScopeDraft.addWholeProject ws) draft) := by
  induction projects generalizing draft with
  | nil => rfl
  | cons project projects ih =>
    have hfirst : ScopeDraft.addElement ws draft (.project project.name) =
        .ok (ScopeDraft.addWholeProject ws draft project) := by
      rw [ScopeDraft.addElement, hprojects project List.mem_cons_self]
    rw [List.map_cons, List.foldlM_cons, hfirst]
    exact ih (fun other hother => hprojects other (List.mem_cons_of_mem _ hother)) _

theorem project?_of_mem_values (h : ws.FilesInStep) {project : Project}
    (hproject : project ∈ ws.projects.values) : ws.project? project.name = some project := by
  obtain ⟨name, hget⟩ := Table.mem_values_iff.1 hproject
  rw [(h.project_name hget).1]
  exact hget

/-- The documents of all projects. -/
def wholeDocuments (ws : Workspace) : List Document :=
  (ws.projects.values.map fun project => Element.project project.name).flatMap (·.documents ws)

theorem of_mem_wholeDocuments (h : ws.FilesInStep) {doc : Document}
    (hdoc : doc ∈ wholeDocuments ws) : doc.coverage = .all ∧ doc.IsOf ws := by
  obtain ⟨e, he, hdoc⟩ := List.mem_flatMap.1 hdoc
  obtain ⟨project, -, rfl⟩ := List.mem_map.1 he
  exact (Element.of_mem_documents_project h hdoc).2

/-- **The scope of the workspace** is that of all its projects. -/
theorem holds_workspace (h : ws.FilesInStep) : ∃ draft : ScopeDraft,
    (workspace ws).documents = draft.toList ∧ draft.Holds (wholeDocuments ws) := by
  let draft := ws.projects.values.foldl (ScopeDraft.addWholeProject ws) {}
  refine ⟨draft, rfl, ?_⟩
  exact ScopeDraft.holds_empty.foldlM h (foldlM_addElement (fun _ => project?_of_mem_values h) {})

/-- Everything counts in the documents of the workspace. -/
theorem encloses_of_mem_workspace (h : ws.FilesInStep) {doc : Document}
    (hdoc : doc ∈ (workspace ws).documents) (around : List TypeKey) :
    doc.coverage.encloses around = true := by
  obtain ⟨draft, hdocuments, hholds⟩ := holds_workspace h
  rw [hdocuments] at hdoc
  obtain ⟨project, resource, hat⟩ := ScopeDraft.mem_toList_iff.1 hdoc
  obtain ⟨first, hfirst, hplace, -⟩ := hholds.exists_opened hat
  have hmem := Document.mem_of_mem_opened hfirst
  refine hholds.complete hat first hmem hplace (Document.isTakenBy_opened_eq_false hfirst) ?_
  rw [(of_mem_wholeDocuments h hmem).1, Coverage.encloses]

/-- At one place is one of the documents that are added. -/
theorem eq_of_mem_wholeDocuments (h : ws.InStep) {a b : Document} (ha : a ∈ wholeDocuments ws)
    (hb : b ∈ wholeDocuments ws) (hplace : a.IsAt b.project b.resource) : a = b := by
  -- an archive at the place of a file would not count as a whole
  obtain ⟨hall, hof⟩ := of_mem_wholeDocuments h.files ha
  obtain ⟨hall', hof'⟩ := of_mem_wholeDocuments h.files hb
  have hid : a.id = b.id := by
    by_contra hne
    rcases hof.archive_and_source h hof' hplace hne with ⟨_, _, -, -, hpart⟩ | ⟨_, _, -, -, hpart⟩
    · exact hpart hall
    · exact hpart hall'
  exact hplace.eq hid (hall.trans hall'.symm)

/-- **Every parsed file** is a document of the workspace. -/
theorem exists_document_workspace (h : ws.InStep) {file : FileId} {source : SourceFile}
    (hsource : ws.source? file = some source) :
    ∃ doc ∈ (workspace ws).documents, doc.id = .source file ∧
      doc.IsAt source.project source.path := by
  obtain ⟨draft, hdocuments, hholds⟩ := holds_workspace h.files
  obtain ⟨project, hproject, hunit⟩ := h.files.exists_mem_parsedUnits hsource
  have hname := (h.files.project_name hproject).1
  have hwhole : Document.ofSource source .all ∈ wholeDocuments ws := by
    refine List.mem_flatMap.2 ⟨.project project.name,
      List.mem_map_of_mem (Table.mem_values_iff.2 ⟨_, hproject⟩), ?_⟩
    rw [hname, Element.documents_project hproject]
    exact List.mem_append_left _ (List.mem_map_of_mem hunit)
  obtain ⟨first, hfirst, hplace⟩ :=
    (Document.exists_opened_or_isTakenBy hwhole).resolve_right Bool.false_ne_true
  obtain ⟨found, hfound, hsame⟩ := hholds.exists_at? hfirst
  rw [hplace.1, hplace.2] at hfound
  refine ⟨found, ?_, ?_, hholds.isAt hfound⟩
  · rw [hdocuments]
    exact ScopeDraft.mem_toList_iff.2 ⟨_, _, hfound⟩
  · rw [hsame, eq_of_mem_wholeDocuments h (Document.mem_of_mem_opened hfirst) hwhole hplace,
      Document.ofSource, h.files.source_id hsource]

end SearchScope

/-! ## Searches -/

/-- A match tells an exact reference at a range of a file. -/
structure Match.IsExactReference (found : Match) (file : FileId) (range : TextRange) : Prop where
  file : found.file = some file
  range : found.range = some range
  accuracy : found.accuracy = .exact
  kind : found.kind = .reference

namespace Searchable

/-- The pattern of a declared method has a target. -/
theorem ofPattern_of_declared (h : ws.InStep) {key : TypeKey} {info : DeclaredType}
    (hinfo : ws.declared? key = some info) {m : DeclaredMethod} (hm : m ∈ info.methods) :
    Target.ofPattern (.ofWorkspace ws) ⟨.method (m.handle key), .references⟩ =
      .ok (.method (m.handle key) ((BoundWorkspace.ofWorkspace ws).hierarchy key)) := by
  refine Target.ofPattern_eq_ok_iff.2 ⟨?_, fun heq => by cases heq⟩
  have hhas : info.hasMethod (m.handle key) = true := by
    refine Bool.or_eq_true_iff.2 (Or.inl (List.any_eq_true.2 ⟨m, hm, ?_⟩))
    rw [(h.of_declared? hinfo).1]
    exact beq_self_eq_true _
  have hdeclared : ((BoundWorkspace.ofWorkspace ws).declared? key).any
      (·.hasMethod (m.handle key)) = true := by
    rw [show (BoundWorkspace.ofWorkspace ws).declared? key = some info from hinfo]
    exact hhas
  exact if_pos hdeclared

/-- A reference to a method that counts in a document is found there. -/
theorem exists_mem_locate (hover : s.IsOver ws) {doc : Document} {file : FileId}
    {source : SourceFile} (hid : doc.id = .source file) (hsource : ws.source? file = some source)
    (hall : ∀ around, doc.coverage.encloses around = true) {scope : NameScope} {locals : Locals}
    {e : Expr} {o : Occurrence} (hstands : source.StandsAt s scope locals e)
    (ho : (Target.method handle hierarchy).inExpr? s scope locals e = some o) :
    ∃ label, Target.sourceMatch doc source ⟨label, .reference, o⟩ ∈
      locate s (.method handle hierarchy) .references doc := by
  obtain ⟨label, hfound⟩ :=
    (Target.exists_mem_findings_iff hall).2 ⟨rfl, scope, locals, e, hstands, ho⟩
  refine ⟨label, ?_⟩
  unfold locate
  rw [hid]
  simp only [hover.workspace, hsource]
  exact List.mem_map_of_mem hfound

/-- What is found of a method in documents that count as a whole is found at a place of a file. -/
theorem exists_standsAt_of_mem_locate (hover : s.IsOver ws) (h : ws.FilesInStep) {doc : Document}
    (hall : ∀ around, doc.coverage.encloses around = true) {found : Match}
    (hfound : found ∈ locate s (.method handle hierarchy) .references doc) :
    ∃ file source, ws.source? file = some source ∧ found.file = some file ∧
      ∃ scope locals e o, source.StandsAt s scope locals e ∧
        (Target.method handle hierarchy).inExpr? s scope locals e = some o ∧
        found.range = some o.range := by
  unfold locate at hfound
  rw [hover.workspace] at hfound
  split at hfound
  next file _ =>
    split at hfound
    next source hsource =>
      obtain ⟨⟨label, kind, o⟩, hfinding, rfl⟩ := List.mem_map.1 hfound
      obtain ⟨rfl, scope, locals, e, hstands, ho⟩ :=
        (Target.exists_mem_findings_iff hall).1 ⟨label, hfinding⟩
      refine ⟨file, source, hsource, ?_, scope, locals, e, o, hstands, ho, rfl⟩
      exact congrArg some (h.source_id hsource)
    next => cases hfound
  next id _ =>
    -- an archive has no references
    split at hfound
    next archive _ =>
      obtain ⟨info, -, hfound⟩ := List.mem_flatMap.1 hfound
      cases hfound
    next => cases hfound

/-- **Every call that binds to a method** with another name than its type is found. -/
theorem exists_mem_search_of_binds (h : ws.InStep) (hplain : handle.isConstructor = false)
    {found : List Match}
    (htarget : Target.ofPattern (.ofWorkspace ws) ⟨.method handle, .references⟩ =
      .ok (.method handle hierarchy))
    (hfound : (ofWorkspace ws).search ⟨.method handle, .references⟩ (.workspace ws) = .ok found)
    {file : FileId} {source : SourceFile} (hsource : ws.source? file = some source)
    {scope : NameScope} {locals : Locals} {receiver : Option Expr} {name : Ident}
    {args : List Expr} {range : TextRange}
    (hstands : source.StandsAt (.ofWorkspace ws) scope locals ⟨.call receiver name args, range⟩)
    {binding : BoundMethod}
    (hbinds : ((BoundWorkspace.ofWorkspace ws).call scope locals receiver name args).method =
      some binding) (hhandle : binding.handle = handle) :
    ∃ reference ∈ found,
      reference.IsExactReference file (.upTo name.range.start range.stop) := by
  have hover := BoundWorkspace.isOver_ofWorkspace ws
  have hseeks : (SearchPattern.mk (.method handle) .references).seeksConstructor = false := hplain
  rw [search_eq_ok_of_ofPattern h (fun hlimit => by cases hlimit) hseeks htarget] at hfound
  obtain rfl := Except.ok.inj hfound
  obtain ⟨doc, hdoc, hid, -⟩ := SearchScope.exists_document_workspace h hsource
  obtain ⟨label, hlocated⟩ := exists_mem_locate hover hid hsource
    (SearchScope.encloses_of_mem_workspace h.files hdoc) hstands
    (Target.inCall?_of_binds hplain hbinds hhandle)
  exact ⟨_, List.mem_flatMap.2 ⟨doc, hdoc, List.mem_mergeSort.2 hlocated⟩,
    congrArg some (h.files.source_id hsource), rfl, rfl, rfl⟩

/-- **Nothing that is found is a call** where a method is named like its type. -/
theorem not_isCall_of_mem_search (h : ws.InStep) (hconstructor : handle.isConstructor = true)
    {found : List Match}
    (htarget : Target.ofPattern (.ofWorkspace ws) ⟨.method handle, .references⟩ =
      .ok (.method handle hierarchy))
    (hfound : (ofWorkspace ws).search ⟨.method handle, .references⟩ (.workspace ws) = .ok found)
    {reference : Match} (hreference : reference ∈ found) :
    ∃ file source, ws.source? file = some source ∧ reference.file = some file ∧
      ∃ scope locals e, source.StandsAt (.ofWorkspace ws) scope locals e ∧ ¬e.IsCall ∧
        reference.range = some e.range := by
  rw [search_ofWorkspace, htarget] at hfound
  obtain rfl := Except.ok.inj hfound
  obtain ⟨doc, hdoc, hlocated⟩ := List.mem_flatMap.1 hreference
  obtain ⟨file, source, hsource, hfile, scope, locals, e, o, hstands, ho, hrange⟩ :=
    exists_standsAt_of_mem_locate (BoundWorkspace.isOver_ofWorkspace ws) h.files
      (SearchScope.encloses_of_mem_workspace h.files (List.mem_filter.1 hdoc).1)
      (List.mem_mergeSort.1 hlocated)
  obtain ⟨hcall, heq⟩ := Target.not_isCall_of_inExpr? hconstructor ho
  exact ⟨file, source, hsource, hfile, scope, locals, e, hstands, hcall, heq ▸ hrange⟩

/-- **A search for the references to a method** in the workspace. Every call of every parsed file
stands at a place with locals. If the method has another name than its type, all calls that bind to
it there are found, exact, from the name to the end of the call. If it is named like its type,
nothing that is found is a call. -/
theorem search_calls_afterAll (edits : List Edit) {key : TypeKey} {info : DeclaredType}
    {m : DeclaredMethod} (hinfo : (Workspace.initial.afterAll edits).declared? key = some info)
    (hm : m ∈ info.methods) :
    let ws := Workspace.initial.afterAll edits
    let s := BoundWorkspace.ofWorkspace ws
    (∀ file source unit, ws.source? file = some source → source.unit? = some unit →
      ∀ call : Expr, call.IsCall → Node.expr call ∈ Walk.unit unit →
        ∃ scope locals, source.StandsAt s scope locals call) ∧
    ∃ found, (ofWorkspace ws).search ⟨.method (m.handle key), .references⟩ (.workspace ws) =
        .ok found ∧
      (m.name ≠ key.simpleName → ∀ file source, ws.source? file = some source →
        ∀ scope locals receiver name args range,
          source.StandsAt s scope locals ⟨.call receiver name args, range⟩ →
          ∀ binding, (s.call scope locals receiver name args).method = some binding →
            binding.handle = m.handle key →
            ∃ reference ∈ found,
              reference.IsExactReference file (.upTo name.range.start range.stop)) ∧
      (m.name = key.simpleName → ∀ reference ∈ found, ∃ file source,
        ws.source? file = some source ∧ reference.file = some file ∧
        ∃ scope locals e, source.StandsAt s scope locals e ∧ ¬e.IsCall ∧
          reference.range = some e.range) := by
  intro ws s
  have h := Workspace.inStep_afterAll edits
  have hover := BoundWorkspace.isOver_ofWorkspace ws
  have htarget := ofPattern_of_declared h hinfo hm
  obtain ⟨found, hfound⟩ : ∃ found, (ofWorkspace ws).search
      ⟨.method (m.handle key), .references⟩ (.workspace ws) = .ok found := by
    rw [search_ofWorkspace, htarget]
    exact ⟨_, rfl⟩
  refine ⟨?_, found, hfound, ?_, ?_⟩
  · intro file source unit hsource hunit call hcall hmem
    obtain ⟨env, htop⟩ := hover.exists_scope? h.files hsource hunit
    exact SourceFile.exists_standsAt htop (h.files.types_eq hsource hunit) hcall hmem
  · intro hname file source hsource scope locals receiver name args range hstands binding hbinds
      hhandle
    have hplain : (m.handle key).isConstructor = false := beq_eq_false_iff_ne.2 hname
    exact exists_mem_search_of_binds h hplain htarget hfound hsource hstands hbinds hhandle
  · intro hname reference hreference
    have hconstructor : (m.handle key).isConstructor = true := beq_iff_eq.2 hname
    exact not_isCall_of_mem_search h hconstructor htarget hfound hreference

/-- A class with a method of its own name, which another method calls. -/
def namesakeText : String := "class X \x7b void X() \x7b\x7d void m() \x7b X(); \x7d \x7d"

/-- A project with the class. -/
def namesakeMethod : List Edit :=
  [.createProject ⟨"P", [""], [], none⟩, .createFile "/P/X.java" namesakeText]

/-- Whether a node is a call of something by its name alone, without arguments. -/
def callsPlainly (text : String) : Node → Bool
  | .expr ⟨.call none name [], _⟩ => name.text == text
  | _ => false

/-- The call binds to the method, and who asks for the references to the method finds no call. -/
theorem search_misses_call_of_namesake :
    let ws := Workspace.initial.afterAll namesakeMethod
    let s := BoundWorkspace.ofWorkspace ws
    ∃ info m source scope locals name range binding found,
      ws.declared? ⟨.source ⟨0⟩, "X"⟩ = some info ∧ m ∈ info.methods ∧ m.isConstructor = false ∧
      ws.source? ⟨0⟩ = some source ∧
      source.StandsAt s scope locals ⟨.call none name [], range⟩ ∧
      (s.call scope locals none name []).method = some binding ∧
      binding.handle = m.handle ⟨.source ⟨0⟩, "X"⟩ ∧
      (ofWorkspace ws).search ⟨.method (m.handle ⟨.source ⟨0⟩, "X"⟩), .references⟩
        (.workspace ws) = .ok found ∧
      ∀ reference ∈ found, ∃ file source, ws.source? file = some source ∧
        reference.file = some file ∧ ∃ scope locals e, source.StandsAt s scope locals e ∧
          ¬e.IsCall ∧ reference.range = some e.range := by
  intro ws s
  have h := Workspace.inStep_afterAll namesakeMethod
  obtain ⟨source, hsource, htypes, hdeclared, hwalk⟩ : ∃ source : SourceFile,
      ws.source? ⟨0⟩ = some source ∧
      (∀ info ∈ source.types, info.key = ⟨.source ⟨0⟩, "X"⟩) ∧
      (source.declared? "X").any (fun info =>
        (BoundWorkspace.ownMethod? info "X" []).any fun m =>
          decide (m ∈ info.methods) && !m.isConstructor && m.name == "X") = true ∧
      source.unit?.any (fun unit => (Walk.unit unit).any (callsPlainly "X")) = true := by
    refine ⟨.ofText ⟨0⟩ "P" "X.java" namesakeText, h.files.source_iff.2
      ⟨"P", "X.java", namesakeText, ?_, ?_, ?_, rfl⟩, ?_, ?_, ?_⟩
    all_goals decide +kernel
  obtain ⟨info, hlisted, hown⟩ := (Option.any_eq_true _ _).1 hdeclared
  obtain ⟨m, hm, hfacts⟩ := (Option.any_eq_true _ _).1 hown
  simp only [Bool.and_eq_true, decide_eq_true_eq, Bool.not_eq_true', beq_iff_eq] at hfacts
  obtain ⟨⟨hmem, hplain⟩, hname⟩ := hfacts
  have hinfo : ws.declared? ⟨.source ⟨0⟩, "X"⟩ = some info := by
    simp only [Workspace.declared?, hsource, Option.bind_some, hlisted]
  obtain ⟨unit, hunit, hnodes⟩ := (Option.any_eq_true _ _).1 hwalk
  obtain ⟨node, hnode, hcall⟩ := List.any_eq_true.1 hnodes
  unfold callsPlainly at hcall
  split at hcall
  next name range =>
    obtain ⟨hplaces, found, hfound, -, hnone⟩ := search_calls_afterAll namesakeMethod hinfo hmem
    have hiscall : Expr.IsCall ⟨.call none name [], range⟩ := True.intro
    obtain ⟨scope, locals, hstands⟩ := hplaces ⟨0⟩ source unit hsource hunit _ hiscall hnode
    have henclosing : scope.enclosing = some ⟨.source ⟨0⟩, "X"⟩ := by
      obtain ⟨top, -, around, haround, rfl, -⟩ := hstands
      exact congrArg some (htypes around haround)
    have hbinds : (s.call scope locals none name []).method = some ⟨info, m⟩ := by
      refine BoundWorkspace.call_of_own (BoundWorkspace.chainLimit_pos ws) henclosing hinfo ?_
      rw [BoundWorkspace.types, eq_of_beq hcall]
      exact hm
    have hkey : info.key = ⟨.source ⟨0⟩, "X"⟩ := htypes info (List.mem_of_find?_eq_some hlisted)
    have hsimple : m.name = TypeKey.simpleName ⟨.source ⟨0⟩, "X"⟩ := by
      rw [hname]
      decide +kernel
    exact ⟨info, m, source, scope, locals, name, range, ⟨info, m⟩, found, hinfo, hmem, hplain,
      hsource, hstands, hbinds, congrArg m.handle hkey, hfound, hnone hsimple⟩
  next => cases hcall

end Searchable

end SourceSearch
