import SourceSearch.Proofs.ElementDocuments

/-!
# Scopes of several elements

The scope of several elements holds what has become of their documents (`holds_of_ofElements`).
Alone an element covers what its documents cover. Together, elements cover what each of them covers
alone, but for archives (`ofElements_isUnion_iff`): an archive stays with the project of the first
element that brings it in, and what others cover in it from another project is left out. And where
an archive has the path of a source file of the project, the first of the two that comes stands for
both.
-/

set_option autoImplicit false

namespace SourceSearch

variable {ws : Workspace} {draft next : ScopeDraft} {docs : List Document}

namespace ScopeDraft

open Document Element

/-! ## Adding elements -/

theorem Holds.addSource (h : draft.Holds docs) (source : SourceFile) (coverage : Coverage) :
    (draft.addSource source coverage).Holds (docs ++ [.ofSource source coverage]) :=
  (h.addProject source.project).add _

/-- The units of a project are added one by one, and then its archives. An archive at the path of a
unit adds nothing to the unit. -/
theorem Holds.addWholeProject (hws : ws.FilesInStep) (h : draft.Holds docs) {name : String}
    {project : Project} (hproject : ws.project? name = some project) :
    (addWholeProject ws draft project).Holds (docs ++ Element.documents ws (.project name)) := by
  let units := (project.parsedUnits ws.sources).map (Document.ofSource · .all)
  have hunits : ((project.parsedUnits ws.sources).foldl (·.addSource · .all)
      (draft.addProject project.name)).Holds (docs ++ units) := by
    have hfold := Holds.foldl [] (fun source => [Document.ofSource source .all])
      (fun source _ hdraft => hdraft.addSource source .all) (project.parsedUnits ws.sources)
      (h.addProject project.name) (List.nil_subset _)
    rwa [← List.map_eq_flatMap] at hfold
  rw [documents_project hproject, ← List.append_assoc]
  refine Holds.foldl units _ ?_ _ hunits (List.subset_append_right _ _)
  intro draft docs archive hknown hdraft
  unfold libraryDocuments
  split
  next hany =>
    obtain ⟨source, hsource, hpath⟩ := List.any_eq_true.1 hany
    have hwhole : Document.ofSource source .all ∈ docs := hknown (List.mem_map_of_mem hsource)
    have hin : source.project = project.name :=
      ((hws.mem_parsedUnits_iff hproject).1 hsource).2.trans (hws.project_name hproject).1.symm
    rw [List.append_nil]
    exact hdraft.add_of_whole hwhole rfl rfl ⟨hin, beq_iff_eq.1 hpath⟩
  next => exact hdraft.add _

theorem Holds.addType (h : draft.Holds docs) {key : TypeKey}
    (hnext : addType ws draft key = .ok next) : next.Holds (docs ++ typeDocuments ws key) := by
  have hsame : docs ++ [] = docs := List.append_nil docs
  unfold ScopeDraft.addType at hnext
  split at hnext
  next => cases hnext
  next =>
    cases horigin : key.origin with
    | source file =>
      simp only [typeDocuments, fileDocuments, horigin] at hnext ⊢
      cases hsource : ws.source? file with
      | none =>
        simp only [hsource, Except.ok.injEq] at hnext
        rw [Option.toList_none, List.map_nil, hsame, ← hnext]
        exact h
      | some source =>
        simp only [hsource, Option.toList_some, List.map_cons, List.map_nil,
          Except.ok.injEq] at hnext ⊢
        rw [← hnext]
        exact h.addSource source _
    | archive id =>
      simp only [typeDocuments, horigin] at hnext ⊢
      cases hholder : holderOf? ws id ws.projects.keys with
      | none =>
        simp only [hholder, Except.ok.injEq] at hnext ⊢
        rw [hsame, ← hnext]
        exact h
      | some holder =>
        cases harchive : ws.archive? id with
        | none =>
          simp only [hholder, harchive, Except.ok.injEq] at hnext ⊢
          rw [hsame, ← hnext]
          exact h
        | some archive =>
          simp only [hholder, harchive, Except.ok.injEq] at hnext ⊢
          rw [← hnext]
          exact (h.addProject holder).add _

/-- **Adding an element** adds its documents. -/
theorem Holds.addElement (hws : ws.FilesInStep) (h : draft.Holds docs) {e : Element}
    (hnext : addElement ws draft e = .ok next) : next.Holds (docs ++ e.documents ws) := by
  cases e with
  | project name =>
    simp only [ScopeDraft.addElement] at hnext
    split at hnext
    next project hproject =>
      obtain rfl := Except.ok.inj hnext
      exact h.addWholeProject hws hproject
    next => cases hnext
  | unit file =>
    simp only [ScopeDraft.addElement] at hnext
    split at hnext
    next source hsource =>
      obtain rfl := Except.ok.inj hnext
      simp only [Element.documents, fileDocuments, hsource, Option.toList_some, List.map_cons,
        List.map_nil]
      exact h.addSource source .all
    next => cases hnext
  | type key => exact h.addType hnext
  | method handle => exact h.addType hnext
  | field handle => exact h.addType hnext

/-- Whether a type can be added does not depend on what is there. -/
theorem exists_addType {key : TypeKey} (h : addType ws draft key = .ok next) (other : ScopeDraft) :
    ∃ found, addType ws other key = .ok found := by
  unfold ScopeDraft.addType at h ⊢
  split at h
  next => cases h
  next hknown =>
    rw [if_neg hknown]
    split
    next => split <;> exact ⟨_, rfl⟩
    next => split <;> exact ⟨_, rfl⟩

/-- Whether an element can be added does not depend on what is there. -/
theorem exists_addElement {e : Element} (h : addElement ws draft e = .ok next)
    (other : ScopeDraft) : ∃ found, addElement ws other e = .ok found := by
  cases e with
  | project name =>
    simp only [ScopeDraft.addElement] at h ⊢
    split at h
    next => exact ⟨_, rfl⟩
    next => cases h
  | unit file =>
    simp only [ScopeDraft.addElement] at h ⊢
    split at h
    next => exact ⟨_, rfl⟩
    next => cases h
  | type key => exact exists_addType h other
  | method handle => exact exists_addType h other
  | field handle => exact exists_addType h other

/-- **A run over elements** adds the documents of each of them. -/
theorem Holds.foldlM (hws : ws.FilesInStep) (h : draft.Holds docs) {elements : List Element}
    (hnext : elements.foldlM (ScopeDraft.addElement ws) draft = .ok next) :
    next.Holds (docs ++ elements.flatMap (·.documents ws)) := by
  induction elements generalizing draft docs with
  | nil =>
    obtain rfl : draft = next := Except.ok.inj hnext
    simpa using h
  | cons e elements ih =>
    rw [List.foldlM_cons] at hnext
    obtain ⟨middle, hmiddle, hnext⟩ := bind_eq_ok_iff.1 hnext
    rw [List.flatMap_cons, ← List.append_assoc]
    exact ih (h.addElement hws hmiddle) hnext

/-- Each element of a run can be added alone. -/
theorem exists_of_foldlM {elements : List Element}
    (hnext : elements.foldlM (addElement ws) draft = .ok next) {e : Element} (he : e ∈ elements)
    (other : ScopeDraft) : ∃ found, addElement ws other e = .ok found := by
  induction elements generalizing draft with
  | nil => cases he
  | cons first elements ih =>
    rw [List.foldlM_cons] at hnext
    obtain ⟨middle, hmiddle, hnext⟩ := bind_eq_ok_iff.1 hnext
    rcases List.mem_cons.1 he with rfl | he
    · exact exists_addElement hmiddle other
    · exact ih hnext he

end ScopeDraft

/-! ## What elements cover -/

namespace Document

/-- A document covers the code directly in a type. -/
def Encloses (s : BoundWorkspace) (key : TypeKey) (doc : Document) : Prop :=
  doc.id = key.origin.document ∧ doc.coverage.encloses (s.enclosingChain (some key)) = true

/-- A document comes too late: it is an archive that stays with another project, or something else
has opened its place. -/
def IsLate (docs : List Document) (doc : Document) : Prop :=
  doc.isTakenBy (opened docs) = true ∨
    ∃ first ∈ opened docs, first.IsAt doc.project doc.resource ∧ first.id ≠ doc.id

/-- At the place that a file or archive has opened is something else that is whole, and the file or
archive counts for it. -/
def StandsForWhole (docs : List Document) (id : DocumentId) : Prop :=
  ∃ first ∈ opened docs, first.id = id ∧
    ∃ doc ∈ docs, doc.IsAt first.project first.resource ∧ doc.id ≠ id ∧ doc.coverage = .all

end Document

namespace Element

/-- Some document of the elements covers the code directly in a type. -/
def Cover (s : BoundWorkspace) (elements : List Element) (key : TypeKey) : Prop :=
  ∃ doc ∈ elements.flatMap (·.documents s.workspace), doc.Encloses s key

/-- The elements leave a type out that some of them cover: all documents that cover it come too
late. -/
def LeaveOut (s : BoundWorkspace) (elements : List Element) (key : TypeKey) : Prop :=
  Cover s elements key ∧
    (∀ doc ∈ elements.flatMap (·.documents s.workspace), doc.Encloses s key →
      doc.IsLate (elements.flatMap (·.documents s.workspace))) ∧
    ¬Document.StandsForWhole (elements.flatMap (·.documents s.workspace)) key.origin.document

/-- The elements take a type in that none of them covers: its archive stands for a whole source
file. -/
def TakeIn (s : BoundWorkspace) (elements : List Element) (key : TypeKey) : Prop :=
  ¬Cover s elements key ∧
    Document.StandsForWhole (elements.flatMap (·.documents s.workspace)) key.origin.document

end Element

namespace SearchScope

open Element

variable {s : BoundWorkspace} {elements : List Element} {scope : SearchScope}

/-- The scope of elements holds their documents. -/
theorem holds_of_ofElements (h : ws.FilesInStep) (hscope : ofElements ws elements = .ok scope) :
    ∃ draft : ScopeDraft, scope.documents = draft.toList ∧
      draft.Holds (elements.flatMap (·.documents ws)) := by
  obtain ⟨draft, hdraft, hfinish⟩ := bind_eq_ok_iff.1 hscope
  obtain rfl := Except.ok.inj hfinish
  exact ⟨draft, rfl, ScopeDraft.holds_empty.foldlM h hdraft⟩

theorem isOf_of_mem_flatMap (h : ws.FilesInStep) {doc : Document}
    (hdoc : doc ∈ elements.flatMap (·.documents ws)) : doc.IsOf ws := by
  obtain ⟨e, -, hdoc⟩ := List.mem_flatMap.1 hdoc
  exact isOf_of_mem_documents h hdoc

/-- What the scope of elements covers, a document covers that does not come too late, or the type is
in an archive that stands for a whole source file. -/
theorem of_enclosesType (h : ws.InStep) (hscope : ofElements ws elements = .ok scope)
    {key : TypeKey} (hencloses : scope.enclosesType s key = true) :
    (∃ doc ∈ elements.flatMap (·.documents ws), doc.Encloses s key ∧
        ¬doc.IsLate (elements.flatMap (·.documents ws))) ∨
      Document.StandsForWhole (elements.flatMap (·.documents ws)) key.origin.document := by
  obtain ⟨draft, hdocuments, hdraft⟩ := holds_of_ofElements h.files hscope
  rw [enclosesType, hdocuments, List.any_eq_true] at hencloses
  obtain ⟨found, hfound, hkey⟩ := hencloses
  rw [Bool.and_eq_true, beq_iff_eq] at hkey
  obtain ⟨project, resource, hat⟩ := ScopeDraft.mem_toList_iff.1 hfound
  obtain ⟨first, hfirst, hplace, hid⟩ := hdraft.exists_opened hat
  obtain ⟨doc, hdoc, hplace', hcovers⟩ := hdraft.sound hat hkey.2
  by_cases hsame : doc.id = key.origin.document
  · refine Or.inl ⟨doc, hdoc, ⟨hsame, hcovers⟩, ?_⟩
    rintro (htaken | ⟨other, hother, hplaceOther, hne⟩)
    · have hfree := Document.isTakenBy_opened_eq_false hfirst
      rw [Bool.eq_false_iff] at hfree
      obtain ⟨⟨id, harchive⟩, d, hd, hid', hproject⟩ := Document.isTakenBy_iff.1 htaken
      have hfirstId : first.id = doc.id := by rw [hid, hkey.1, hsame]
      apply hfree
      refine Document.isTakenBy_iff.2 ⟨⟨id, hfirstId.trans harchive⟩, d, hd, ?_, ?_⟩
      · rw [hid', hfirstId]
      · rwa [hplace.1, ← hplace'.1]
    · have heq : other = first := Document.eq_of_mem_opened hother hfirst
        ⟨hplaceOther.1.trans (hplace'.1.trans hplace.1.symm),
          hplaceOther.2.trans (hplace'.2.trans hplace.2.symm)⟩
      rw [heq, hid, hkey.1, hsame] at hne
      exact hne rfl
  · right
    have hwhole := ((isOf_of_mem_flatMap h.files hdoc).id_eq_or_whole hcovers).resolve_left hsame
    exact ⟨first, hfirst, hid.trans hkey.1, doc, hdoc,
      ⟨hplace'.1.trans hplace.1.symm, hplace'.2.trans hplace.2.symm⟩, hsame, hwhole⟩

/-- What a document covers that does not come too late is in the scope. -/
theorem enclosesType_of_not_isLate (h : ws.InStep) (hscope : ofElements ws elements = .ok scope)
    {key : TypeKey} {doc : Document} (hdoc : doc ∈ elements.flatMap (·.documents ws))
    (hencloses : doc.Encloses s key) (hlate : ¬doc.IsLate (elements.flatMap (·.documents ws))) :
    scope.enclosesType s key = true := by
  obtain ⟨draft, hdocuments, hdraft⟩ := holds_of_ofElements h.files hscope
  have hfree : doc.isTakenBy (Document.opened (elements.flatMap (·.documents ws))) = false :=
    Bool.eq_false_iff.2 fun htaken => hlate (Or.inl htaken)
  obtain ⟨first, hfirst, hplace⟩ := (Document.exists_opened_or_isTakenBy hdoc).resolve_right
    (by simp [hfree])
  obtain ⟨found, hat, hid⟩ := hdraft.exists_at? hfirst
  have hsame : first.id = doc.id :=
    Classical.not_not.1 fun hne => hlate (Or.inr ⟨first, hfirst, hplace, hne⟩)
  rw [hplace.1, hplace.2] at hat
  rw [enclosesType, hdocuments, List.any_eq_true]
  refine ⟨found, ScopeDraft.mem_toList_iff.2 ⟨_, _, hat⟩, ?_⟩
  rw [Bool.and_eq_true, beq_iff_eq]
  exact ⟨hid.trans (hsame.trans hencloses.1),
    hdraft.complete hat doc hdoc ⟨rfl, rfl⟩ hfree hencloses.2⟩

/-- All types of an archive that stands for a whole source file are in the scope. -/
theorem enclosesType_of_standsForWhole (h : ws.InStep)
    (hscope : ofElements ws elements = .ok scope) {key : TypeKey}
    (hstands : Document.StandsForWhole (elements.flatMap (·.documents ws)) key.origin.document) :
    scope.enclosesType s key = true := by
  obtain ⟨draft, hdocuments, hdraft⟩ := holds_of_ofElements h.files hscope
  obtain ⟨first, hfirst, hid, doc, hdoc, hplace, hne, hwhole⟩ := hstands
  obtain ⟨found, hat, hfound⟩ := hdraft.exists_at? hfirst
  have hfree : doc.isTakenBy (Document.opened (elements.flatMap (·.documents ws))) = false := by
    have hkinds := (isOf_of_mem_flatMap h.files hdoc).archive_and_source h
      (isOf_of_mem_flatMap h.files (Document.mem_of_mem_opened hfirst)) hplace (by rwa [hid])
    rcases hkinds with ⟨_, _, -, -, hpart⟩ | ⟨_, file, -, hfile, -⟩
    · exact absurd hwhole hpart
    · rw [Document.isTakenBy, hfile]
  rw [enclosesType, hdocuments, List.any_eq_true]
  refine ⟨found, ScopeDraft.mem_toList_iff.2 ⟨_, _, hat⟩, ?_⟩
  rw [Bool.and_eq_true, beq_iff_eq]
  refine ⟨hfound.trans hid, hdraft.complete hat doc hdoc hplace hfree ?_⟩
  rw [hwhole, Coverage.encloses]

/-- **What elements cover together** is what those of their documents cover that do not come too
late, and all of an archive that stands for a whole source file. -/
theorem enclosesType_iff (h : ws.InStep) (hscope : ofElements ws elements = .ok scope)
    (key : TypeKey) :
    scope.enclosesType s key = true ↔
      (∃ doc ∈ elements.flatMap (·.documents ws), doc.Encloses s key ∧
          ¬doc.IsLate (elements.flatMap (·.documents ws))) ∨
        Document.StandsForWhole (elements.flatMap (·.documents ws)) key.origin.document := by
  refine ⟨of_enclosesType h hscope, ?_⟩
  rintro (⟨doc, hdoc, hencloses, hlate⟩ | hstands)
  · exact enclosesType_of_not_isLate h hscope hdoc hencloses hlate
  · exact enclosesType_of_standsForWhole h hscope hstands

/-- At one place of an element is one document. -/
theorem id_eq_of_mem_documents (h : ws.InStep) {e : Element} {a b : Document}
    (ha : a ∈ e.documents ws) (hb : b ∈ e.documents ws) (hplace : a.IsAt b.project b.resource) :
    a.id = b.id := by
  by_contra hne
  have hkinds := (isOf_of_mem_documents h.files ha).archive_and_source h
    (isOf_of_mem_documents h.files hb) hplace hne
  rcases eq_or_whole_of_mem_documents h.files ha hb with rfl | ⟨-, hall, hall'⟩
  · exact hne rfl
  · rcases hkinds with ⟨_, _, -, -, hpart⟩ | ⟨_, _, -, -, hpart⟩
    · exact hpart hall
    · exact hpart hall'

/-- **What an element covers alone** is what its documents cover, as none of them comes too late. -/
theorem enclosesType_singleton_iff (h : ws.InStep) {e : Element}
    (hscope : ofElements ws [e] = .ok scope) (key : TypeKey) :
    scope.enclosesType s key = true ↔ ∃ doc ∈ e.documents ws, doc.Encloses s key := by
  rw [enclosesType_iff h hscope, List.flatMap_singleton]
  constructor
  · rintro (⟨doc, hdoc, hencloses, -⟩ | ⟨first, hfirst, hid, doc, hdoc, hplace, hne, -⟩)
    · exact ⟨doc, hdoc, hencloses⟩
    · have heq := id_eq_of_mem_documents h hdoc (Document.mem_of_mem_opened hfirst) hplace
      exact absurd (heq.trans hid) hne
  · rintro ⟨doc, hdoc, hencloses⟩
    refine Or.inl ⟨doc, hdoc, hencloses, ?_⟩
    rintro (htaken | ⟨first, hfirst, hplace, hne⟩)
    · obtain ⟨-, other, hother, -, hproject⟩ := Document.isTakenBy_iff.1 htaken
      rcases eq_or_whole_of_mem_documents h.files (Document.mem_of_mem_opened hother) hdoc with
        rfl | ⟨heq, -⟩
      · exact hproject rfl
      · exact hproject heq
    · exact hne (id_eq_of_mem_documents h (Document.mem_of_mem_opened hfirst) hdoc hplace)

/-- What some element covers alone is what some document of the elements covers. -/
theorem exists_element_iff (h : ws.InStep) (hscope : ofElements ws elements = .ok scope)
    (key : TypeKey) :
    (∃ e ∈ elements, ∃ single, ofElements ws [e] = .ok single ∧ single.enclosesType s key = true) ↔
      ∃ doc ∈ elements.flatMap (·.documents ws), doc.Encloses s key := by
  constructor
  · rintro ⟨e, he, single, hsingle, hencloses⟩
    obtain ⟨doc, hdoc, hkey⟩ := (enclosesType_singleton_iff h hsingle key).1 hencloses
    exact ⟨doc, List.mem_flatMap.2 ⟨e, he, hdoc⟩, hkey⟩
  · rintro ⟨doc, hdoc, hkey⟩
    obtain ⟨e, he, hdoc⟩ := List.mem_flatMap.1 hdoc
    obtain ⟨draft, hdraft, -⟩ := bind_eq_ok_iff.1 hscope
    obtain ⟨found, hfound⟩ := ScopeDraft.exists_of_foldlM hdraft he {}
    have hsingle : ofElements ws [e] = .ok (found.finish .elements) := by
      rw [ofElements, List.foldlM_cons, hfound]
      rfl
    exact ⟨e, he, _, hsingle, (enclosesType_singleton_iff h hsingle key).2 ⟨doc, hdoc, hkey⟩⟩

/-- The scope of elements is the union of their scopes at a type unless they leave the type out or
take it in. -/
theorem enclosesType_iff_union_iff (h : ws.InStep) (hs : s.workspace = ws)
    (hscope : ofElements ws elements = .ok scope) (key : TypeKey) :
    (scope.enclosesType s key = true ↔ ∃ e ∈ elements, ∃ single,
        ofElements ws [e] = .ok single ∧ single.enclosesType s key = true) ↔
      ¬LeaveOut s elements key ∧ ¬TakeIn s elements key := by
  subst hs
  rw [exists_element_iff h hscope, enclosesType_iff h hscope]
  constructor
  · intro hunion
    constructor
    · rintro ⟨hcover, hlate, hnot⟩
      rcases hunion.2 hcover with ⟨doc, hdoc, hencloses, hintime⟩ | hstands
      · exact hintime (hlate doc hdoc hencloses)
      · exact hnot hstands
    · rintro ⟨hnone, hstands⟩
      exact hnone (hunion.1 (Or.inr hstands))
  · rintro ⟨hleave, htake⟩
    constructor
    · rintro (⟨doc, hdoc, hencloses, -⟩ | hstands)
      · exact ⟨doc, hdoc, hencloses⟩
      · by_contra hnone
        exact htake ⟨hnone, hstands⟩
    · intro hcover
      by_contra hnot
      refine hleave ⟨hcover, ?_, fun hstands => hnot (Or.inr hstands)⟩
      intro doc hdoc hencloses
      by_contra hintime
      exact hnot (Or.inl ⟨doc, hdoc, hencloses, hintime⟩)

/-- **The scope of elements** of any state of a workspace covers a type iff one of them does alone,
unless the elements leave the type out or take it in. -/
theorem ofElements_isUnion_iff (edits : List Edit) {elements : List Element} {scope : SearchScope}
    (hscope : ofElements (.afterAll .initial edits) elements = .ok scope) (key : TypeKey) :
    (scope.enclosesType (.ofWorkspace (.afterAll .initial edits)) key = true ↔
        ∃ e ∈ elements, ∃ single, ofElements (.afterAll .initial edits) [e] = .ok single ∧
          single.enclosesType (.ofWorkspace (.afterAll .initial edits)) key = true) ↔
      ¬LeaveOut (.ofWorkspace (.afterAll .initial edits)) elements key ∧
        ¬TakeIn (.ofWorkspace (.afterAll .initial edits)) elements key :=
  enclosesType_iff_union_iff (Workspace.inStep_afterAll edits) rfl hscope key

/-- Two projects with the same archive of two types on their classpaths. -/
def sharedArchive : List Edit :=
  [.registerArchive "/L.jar" [("A.java", "class A \x7b\x7d"), ("B.java", "class B \x7b\x7d")] none,
    .createProject ⟨"P1", [""], [.library "/L.jar"], none⟩,
    .createProject ⟨"P2", [""], [.library "/L.jar"], none⟩]

/-- A type of the archive is seen from the first project, so the second project does not bring in
the rest of the archive after it. -/
theorem ofElements_leaves_out_shared_type :
    ∃ scope, ofElements (.afterAll .initial sharedArchive)
        [.type ⟨.archive ⟨1⟩, "A"⟩, .project "P2"] = .ok scope ∧
      ¬(scope.enclosesType (.ofWorkspace (.afterAll .initial sharedArchive))
            ⟨.archive ⟨1⟩, "B"⟩ = true ↔
          ∃ e ∈ [Element.type ⟨.archive ⟨1⟩, "A"⟩, .project "P2"], ∃ single,
            ofElements (.afterAll .initial sharedArchive) [e] = .ok single ∧
              single.enclosesType (.ofWorkspace (.afterAll .initial sharedArchive))
                ⟨.archive ⟨1⟩, "B"⟩ = true) := by
  have hscope : ofElements (.afterAll .initial sharedArchive)
      [.type ⟨.archive ⟨1⟩, "A"⟩, .project "P2"] = .ok ⟨.elements, ["P1", "P2"],
        [⟨.archive ⟨1⟩, "P1", "/L.jar", .types [⟨.archive ⟨1⟩, "A"⟩]⟩]⟩ := by
    decide +kernel
  have hleave : LeaveOut (.ofWorkspace (.afterAll .initial sharedArchive))
      [.type ⟨.archive ⟨1⟩, "A"⟩, .project "P2"] ⟨.archive ⟨1⟩, "B"⟩ := by
    unfold LeaveOut Cover Document.Encloses Document.IsLate Document.StandsForWhole Document.IsAt
    decide +kernel
  refine ⟨_, hscope, fun hunion => ?_⟩
  exact ((ofElements_isUnion_iff sharedArchive hscope _).1 hunion).1 hleave

end SearchScope

end SourceSearch
