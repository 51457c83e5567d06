import SourceSearch.Proofs.ScopeOrder
import SourceSearch.Search.Searchable

/-!
# Matches in order

A search goes through the documents of its scope, which are in the order of projects and resources,
and sorts what it finds in each of them by start. So its matches are in the order of project,
resource and start (`pairwise_locateAll`), whichever workspace the scope is searched on.

The types of an archive are looked at by qualified name. Their matches have no ranges, and a stable
sort leaves them as they are (`inOrder_eq_of_no_range`), so the order of names remains
(`exists_shown_of_archive`).
-/

set_option autoImplicit false

namespace SourceSearch

/-- A match does not come after another one in the order of project, resource and start; a match
without a range starts first. -/
def Match.NotAfter (a b : Match) : Prop :=
  a.project < b.project ∨ a.project = b.project ∧
    (a.resource < b.resource ∨ a.resource = b.resource ∧
      Searchable.startOf a ≤ Searchable.startOf b)

/-- Whether a match is shown with the place of a document. -/
def Match.isIn (found : Match) (doc : Document) : Bool :=
  found.project == doc.project && found.resource == doc.resource

/-- The labels of a type and of the members that it declares. -/
def DeclaredType.labels (info : DeclaredType) : List String :=
  info.qualifiedName :: (info.methods.map info.methodLabel ++ info.fields.map info.fieldLabel)

theorem Match.isIn_iff {found : Match} {doc : Document} :
    found.isIn doc = true ↔ found.project = doc.project ∧ found.resource = doc.resource := by
  simp [Match.isIn]

namespace Searchable

variable {s : BoundWorkspace} {target : Target} {limitTo : LimitTo} {doc : Document}

/-! ## One document -/

theorem pairwise_inOrder (found : List Match) :
    (inOrder found).Pairwise fun a b => startOf a ≤ startOf b := by
  let le : Match → Match → Bool := fun a b => decide (startOf a ≤ startOf b)
  have htrans : ∀ a b c, le a b = true → le b c = true → le a c = true := by
    intro a b c hab hbc
    exact decide_eq_true (Nat.le_trans (of_decide_eq_true hab) (of_decide_eq_true hbc))
  have htotal : ∀ a b, (le a b || le b a) = true := by
    intro a b
    rw [Bool.or_eq_true]
    exact (Nat.le_total (startOf a) (startOf b)).imp decide_eq_true decide_eq_true
  exact (List.pairwise_mergeSort htrans htotal found).imp of_decide_eq_true

/-- Matches without ranges stay in their order. -/
theorem inOrder_eq_of_no_range {found : List Match} (h : ∀ m ∈ found, m.range = none) :
    inOrder found = found := by
  have hstart : ∀ m ∈ found, startOf m = 0 := by
    intro m hm
    rw [startOf, h m hm]
  apply List.mergeSort_of_pairwise
  rw [List.pairwise_iff_forall_sublist]
  intro a b hab
  rw [hstart a (hab.subset (by simp)), hstart b (hab.subset (by simp))]
  rfl

/-- **A match** is shown with the place of its document. -/
theorem isIn_of_mem_locate {found : Match} (hfound : found ∈ locate s target limitTo doc) :
    found.isIn doc = true := by
  rw [Match.isIn_iff]
  unfold locate at hfound
  split at hfound
  · split at hfound
    · obtain ⟨finding, -, rfl⟩ := List.mem_map.1 hfound
      exact ⟨rfl, rfl⟩
    · cases hfound
  · split at hfound
    · obtain ⟨info, -, hfound⟩ := List.mem_flatMap.1 hfound
      obtain ⟨m, -, rfl⟩ := List.mem_map.1 hfound
      exact ⟨rfl, rfl⟩
    · cases hfound

theorem isIn_of_mem_inOrder {found : Match}
    (hfound : found ∈ inOrder (locate s target limitTo doc)) : found.isIn doc = true :=
  isIn_of_mem_locate (List.mem_mergeSort.1 hfound)

/-! ## All documents -/

/-- **What is found in documents in order** is in the order of project, resource and start. -/
theorem pairwise_locateAll {docs : List Document} (hdocs : docs.Pairwise Document.Precedes) :
    (locateAll s target limitTo docs).Pairwise Match.NotAfter := by
  rw [locateAll, List.pairwise_flatMap]
  constructor
  · intro doc _
    refine (pairwise_inOrder _).imp_of_mem ?_
    intro a b ha hb hle
    obtain ⟨hproject, hresource⟩ := Match.isIn_iff.1 (isIn_of_mem_inOrder ha)
    obtain ⟨hproject', hresource'⟩ := Match.isIn_iff.1 (isIn_of_mem_inOrder hb)
    exact Or.inr ⟨hproject.trans hproject'.symm, Or.inr ⟨hresource.trans hresource'.symm, hle⟩⟩
  · refine hdocs.imp ?_
    intro doc other hbefore a ha b hb
    obtain ⟨hproject, hresource⟩ := Match.isIn_iff.1 (isIn_of_mem_inOrder ha)
    obtain ⟨hproject', hresource'⟩ := Match.isIn_iff.1 (isIn_of_mem_inOrder hb)
    rw [Match.NotAfter, hproject, hproject', hresource, hresource']
    exact hbefore.imp_right fun h => ⟨h.1, Or.inl h.2⟩

/-- Documents at other places show nothing at a place. -/
theorem filter_locateAll_of_elsewhere {docs : List Document}
    (h : ∀ other ∈ docs, ¬other.IsAt doc.project doc.resource) :
    (locateAll s target limitTo docs).filter (·.isIn doc) = [] := by
  rw [List.filter_eq_nil_iff]
  intro m hm hin
  obtain ⟨other, hother, hm⟩ := List.mem_flatMap.1 hm
  obtain ⟨hproject, hresource⟩ := Match.isIn_iff.1 (isIn_of_mem_inOrder hm)
  obtain ⟨hproject', hresource'⟩ := Match.isIn_iff.1 hin
  exact h other hother ⟨hproject.symm.trans hproject', hresource.symm.trans hresource'⟩

/-- **What is found at the place of a document** is what is found in the document. -/
theorem filter_locateAll {docs : List Document} (hdocs : docs.Pairwise Document.Precedes)
    (hdoc : doc ∈ docs) :
    (locateAll s target limitTo docs).filter (·.isIn doc) =
      inOrder (locate s target limitTo doc) := by
  obtain ⟨before, after, rfl⟩ := List.append_of_mem hdoc
  obtain ⟨-, hafter, hbefore⟩ := List.pairwise_append.1 hdocs
  have hsplit : locateAll s target limitTo (before ++ doc :: after) =
      locateAll s target limitTo before ++ (inOrder (locate s target limitTo doc) ++
        locateAll s target limitTo after) := by
    rw [locateAll, List.flatMap_append, List.flatMap_cons]
    rfl
  rw [hsplit, List.filter_append, List.filter_append, filter_locateAll_of_elsewhere,
    filter_locateAll_of_elsewhere, List.nil_append, List.append_nil, List.filter_eq_self]
  · exact fun m hm => isIn_of_mem_inOrder hm
  · exact fun other hother hat =>
      ((List.pairwise_cons.1 hafter).1 other hother).not_isAt ⟨hat.1.symm, hat.2.symm⟩
  · exact fun other hother => (hbefore other hother doc List.mem_cons_self).not_isAt

/-! ## Archives -/

/-- A label of a match in an archive's type is that of the type or of one of its members. -/
theorem mem_labels_of_mem_inBinaryType {info : DeclaredType} {m : String × MatchKind}
    (hm : m ∈ target.inBinaryType s limitTo info) : m.1 ∈ info.labels := by
  unfold Target.inBinaryType at hm
  split at hm
  · obtain ⟨-, hm⟩ := List.mem_ite_nil_right.1 hm
    rw [List.mem_singleton.1 hm]
    exact List.mem_cons_self
  · obtain ⟨-, hm⟩ := List.mem_ite_nil_right.1 hm
    obtain ⟨label, hlabel, rfl⟩ := List.mem_map.1 hm
    unfold Target.binaryDeclarations at hlabel
    split at hlabel
    · obtain ⟨-, hlabel⟩ := List.mem_ite_nil_right.1 hlabel
      rw [List.mem_singleton.1 hlabel]
      exact List.mem_cons_self
    · obtain ⟨method, hmethod, rfl⟩ := List.mem_map.1 hlabel
      exact List.mem_cons_of_mem _ (List.mem_append_left _
        (List.mem_map_of_mem (List.mem_filter.1 hmethod).1))
    · obtain ⟨field, hfield, rfl⟩ := List.mem_map.1 hlabel
      exact List.mem_cons_of_mem _ (List.mem_append_right _
        (List.mem_map_of_mem (List.mem_filter.1 hfield).1))

theorem pairwise_types_by_name (types : List DeclaredType) :
    (types.mergeSort fun a b => decide (a.qualifiedName ≤ b.qualifiedName)).Pairwise
      fun a b => a.qualifiedName ≤ b.qualifiedName := by
  let le : DeclaredType → DeclaredType → Bool :=
    fun a b => decide (a.qualifiedName ≤ b.qualifiedName)
  have htrans : ∀ a b c, le a b = true → le b c = true → le a c = true := by
    intro a b c hab hbc
    exact decide_eq_true (String.le_trans (of_decide_eq_true hab) (of_decide_eq_true hbc))
  have htotal : ∀ a b, (le a b || le b a) = true := by
    intro a b
    rw [Bool.or_eq_true]
    exact (String.le_total a.qualifiedName b.qualifiedName).imp decide_eq_true decide_eq_true
  exact (List.pairwise_mergeSort htrans htotal types).imp of_decide_eq_true

/-- **The matches in an archive**, each with the type that it shows, are in the order of the names
of the types. -/
theorem exists_shown_of_archive {id : ArchiveId} (hid : doc.id = .archive id) :
    ∃ shown : List (DeclaredType × Match),
      shown.map (·.2) = inOrder (locate s target limitTo doc) ∧
      shown.Pairwise (fun a b => a.1.qualifiedName ≤ b.1.qualifiedName) ∧
      ∀ e ∈ shown, e.2.range = none ∧ e.2.element ∈ e.1.labels ∧
        ∃ archive, s.workspace.archive? id = some archive ∧ e.1 ∈ archive.types := by
  cases harchive : s.workspace.archive? id with
  | none =>
    have hlocate : locate s target limitTo doc = [] := by simp only [locate, hid, harchive]
    refine ⟨[], ?_, .nil, by simp⟩
    rw [hlocate]
    exact (inOrder_eq_of_no_range (by simp)).symm
  | some archive =>
    have hlocate : locate s target limitTo doc = target.inArchive s limitTo doc archive := by
      simp only [locate, hid, harchive]
    let types := (archive.types.mergeSort fun a b =>
      decide (a.qualifiedName ≤ b.qualifiedName)).filter fun info =>
        doc.coverage.encloses (s.enclosingChain (some info.key))
    let shownOf := fun info : DeclaredType => (target.inBinaryType s limitTo info).map fun m =>
      (info, Target.binaryMatch doc m.1 m.2)
    have hmatches : (types.flatMap shownOf).map (·.2) = locate s target limitTo doc := by
      rw [hlocate, List.map_flatMap]
      simp only [shownOf, List.map_map]
      rfl
    have htypes : types.Pairwise fun a b => a.qualifiedName ≤ b.qualifiedName :=
      (pairwise_types_by_name archive.types).filter _
    have hshown : ∀ e ∈ types.flatMap shownOf, e.2.range = none ∧ e.2.element ∈ e.1.labels ∧
        ∃ found, some archive = some found ∧ e.1 ∈ found.types := by
      intro e he
      obtain ⟨info, hinfo, he⟩ := List.mem_flatMap.1 he
      obtain ⟨m, hm, rfl⟩ := List.mem_map.1 he
      exact ⟨rfl, mem_labels_of_mem_inBinaryType hm, archive, rfl,
        List.mem_mergeSort.1 (List.mem_filter.1 hinfo).1⟩
    refine ⟨types.flatMap shownOf, ?_, ?_, hshown⟩
    · rw [hmatches, inOrder_eq_of_no_range]
      intro m hm
      rw [← hmatches] at hm
      obtain ⟨e, he, rfl⟩ := List.mem_map.1 hm
      exact (hshown e he).1
    · rw [List.pairwise_flatMap]
      constructor
      · intro info _
        rw [List.pairwise_map]
        exact List.pairwise_of_forall fun _ _ => String.le_refl _
      · refine htypes.imp ?_
        intro info other hle e he e' he'
        obtain ⟨m, -, rfl⟩ := List.mem_map.1 he
        obtain ⟨m', -, rfl⟩ := List.mem_map.1 he'
        exact hle

/-! ## Searches -/

/-- **Scopes and searches are in order.** The documents of a scope that was built after any edits
are strictly in the order of projects and resources, and none of them is listed twice. Whatever the
scope is searched for, and on whichever workspace, the matches are in the order of project, resource
and start, and those of an archive are in the order of the names of the types that they show. -/
theorem search_afterAll_in_order (edits : List Edit) {scope : SearchScope}
    (hscope : scope.IsBuiltOn (Workspace.initial.afterAll edits)) :
    scope.documents.Pairwise Document.Precedes ∧ (scope.documents.map (·.id)).Nodup ∧
      ∀ (searchable : Searchable) (pattern : SearchPattern) (found : List Match),
        searchable.search pattern scope = .ok found →
          found.Pairwise Match.NotAfter ∧
          ∀ doc ∈ scope.documents, ∀ id, doc.id = .archive id →
            ∃ shown : List (DeclaredType × Match),
              shown.map (·.2) = found.filter (·.isIn doc) ∧
              shown.Pairwise (fun a b => a.1.qualifiedName ≤ b.1.qualifiedName) ∧
              ∀ e ∈ shown, e.2.range = none ∧ e.2.element ∈ e.1.labels ∧
                ∃ archive, searchable.bound.workspace.archive? id = some archive ∧
                  e.1 ∈ archive.types := by
  have hws := Workspace.inStep_afterAll edits
  have hdocuments := hscope.pairwise_documents hws
  refine ⟨hdocuments, hscope.nodup_ids hws, ?_⟩
  intro searchable pattern found hfound
  obtain ⟨target, -, hfound⟩ := bind_eq_ok_iff.1 hfound
  obtain rfl := Except.ok.inj hfound
  have hadmitted : (scope.documents.filter (admits searchable.index target)).Pairwise
      Document.Precedes := hdocuments.filter _
  refine ⟨pairwise_locateAll hadmitted, ?_⟩
  intro doc hdoc id hid
  by_cases hadmits : admits searchable.index target doc = true
  · rw [filter_locateAll hadmitted (List.mem_filter.2 ⟨hdoc, hadmits⟩)]
    exact exists_shown_of_archive hid
  · refine ⟨[], ?_, .nil, by simp⟩
    symm
    apply filter_locateAll_of_elsewhere
    intro other hother hat
    obtain ⟨hmem, hother⟩ := List.mem_filter.1 hother
    exact hadmits (Document.eq_of_isAt hdocuments hmem hdoc hat ▸ hother)

/-- An archive that declares two types in the order of a text, seen from a project with a file. -/
def archiveBesideFile : List Edit :=
  [.registerArchive "/x.jar" [("A.java", "class B \x7b\x7d class A \x7b\x7d")] none,
    .createProject ⟨"Q", [""], [], none⟩, .createFile "/Q/C.java" "class C \x7b\x7d",
    .createProject ⟨"P", [""], [.library "/x.jar"], none⟩, .createFile "/P/D.java" "class D \x7b\x7d"]

/-- The scope of the workspace has its three documents in order, and is searched in order. -/
theorem search_archiveBesideFile_in_order :
    let ws := Workspace.initial.afterAll archiveBesideFile
    let scope := SearchScope.workspace ws
    scope.documents.map (fun doc => (doc.project, doc.resource)) =
        [("P", "/x.jar"), ("P", "D.java"), ("Q", "C.java")] ∧
      scope.documents.Pairwise Document.Precedes ∧ (scope.documents.map (·.id)).Nodup ∧
      ∃ found, (ofWorkspace ws).search ⟨.name .type none ⟨"*", true⟩ none, .declarations⟩ scope =
          .ok found ∧ found.Pairwise Match.NotAfter := by
  intro ws scope
  obtain ⟨hdocuments, hids, hsearch⟩ := search_afterAll_in_order archiveBesideFile .workspace
  refine ⟨by decide +kernel, hdocuments, hids, _, rfl, ?_⟩
  exact (hsearch (ofWorkspace ws) ⟨.name .type none ⟨"*", true⟩ none, .declarations⟩ _ rfl).1

end Searchable

end SourceSearch
