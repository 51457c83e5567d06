import SourceSearch.Proofs.IndexedSearch
import SourceSearch.Proofs.RenamedScopes
import SourceSearch.Proofs.RenamedSupertypes

/-!
# Searches under other numbers

A search of a renamed workspace for a renamed pattern in a renamed scope finds the same matches in
the same order, each with the renamed number of its file (`search`). The index skips the same
documents that are there, the order of the matches in a document goes by their ranges, and that of
documents by the scope.
-/

set_option autoImplicit false

namespace SourceSearch

namespace Searchable

/-- The matches in the documents that are admitted, document by document. -/
theorem locateAll_filter (s : BoundWorkspace) (target : Target) (limitTo : LimitTo)
    (p : Document → Bool) (docs : List Document) :
    locateAll s target limitTo (docs.filter p) =
      docs.flatMap fun doc => if p doc then inOrder (locate s target limitTo doc) else [] := by
  induction docs with
  | nil => rfl
  | cons doc docs ih =>
    rw [List.filter_cons, List.flatMap_cons, ← ih]
    split <;> rfl

end Searchable

namespace BoundWorkspace.RenamedBy

variable {r : Renaming} {s s' : BoundWorkspace}

/-- The matches in a document are the same but for the numbers of files. -/
theorem locate (h : s.RenamedBy r s') (target : Target) (limitTo : LimitTo) (doc : Document) :
    Searchable.locate s' (r.target target) limitTo (r.document doc) =
      (Searchable.locate s target limitTo doc).map r.found := by
  obtain ⟨id, project, resource, coverage⟩ := doc
  cases id with
  | source file =>
    simp only [Searchable.locate, Renaming.document, Renaming.documentId, h.workspace.source?]
    cases s.workspace.source? file with
    | none => rfl
    | some source => exact h.inSource target limitTo ⟨.source file, project, resource, coverage⟩ source
  | archive id =>
    simp only [Searchable.locate, Renaming.document, Renaming.documentId, h.workspace.archive?]
    cases s.workspace.archive? id with
    | none => rfl
    | some archive => exact h.inArchive target limitTo ⟨.archive id, project, resource, coverage⟩ archive

end BoundWorkspace.RenamedBy

namespace Renaming

theorem inOrder_map (r : Renaming) (matches' : List Match) :
    Searchable.inOrder (matches'.map r.found) = (Searchable.inOrder matches').map r.found := by
  symm
  apply List.map_mergeSort
  intro a _ b _
  rfl

end Renaming

namespace Workspace.RenamedBy

variable {r : Renaming} {ws ws' : Workspace}

/-- The index knows the words of a file by any number. -/
theorem mayContain_source (h : ws.RenamedBy r ws') (hws : ws.FilesInStep)
    (hws' : ws'.FilesInStep) {file : FileId} {source : SourceFile}
    (hsource : ws.source? file = some source) (word : String) :
    (WordIndex.ofWorkspace ws').mayContain (.source (r.file file)) word =
      (WordIndex.ofWorkspace ws).mayContain (.source file) word := by
  have hsource' : ws'.source? (r.file file) = some (r.source source) := by
    rw [h.source?, hsource, Option.map_some]
  rw [Bool.eq_iff_iff, WordIndex.mayContain_source_iff hws' hsource',
    WordIndex.mayContain_source_iff hws hsource]
  rfl

theorem mayContain_archive (h : ws.RenamedBy r ws') {id : ArchiveId} {archive : Archive}
    (harchive : ws.archive? id = some archive) (word : String) :
    (WordIndex.ofWorkspace ws').mayContain (.archive id) word =
      (WordIndex.ofWorkspace ws).mayContain (.archive id) word := by
  have harchive' : ws'.archive? id = some (r.archive archive) := by
    rw [h.archive?, harchive, Option.map_some]
  rw [Bool.eq_iff_iff, WordIndex.mayContain_archive_iff harchive',
    WordIndex.mayContain_archive_iff harchive]
  simp only [Renaming.archive, List.mem_map, exists_exists_and_eq_and]
  rfl

/-- What is found in a document that the index admits. Where there is no such document, the index may
say anything: nothing is found. -/
theorem admitted (h : ws.RenamedBy r ws') (hws : ws.FilesInStep) (hws' : ws'.FilesInStep)
    (target : Target) (limitTo : LimitTo) (doc : Document) :
    (if Searchable.admits (.ofWorkspace ws') (r.target target) (r.document doc) then
      Searchable.inOrder (Searchable.locate (.ofWorkspace ws') (r.target target) limitTo
        (r.document doc)) else []) =
    (if Searchable.admits (.ofWorkspace ws) target doc then
      Searchable.inOrder (Searchable.locate (.ofWorkspace ws) target limitTo doc) else []).map
        r.found := by
  have hlocate := h.ofWorkspace.locate target limitTo doc
  by_cases hthere : ∀ word, (WordIndex.ofWorkspace ws').mayContain (r.documentId doc.id) word =
      (WordIndex.ofWorkspace ws).mayContain doc.id word
  · have hadmits : Searchable.admits (.ofWorkspace ws') (r.target target) (r.document doc) =
        Searchable.admits (.ofWorkspace ws) target doc := by
      rw [Searchable.admits, r.indexWord?_target, Searchable.admits]
      congr 1
      funext word
      exact hthere word
    rw [hadmits, hlocate, r.inOrder_map]
    split <;> rfl
  · have hnothing : Searchable.locate (.ofWorkspace ws) target limitTo doc = [] := by
      have hsame : (BoundWorkspace.ofWorkspace ws).workspace = ws := rfl
      obtain ⟨id, project, resource, coverage⟩ := doc
      cases id with
      | source file =>
        cases hsource : ws.source? file with
        | none => simp only [Searchable.locate, hsame, hsource]
        | some source => exact absurd (h.mayContain_source hws hws' hsource) hthere
      | archive id =>
        cases harchive : ws.archive? id with
        | none => simp only [Searchable.locate, hsame, harchive]
        | some archive => exact absurd (h.mayContain_archive harchive) hthere
    rw [hlocate, hnothing]
    simp [Searchable.inOrder]

/-- **A search of a renamed workspace** finds the same matches in the same order. -/
theorem search (h : ws.RenamedBy r ws') (hws : ws.FilesInStep) (hws' : ws'.FilesInStep)
    (pattern : SearchPattern) (scope : SearchScope) :
    ((Searchable.ofWorkspace ws').search (r.pattern pattern) (r.scope scope)).toOption =
      ((Searchable.ofWorkspace ws).search pattern scope).toOption.map (List.map r.found) := by
  apply toOption_bind_of_map (h.ofWorkspace.toOption_ofPattern pattern)
  intro target
  refine congrArg some ?_
  rw [Searchable.locateAll_filter, Searchable.locateAll_filter, List.map_flatMap]
  show (scope.documents.map r.document).flatMap _ = _
  rw [List.flatMap_map]
  congr 1
  funext doc
  exact h.admitted hws hws' target pattern.limitTo doc

end Workspace.RenamedBy

end SourceSearch
