import SourceSearch.Search.WordIndex
import SourceSearch.Search.Finding

/-!
# Searches

A search looks at the documents of its scope in their order, and in each of them at the matches by
their place in the text. The index tells which documents cannot hold the word that is looked for;
they are skipped.
-/

set_option autoImplicit false

namespace SourceSearch

/-- A workspace that is ready to be searched. -/
structure Searchable where
  bound : BoundWorkspace
  index : WordIndex

namespace Searchable

/-- Prepares a workspace. -/
def ofWorkspace (ws : Workspace) : Searchable := ⟨.ofWorkspace ws, .ofWorkspace ws⟩

/-- Where a match starts; a match without a range comes first. -/
def startOf (found : Match) : Nat :=
  match found.range with
  | some range => range.start + 1
  | none => 0

/-- The matches in the order of their starts. -/
def inOrder (found : List Match) : List Match :=
  found.mergeSort fun a b => decide (startOf a ≤ startOf b)

/-- The matches in a document, as they are found. A document that is no longer there has none. -/
def locate (s : BoundWorkspace) (target : Target) (limitTo : LimitTo) (doc : Document) :
    List Match :=
  match doc.id with
  | .source file =>
    match s.workspace.source? file with
    | some source => target.inSource s limitTo doc source
    | none => []
  | .archive id =>
    match s.workspace.archive? id with
    | some archive => target.inArchive s limitTo doc archive
    | none => []

/-- The matches of a target in the documents, in order. -/
def locateAll (s : BoundWorkspace) (target : Target) (limitTo : LimitTo)
    (docs : List Document) : List Match :=
  docs.flatMap fun doc => inOrder (locate s target limitTo doc)

/-- Whether the index lets a document be looked at. -/
def admits (index : WordIndex) (target : Target) (doc : Document) : Bool :=
  target.indexWord?.all (index.mayContain doc.id)

/-- The matches of a pattern in a scope. -/
def search (searchable : Searchable) (pattern : SearchPattern) (scope : SearchScope) :
    Except Error (List Match) := do
  let target ← Target.ofPattern searchable.bound pattern
  return locateAll searchable.bound target pattern.limitTo
    (scope.documents.filter (admits searchable.index target))

/-- The matches of a pattern in a scope when no document is skipped. -/
def searchUnindexed (s : BoundWorkspace) (pattern : SearchPattern) (scope : SearchScope) :
    Except Error (List Match) := do
  let target ← Target.ofPattern s pattern
  return locateAll s target pattern.limitTo scope.documents

end Searchable

end SourceSearch
