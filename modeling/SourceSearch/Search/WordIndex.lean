import SourceSearch.Search.Scope

/-!
# The word index

For every source file its identifiers, and for every archive the names that its declarations write.
A document without the word that a search needs can be skipped. Documents that the index does not
know are never skipped.
-/

set_option autoImplicit false

namespace SourceSearch

/-- The words of documents, source files first, each by number. -/
structure WordIndex where
  entries : List (DocumentId × List String)
  deriving DecidableEq, Repr

namespace WordIndex

/-- The identifiers of a text; none when it is no list of tokens. -/
def wordsOfText (text : String) : List String :=
  match tokenize text with
  | .ok tokens => (tokens.filter (·.kind == .ident)).map (·.text)
  | .error _ => []

/-- The names that the declaration of a type writes. -/
def wordsOfType (info : DeclaredType) : List String :=
  info.simpleName :: info.methods.map (·.name) ++ info.fields.map (·.name) ++
    (info.superclass.toList ++ info.interfaces).map (·.simpleName)

/-- The index of a workspace. -/
def ofWorkspace (ws : Workspace) : WordIndex :=
  ⟨ws.sources.values.map (fun file => (.source file.id, wordsOfText file.text)) ++
    ws.archives.values.map fun archive =>
      (.archive archive.id, archive.types.flatMap wordsOfType)⟩

/-- Whether a document may have the word: unless it is indexed without it. -/
def mayContain (index : WordIndex) (doc : DocumentId) (word : String) : Bool :=
  match index.entries.lookup doc with
  | some words => words.contains word
  | none => true

/-- The documents with the word, in order. -/
def documentsWith (index : WordIndex) (word : String) : List DocumentId :=
  (index.entries.filter fun e => e.2.contains word).map (·.1)

/-- The number of documents. -/
def size (index : WordIndex) : Nat := index.entries.length

end WordIndex

end SourceSearch
