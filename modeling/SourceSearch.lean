import SourceSearch.Archive
import SourceSearch.Binding.Expressions
import SourceSearch.Binding.Hierarchy
import SourceSearch.Binding.Members
import SourceSearch.Binding.Names
import SourceSearch.Binding.Places
import SourceSearch.Binding.Snippet
import SourceSearch.Binding.StaticType
import SourceSearch.Binding.Supertypes
import SourceSearch.ClassLibrary
import SourceSearch.Classpath
import SourceSearch.Declared
import SourceSearch.Edit
import SourceSearch.Environment
import SourceSearch.Error
import SourceSearch.Identity
import SourceSearch.Json
import SourceSearch.Json.Printer
import SourceSearch.Json.Reader
import SourceSearch.Loading
import SourceSearch.Manifest
import SourceSearch.Module
import SourceSearch.Parser.Cursor
import SourceSearch.Parser.Declarations
import SourceSearch.Parser.Expressions
import SourceSearch.Parser.Grammar
import SourceSearch.Parser.Names
import SourceSearch.Parser.Statements
import SourceSearch.Project
import SourceSearch.Proofs.AlikeWorkspaces
import SourceSearch.Proofs.AngleBrackets
import SourceSearch.Proofs.ArchiveBinding
import SourceSearch.Proofs.ArchiveSubtypes
import SourceSearch.Proofs.ArrayCreations
import SourceSearch.Proofs.CallPatterns
import SourceSearch.Proofs.CallPlaces
import SourceSearch.Proofs.CaseFolding
import SourceSearch.Proofs.Consistency
import SourceSearch.Proofs.ConstructorSearch
import SourceSearch.Proofs.ConstructorUses
import SourceSearch.Proofs.DeclarationReaders
import SourceSearch.Proofs.DeclarationSearch
import SourceSearch.Proofs.DeclaredNames
import SourceSearch.Proofs.DeclaredTypes
import SourceSearch.Proofs.Dependents
import SourceSearch.Proofs.DirectoryTrees
import SourceSearch.Proofs.DistinctMatches
import SourceSearch.Proofs.DocumentWords
import SourceSearch.Proofs.DottedNames
import SourceSearch.Proofs.EditFrames
import SourceSearch.Proofs.EditHistory
import SourceSearch.Proofs.ElementDocuments
import SourceSearch.Proofs.EnclosingTypes
import SourceSearch.Proofs.ErasedSignatures
import SourceSearch.Proofs.ExpressionReaders
import SourceSearch.Proofs.ExpressionTypes
import SourceSearch.Proofs.FieldValues
import SourceSearch.Proofs.FileNumbers
import SourceSearch.Proofs.FolderPaths
import SourceSearch.Proofs.GrammarDepth
import SourceSearch.Proofs.HierarchyScopes
import SourceSearch.Proofs.IdentifierRuns
import SourceSearch.Proofs.Implementors
import SourceSearch.Proofs.IndexedSearch
import SourceSearch.Proofs.Inheritance
import SourceSearch.Proofs.InnermostTypes
import SourceSearch.Proofs.JsonRoundTrip
import SourceSearch.Proofs.Lexemes
import SourceSearch.Proofs.LoadedWorkspaces
import SourceSearch.Proofs.LinePositions
import SourceSearch.Proofs.LocalClasses
import SourceSearch.Proofs.LocalLifetimes
import SourceSearch.Proofs.LookupOrder
import SourceSearch.Proofs.Loops
import SourceSearch.Proofs.ManifestRoundTrip
import SourceSearch.Proofs.MethodBodies
import SourceSearch.Proofs.MethodCalls
import SourceSearch.Proofs.NameBinding
import SourceSearch.Proofs.NamePatterns
import SourceSearch.Proofs.NodeRanges
import SourceSearch.Proofs.Occurrences
import SourceSearch.Proofs.OpenDeclarations
import SourceSearch.Proofs.Operands
import SourceSearch.Proofs.OperatorChains
import SourceSearch.Proofs.Operators
import SourceSearch.Proofs.OwnSignatures
import SourceSearch.Proofs.PackageVisibility
import SourceSearch.Proofs.ParsingEnds
import SourceSearch.Proofs.Paths
import SourceSearch.Proofs.Places
import SourceSearch.Proofs.ProjectCopies
import SourceSearch.Proofs.ProjectFolders
import SourceSearch.Proofs.ProjectTrees
import SourceSearch.Proofs.Providers
import SourceSearch.Proofs.QualifiedNames
import SourceSearch.Proofs.QualifiedThis
import SourceSearch.Proofs.RangeSlices
import SourceSearch.Proofs.Reachable
import SourceSearch.Proofs.ReaderBounds
import SourceSearch.Proofs.Readers
import SourceSearch.Proofs.RenamedBinding
import SourceSearch.Proofs.RenamedExpressions
import SourceSearch.Proofs.RenamedFindings
import SourceSearch.Proofs.RenamedPlaces
import SourceSearch.Proofs.RenamedScopes
import SourceSearch.Proofs.RenamedSearches
import SourceSearch.Proofs.RenamedSupertypes
import SourceSearch.Proofs.RenamedTargets
import SourceSearch.Proofs.RenamedWorkspace
import SourceSearch.Proofs.Renaming
import SourceSearch.Proofs.ResolvedTypes
import SourceSearch.Proofs.ScopeDrafts
import SourceSearch.Proofs.ScopeFilter
import SourceSearch.Proofs.ScopeOrder
import SourceSearch.Proofs.ScopeUnion
import SourceSearch.Proofs.SearchOrder
import SourceSearch.Proofs.SettledSupertypes
import SourceSearch.Proofs.SpelledTypes
import SourceSearch.Proofs.Store
import SourceSearch.Proofs.Subtrees
import SourceSearch.Proofs.Subtypes
import SourceSearch.Proofs.TargetWords
import SourceSearch.Proofs.TokenOrder
import SourceSearch.Proofs.TokenSlices
import SourceSearch.Proofs.TreeParts
import SourceSearch.Proofs.TreeRanges
import SourceSearch.Proofs.TreeWords
import SourceSearch.Proofs.TypeQueries
import SourceSearch.Proofs.TypeSpellings
import SourceSearch.Proofs.TypeUses
import SourceSearch.Proofs.Upkeep
import SourceSearch.Proofs.Visibility
import SourceSearch.Proofs.VisitedNodes
import SourceSearch.Proofs.Words
import SourceSearch.Proofs.WorkspaceScope
import SourceSearch.Search.Finding
import SourceSearch.Search.Glob
import SourceSearch.Search.Match
import SourceSearch.Search.Pattern
import SourceSearch.Search.Reference
import SourceSearch.Search.Scope
import SourceSearch.Search.Searchable
import SourceSearch.Search.Target
import SourceSearch.Search.WordIndex
import SourceSearch.Signature
import SourceSearch.SourceFile
import SourceSearch.Store.Directory
import SourceSearch.Store.Register
import SourceSearch.Store.Table
import SourceSearch.Text.Blank
import SourceSearch.Text.CodePoints
import SourceSearch.Text.Identifier
import SourceSearch.Text.Lowercase
import SourceSearch.Text.Quoted
import SourceSearch.Text.Range
import SourceSearch.Text.Split
import SourceSearch.Token
import SourceSearch.Token.Lexer
import SourceSearch.Tree
import SourceSearch.Walk
import SourceSearch.Workspace
