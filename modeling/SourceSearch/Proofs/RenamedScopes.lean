import SourceSearch.Proofs.RenamedFindings

/-!
# Scopes under other numbers

A scope in the making that gets renamed documents is the renamed scope: whether a document is taken,
and with which document of the same resource it is merged, depends on names and on whether numbers
are the same. So the scopes of elements, of a hierarchy and of the workspace are renamed with the
workspace (`toOption_ofElements`, `toOption_hierarchy`, `workspace`).
-/

set_option autoImplicit false

namespace SourceSearch

namespace Renaming

variable (r : Renaming)

def element : Element → Element
  | .project name => .project name
  | .unit file => .unit (r.file file)
  | .type key => .type (r.key key)
  | .method handle => .method (r.method handle)
  | .field handle => .field (r.field handle)

def scopeKind : ScopeKind → ScopeKind
  | .elements => .elements
  | .hierarchy focus => .hierarchy (r.key focus)
  | .workspace => .workspace

def scope (scope : SearchScope) : SearchScope :=
  ⟨r.scopeKind scope.kind, scope.projects, scope.documents.map r.document⟩

def draft (draft : ScopeDraft) : ScopeDraft :=
  { draft with documents := draft.documents.mapValues fun table => table.mapValues r.document }

/-! ## Documents -/

theorem documentId_injective : Function.Injective r.documentId := by
  intro a b h
  cases a with
  | source file =>
    cases b with
    | source other => exact congrArg _ (r.injective (DocumentId.source.inj h))
    | archive id => cases h
  | archive id =>
    cases b with
    | source other => cases h
    | archive other => exact h

@[simp] theorem beq_documentId (a b : DocumentId) :
    (r.documentId a == r.documentId b) = (a == b) :=
  beq_of_injective r.documentId_injective a b

theorem coverage_union (a b : Coverage) :
    r.coverage (a.union b) = (r.coverage a).union (r.coverage b) := by
  cases a with
  | all => rfl
  | types mine =>
    cases b with
    | all => rfl
    | types theirs =>
      simp only [Coverage.union, Renaming.coverage, List.map_append, r.filter_not_contains]

/-! ## Drafts -/

theorem toList_draft (draft : ScopeDraft) :
    (r.draft draft).toList = draft.toList.map r.document := by
  simp only [ScopeDraft.toList, Renaming.draft, Table.values_mapValues, List.flatMap_map,
    List.map_flatMap]

theorem isTaken_draft (draft : ScopeDraft) (doc : Document) :
    (r.draft draft).isTaken (r.document doc) = draft.isTaken doc := by
  obtain ⟨id, project, resource, coverage⟩ := doc
  cases id with
  | source file => rfl
  | archive id =>
    show ((r.draft draft).toList.any fun d => d.id == .archive id && d.project != project) =
      draft.toList.any fun d => d.id == .archive id && d.project != project
    rw [toList_draft, List.any_map]
    congr 1
    funext d
    exact congrArg (· && d.project != project) (r.beq_documentId d.id (.archive id))

theorem add_draft (draft : ScopeDraft) (doc : Document) :
    (r.draft draft).add (r.document doc) = r.draft (draft.add doc) := by
  have hproject : ((r.draft draft).documents.get? doc.project).getD ∅ =
      ((draft.documents.get? doc.project).getD ∅).mapValues r.document := by
    simp only [Renaming.draft, Table.get?_mapValues]
    cases draft.documents.get? doc.project <;> rfl
  unfold ScopeDraft.add
  rw [isTaken_draft]
  split
  · rfl
  · dsimp only
    rw [show (r.document doc).project = doc.project from rfl, hproject,
      show (r.document doc).resource = doc.resource from rfl, Table.get?_mapValues]
    cases ((draft.documents.get? doc.project).getD ∅).get? doc.resource with
    | none => simp only [Renaming.draft, Table.mapValues_insert, Option.map_none]
    | some known =>
      have hmerged : r.document { known with coverage := known.coverage.union doc.coverage } =
          { r.document known with
            coverage := (r.document known).coverage.union (r.document doc).coverage } :=
        congrArg (Document.mk _ _ _) (r.coverage_union known.coverage doc.coverage)
      simp only [Renaming.draft, Table.mapValues_insert, Option.map_some, hmerged]

theorem addProject_draft (draft : ScopeDraft) (name : String) :
    (r.draft draft).addProject name = r.draft (draft.addProject name) := by
  unfold ScopeDraft.addProject
  rw [show (r.draft draft).projects = draft.projects from rfl]
  split <;> rfl

theorem finish_draft (draft : ScopeDraft) (kind : ScopeKind) :
    (r.draft draft).finish (r.scopeKind kind) = r.scope (draft.finish kind) := by
  rw [ScopeDraft.finish, toList_draft]
  rfl

theorem addSource_draft (draft : ScopeDraft) (source : SourceFile) (coverage : Coverage) :
    (r.draft draft).addSource (r.source source) (r.coverage coverage) =
      r.draft (draft.addSource source coverage) := by
  unfold ScopeDraft.addSource
  rw [← r.add_draft, ← r.addProject_draft]
  rfl

theorem addArchive_draft (draft : ScopeDraft) (archive : Archive) (project : String)
    (coverage : Coverage) :
    (r.draft draft).addArchive (r.archive archive) project (r.coverage coverage) =
      r.draft (draft.addArchive archive project coverage) := by
  unfold ScopeDraft.addArchive
  rw [← r.add_draft]
  rfl

/-- Adding renamed files one by one. -/
theorem foldl_addSource_draft (coverage : Coverage) (sources : List SourceFile)
    (draft : ScopeDraft) :
    (sources.map r.source).foldl (·.addSource · (r.coverage coverage)) (r.draft draft) =
      r.draft (sources.foldl (·.addSource · coverage) draft) := by
  rw [List.foldl_map]
  apply List.foldl_hom r.draft
  intro draft source
  exact r.addSource_draft draft source coverage

end Renaming

namespace Workspace.RenamedBy

variable {r : Renaming} {ws ws' : Workspace}

theorem addWholeProject (h : ws.RenamedBy r ws') (draft : ScopeDraft) (project : Project) :
    ScopeDraft.addWholeProject ws' (r.draft draft) (r.project project) =
      r.draft (ScopeDraft.addWholeProject ws draft project) := by
  have hsources := r.foldl_addSource_draft .all (project.parsedUnits ws.sources)
    (draft.addProject project.name)
  unfold ScopeDraft.addWholeProject
  rw [h.parsedUnits, h.libraries, show (r.project project).name = project.name from rfl,
    r.addProject_draft]
  dsimp only
  rw [show Coverage.all = r.coverage .all from rfl, hsources, List.foldl_map]
  apply List.foldl_hom r.draft
  intro draft archive
  exact r.addArchive_draft draft archive project.name .all

theorem holderOf? (h : ws.RenamedBy r ws') (id : ArchiveId) (among : List String) :
    ScopeDraft.holderOf? ws' id among = ScopeDraft.holderOf? ws id among := by
  have hholds : ∀ name, (ws'.project? name).any (fun p => (ws'.libraries p).any (·.id == id)) =
      (ws.project? name).any fun p => (ws.libraries p).any (·.id == id) := by
    intro name
    rw [h.project?, Option.any_map]
    congr 1
    funext p
    rw [h.libraries, List.any_map]
    rfl
  simp only [ScopeDraft.holderOf?, h.projects_keys, hholds]

theorem toOption_addType (h : ws.RenamedBy r ws') (draft : ScopeDraft) (key : TypeKey) :
    (ScopeDraft.addType ws' (r.draft draft) (r.key key)).toOption =
      (ScopeDraft.addType ws draft key).toOption.map r.draft := by
  obtain ⟨origin, name⟩ := key
  simp only [ScopeDraft.addType, h.declared?, Option.isNone_map]
  split
  · rfl
  · cases origin with
    | source file =>
      simp only [Renaming.key_origin, Renaming.origin_source, h.source?]
      cases ws.source? file with
      | none => rfl
      | some source =>
        exact congrArg some (r.addSource_draft draft source (.types [⟨.source file, name⟩]))
    | archive id =>
      simp only [Renaming.key_origin, Renaming.origin_archive, h.holderOf?, h.projects_keys,
        h.archive?]
      cases ScopeDraft.holderOf? ws id ws.projects.keys with
      | none => rfl
      | some project =>
        cases ws.archive? id with
        | none => rfl
        | some archive =>
          dsimp only [Option.map_some]
          rw [r.addProject_draft]
          exact congrArg some
            (r.addArchive_draft (draft.addProject project) archive project
              (.types [⟨.archive id, name⟩]))

theorem toOption_addElement (h : ws.RenamedBy r ws') (draft : ScopeDraft) (element : Element) :
    (ScopeDraft.addElement ws' (r.draft draft) (r.element element)).toOption =
      (ScopeDraft.addElement ws draft element).toOption.map r.draft := by
  cases element with
  | project name =>
    simp only [ScopeDraft.addElement, Renaming.element, h.project?]
    cases ws.project? name with
    | none => rfl
    | some project => exact congrArg some (h.addWholeProject draft project)
  | unit file =>
    simp only [ScopeDraft.addElement, Renaming.element, h.source?]
    cases ws.source? file with
    | none => rfl
    | some source => exact congrArg some (r.addSource_draft draft source .all)
  | type key => exact h.toOption_addType draft key
  | method handle => exact h.toOption_addType draft handle.owner
  | field handle => exact h.toOption_addType draft handle.owner

/-- **The scope of renamed elements** is the renamed scope. -/
theorem toOption_ofElements (h : ws.RenamedBy r ws') (elements : List Element) :
    (SearchScope.ofElements ws' (elements.map r.element)).toOption =
      (SearchScope.ofElements ws elements).toOption.map r.scope := by
  have hfold : ∀ draft : ScopeDraft,
      ((elements.map r.element).foldlM (ScopeDraft.addElement ws') (r.draft draft)).toOption =
        (elements.foldlM (ScopeDraft.addElement ws) draft).toOption.map r.draft := by
    induction elements with
    | nil => exact fun draft => rfl
    | cons element elements ih =>
      intro draft
      rw [List.map_cons, List.foldlM_cons, List.foldlM_cons]
      exact toOption_bind_of_map (h.toOption_addElement draft element) ih
  apply toOption_bind_of_map (hfold {})
  intro draft
  exact congrArg some (r.finish_draft draft .elements)

/-- **The scope of the workspace** is renamed with it. -/
theorem workspace (h : ws.RenamedBy r ws') :
    SearchScope.workspace ws' = r.scope (SearchScope.workspace ws) := by
  have hfold : ∀ draft : ScopeDraft,
      (ws.projects.values.map r.project).foldl (ScopeDraft.addWholeProject ws') (r.draft draft) =
        r.draft (ws.projects.values.foldl (ScopeDraft.addWholeProject ws) draft) := by
    intro draft
    rw [List.foldl_map]
    exact List.foldl_hom r.draft h.addWholeProject
  rw [SearchScope.workspace, h.projects_values, SearchScope.workspace, ← r.finish_draft, ← hfold]
  rfl

end Workspace.RenamedBy

namespace BoundWorkspace.RenamedBy

variable {r : Renaming} {s s' : BoundWorkspace}

theorem ofHierarchy (h : s.RenamedBy r s') (hierarchy : TypeHierarchy) :
    SearchScope.ofHierarchy s' (r.hierarchy hierarchy) =
      r.scope (SearchScope.ofHierarchy s hierarchy) := by
  have hcoverage : Coverage.types (hierarchy.types.map r.key).eraseDups =
      r.coverage (.types hierarchy.types.eraseDups) := by
    rw [r.eraseDups_map_key]
    rfl
  have hfile : ∀ key : TypeKey, (r.key key).origin.file?.isSome = key.origin.file?.isSome := by
    rintro ⟨origin, name⟩
    cases origin <;> rfl
  have hroots : ((if ((hierarchy.types.map r.key).filter (·.origin.file?.isSome)).isEmpty then
        hierarchy.types.map r.key
      else (hierarchy.types.map r.key).filter (·.origin.file?.isSome)).flatMap
        s'.workspace.projectsSeeing) =
      (if (hierarchy.types.filter (·.origin.file?.isSome)).isEmpty then hierarchy.types
      else hierarchy.types.filter (·.origin.file?.isSome)).flatMap s.workspace.projectsSeeing := by
    have hseeing : ∀ keys : List TypeKey, (keys.map r.key).flatMap s'.workspace.projectsSeeing =
        keys.flatMap s.workspace.projectsSeeing := by
      intro keys
      rw [List.flatMap_map]
      congr 1
      funext key
      exact h.projectsSeeing key
    have hsources : (hierarchy.types.map r.key).filter (·.origin.file?.isSome) =
        (hierarchy.types.filter (·.origin.file?.isSome)).map r.key := by
      rw [List.filter_map]
      congr 1
      apply List.filter_congr
      intro key _
      exact hfile key
    rw [hsources, List.isEmpty_map]
    split <;> exact hseeing _
  have harchives : SearchScope.archivesOf (hierarchy.types.map r.key) =
      SearchScope.archivesOf hierarchy.types := by
    rw [SearchScope.archivesOf, List.filterMap_map, SearchScope.archivesOf]
    congr 2
    apply List.filterMap_congr
    rintro ⟨origin, name⟩ _
    cases origin <;> rfl
  unfold SearchScope.ofHierarchy
  simp only [r.types_hierarchy, hcoverage, hroots, harchives, h.workspace.projects_keys]
  rw [← r.finish_draft]
  refine congrArg (ScopeDraft.finish · _) ?_
  refine (congrArg (fun draft => List.foldl _ draft _) ?_).trans (List.foldl_hom r.draft ?_)
  · have hempty : ({} : ScopeDraft) = r.draft {} := rfl
    refine (congrArg (fun draft => List.foldl _ draft _) hempty).trans (List.foldl_hom r.draft ?_)
    intro draft name
    rw [h.workspace.project?]
    cases s.workspace.project? name with
    | none => rfl
    | some project =>
      dsimp only [Option.map_some]
      rw [h.workspace.parsedUnits, r.addProject_draft, r.foldl_addSource_draft]
  · intro draft index
    rw [h.workspace.holderOf?, h.workspace.archive?]
    generalize ScopeDraft.holderOf? s.workspace ⟨index⟩ _ = holder
    cases holder with
    | none => rfl
    | some project =>
      cases s.workspace.archive? ⟨index⟩ with
      | none => rfl
      | some archive =>
        dsimp only [Option.map_some]
        rw [r.addArchive_draft]

/-- **The scope of a hierarchy** is renamed with its focus. -/
theorem toOption_hierarchy (h : s.RenamedBy r s') (focus : TypeKey) :
    (SearchScope.hierarchy s' (r.key focus)).toOption =
      (SearchScope.hierarchy s focus).toOption.map r.scope := by
  simp only [SearchScope.hierarchy, h.declared?, Option.isNone_map, h.hierarchy, h.ofHierarchy]
  split <;> rfl

end BoundWorkspace.RenamedBy

end SourceSearch
