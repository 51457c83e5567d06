import SourceSearch.Proofs.QualifiedNames
import SourceSearch.Proofs.ScopeUnion
import SourceSearch.Proofs.Subtypes

/-!
# The scope of a hierarchy

The scope of a hierarchy is made over the projects that see its types (`projects_ofHierarchy`). It
holds the units of these projects, and then the archives that declare types of the hierarchy
(`exists_draft_holds`). All of its documents cover the same: what stands in a type of the hierarchy.

A source file that declares a type of the hierarchy is in a project that sees the type, so it is
among the units. Nothing that comes before it is at its place, and what comes after it, as an
archive that has its path, is merged into it. So no type is lost (`enclosesType_ofHierarchy_iff`).
-/

set_option autoImplicit false

namespace SourceSearch

/-! ## The types around a type -/

/-- The name of a member type goes on behind that of the type around it. -/
theorem DeclaredType.NamedInside.outer_lt {package : String} {info : DeclaredType}
    (h : info.NamedInside package) {outer : String} (houter : info.outer = some outer) :
    outer.length < info.qualifiedName.length := by
  obtain ⟨name, -, hname⟩ := h.name
  rw [houter] at hname
  rw [hname]
  simp only [String.length_append]
  have hdot : ".".length = 1 := rfl
  omega

/-- **The type around a type** has a shorter name. -/
theorem Workspace.InStep.outer_lt {ws : Workspace} (h : ws.InStep) {key : TypeKey}
    {info : DeclaredType} (hinfo : ws.declared? key = some info) {outer : String}
    (houter : info.outer = some outer) : outer.length < key.qualifiedName.length := by
  obtain rfl := (h.of_declared? hinfo).1
  cases horigin : info.key.origin with
  | source file =>
    rw [declared?, horigin] at hinfo
    obtain ⟨source, hsource, hfound⟩ := Option.bind_eq_some_iff.1 hinfo
    have hmem := List.mem_of_find?_eq_some hfound
    obtain ⟨unit, hunit⟩ := h.files.exists_unit hsource hmem
    exact (h.files.namedInside_source hsource hunit hmem).outer_lt houter
  | archive id =>
    rw [declared?, horigin] at hinfo
    obtain ⟨archive, harchive, hfound⟩ := Option.bind_eq_some_iff.1 hinfo
    obtain ⟨rfl, path, hentry⟩ := mem_entries_of_archive? harchive
    obtain ⟨units, hunits, heq⟩ := h.archives.archive_compiled hentry
    have hmem := List.mem_of_find?_eq_some hfound
    rw [heq] at hmem
    obtain ⟨unit, -, hnamed⟩ := namedInside_of_mem_ofUnits hunits hmem
    exact hnamed.outer_lt houter

namespace BoundWorkspace

variable {s : BoundWorkspace}

/-- A type stands directly in another one. -/
def IsDirectlyIn (s : BoundWorkspace) (inner outer : TypeKey) : Prop := s.outer? inner = some outer

theorem length_lt_of_isDirectlyIn (h : s.workspace.InStep) {inner outer : TypeKey}
    (hdirectly : s.IsDirectlyIn inner outer) :
    outer.qualifiedName.length < inner.qualifiedName.length := by
  obtain ⟨info, hinfo, hnamed⟩ := Option.bind_eq_some_iff.1 hdirectly
  obtain ⟨name, hname, rfl⟩ := Option.map_eq_some_iff.1 hnamed
  exact h.outer_lt hinfo hname

/-- With enough fuel the chain ends at a type that stands in no other one. -/
theorem mem_outerChain_iff (h : s.workspace.InStep) {fuel : Nat} {key around : TypeKey}
    (hfuel : key.qualifiedName.length < fuel) :
    around ∈ s.outerChain fuel key ↔ Relation.ReflTransGen s.IsDirectlyIn key around := by
  induction fuel generalizing key with
  | zero => exact absurd hfuel (Nat.not_lt_zero _)
  | succ fuel ih =>
    rw [outerChain, List.mem_cons, Relation.ReflTransGen.cases_head_iff, eq_comm]
    refine or_congr_right ?_
    cases houter : s.outer? key with
    | none =>
      refine iff_of_false List.not_mem_nil ?_
      rintro ⟨outer, hdirectly, -⟩
      rw [IsDirectlyIn, houter] at hdirectly
      cases hdirectly
    | some outer =>
      rw [ih (Nat.lt_of_lt_of_le (length_lt_of_isDirectlyIn h houter) (Nat.lt_succ_iff.1 hfuel))]
      constructor
      · exact fun hchain => ⟨outer, houter, hchain⟩
      · rintro ⟨other, hdirectly, hchain⟩
        rwa [Option.some.inj (houter.symm.trans hdirectly)]

/-- **The types around a place** in a type are the type and those in which it stands, directly or
through others. -/
theorem mem_enclosingChain_iff (h : s.workspace.InStep) {key around : TypeKey} :
    around ∈ s.enclosingChain (some key) ↔ Relation.ReflTransGen s.IsDirectlyIn key around :=
  mem_outerChain_iff h (Nat.lt_succ_self _)

end BoundWorkspace

/-! ## Adding the parts of a hierarchy -/

variable {ws : Workspace}

namespace ScopeDraft

variable {draft : ScopeDraft} {docs : List Document}

@[simp] theorem projects_add (draft : ScopeDraft) (doc : Document) :
    (draft.add doc).projects = draft.projects := by
  unfold add
  split <;> rfl

theorem projects_addProject_of_mem {name : String} (h : name ∈ draft.projects) :
    (draft.addProject name).projects = draft.projects := by
  rw [addProject, if_pos (List.contains_iff_mem.2 h)]

theorem projects_addProject_of_not_mem {name : String} (h : name ∉ draft.projects) :
    (draft.addProject name).projects = draft.projects ++ [name] := by
  rw [addProject, if_neg (by simpa using h)]

/-- Adds the units of the project of the name. -/
def addUnitsOf (ws : Workspace) (coverage : Coverage) (draft : ScopeDraft) (name : String) :
    ScopeDraft :=
  match ws.project? name with
  | some project =>
    (project.parsedUnits ws.sources).foldl (·.addSource · coverage) (draft.addProject name)
  | none => draft

/-- Adds the archive of the number as seen from the first of the projects that has it. -/
def addHeldBy (ws : Workspace) (coverage : Coverage) (among : List String) (draft : ScopeDraft)
    (index : Nat) : ScopeDraft :=
  match holderOf? ws ⟨index⟩ among, ws.archive? ⟨index⟩ with
  | some project, some archive => draft.addArchive archive project coverage
  | _, _ => draft

/-- The documents of the units of a project. -/
def unitDocuments (ws : Workspace) (coverage : Coverage) (name : String) : List Document :=
  ((ws.project? name).toList.flatMap (·.parsedUnits ws.sources)).map (.ofSource · coverage)

/-- The document of an archive as seen from the first of the projects that has it. -/
def heldDocuments (ws : Workspace) (coverage : Coverage) (among : List String) (index : Nat) :
    List Document :=
  match holderOf? ws ⟨index⟩ among, ws.archive? ⟨index⟩ with
  | some project, some archive => [.ofArchive archive project coverage]
  | _, _ => []

theorem mem_unitDocuments_iff (h : ws.FilesInStep) {coverage : Coverage} {name : String}
    {doc : Document} :
    doc ∈ unitDocuments ws coverage name ↔ ∃ file source, ws.source? file = some source ∧
      source.project = name ∧ doc = .ofSource source coverage := by
  simp only [unitDocuments, List.mem_map, List.mem_flatMap, Option.mem_toList]
  constructor
  · rintro ⟨source, ⟨project, hproject, hsource⟩, rfl⟩
    obtain ⟨hget, hname⟩ := (h.mem_parsedUnits_iff hproject).1 hsource
    exact ⟨source.id, source, hget, hname, rfl⟩
  · rintro ⟨file, source, hsource, rfl, rfl⟩
    obtain ⟨project, hproject, hmem⟩ := h.exists_mem_parsedUnits hsource
    exact ⟨source, ⟨project, hproject, hmem⟩, rfl⟩

theorem Holds.addUnitsOf (h : draft.Holds docs) (coverage : Coverage) (name : String) :
    (addUnitsOf ws coverage draft name).Holds (docs ++ unitDocuments ws coverage name) := by
  unfold ScopeDraft.addUnitsOf unitDocuments
  cases ws.project? name with
  | none => simpa using h
  | some project =>
    have hfold := Holds.foldl [] (fun source => [Document.ofSource source coverage])
      (fun source _ hdraft => hdraft.addSource source coverage) (project.parsedUnits ws.sources)
      (h.addProject name) (List.nil_subset _)
    rw [← List.map_eq_flatMap] at hfold
    simpa using hfold

theorem Holds.addHeldBy (h : draft.Holds docs) (coverage : Coverage) (among : List String)
    (index : Nat) :
    (addHeldBy ws coverage among draft index).Holds
      (docs ++ heldDocuments ws coverage among index) := by
  unfold ScopeDraft.addHeldBy heldDocuments
  split
  next => exact h.add _
  next => simpa using h

/-- A project with its units is recorded once. -/
theorem projects_addUnitsOf (h : ws.FilesInStep) (coverage : Coverage) {name : String}
    {project : Project} (hproject : ws.project? name = some project) :
    (addUnitsOf ws coverage draft name).projects = (draft.addProject name).projects := by
  rw [ScopeDraft.addUnitsOf, hproject]
  refine List.foldlRecOn (motive := fun found : ScopeDraft =>
    found.projects = (draft.addProject name).projects) _ _ rfl ?_
  intro found hfound source hsource
  have hname : source.project = name := ((h.mem_parsedUnits_iff hproject).1 hsource).2
  have hmem : source.project ∈ found.projects := by
    rw [hfound, hname]
    by_cases hin : name ∈ draft.projects
    · rwa [projects_addProject_of_mem hin]
    · simp [projects_addProject_of_not_mem hin]
  rw [addSource, projects_add, projects_addProject_of_mem hmem, hfound]

/-- Projects that are new are recorded in their order. -/
theorem projects_foldl_addUnitsOf (h : ws.FilesInStep) (coverage : Coverage) {names : List String}
    (hnames : ∀ name ∈ names, ∃ project, ws.project? name = some project)
    (hnew : (draft.projects ++ names).Nodup) :
    (names.foldl (addUnitsOf ws coverage) draft).projects = draft.projects ++ names := by
  induction names generalizing draft with
  | nil => simp
  | cons name names ih =>
    obtain ⟨project, hproject⟩ := hnames name List.mem_cons_self
    have hfresh : name ∉ draft.projects := fun hmem =>
      (List.nodup_append.1 hnew).2.2 name hmem name List.mem_cons_self rfl
    have hfirst : (addUnitsOf ws coverage draft name).projects = draft.projects ++ [name] := by
      rw [projects_addUnitsOf h coverage hproject, projects_addProject_of_not_mem hfresh]
    rw [List.foldl_cons, ih (fun other hmem => hnames other (List.mem_cons_of_mem _ hmem))] <;>
      rw [hfirst, List.append_assoc, List.singleton_append]
    exact hnew

theorem projects_addHeldBy (coverage : Coverage) (among : List String) (index : Nat) :
    (addHeldBy ws coverage among draft index).projects = draft.projects := by
  unfold addHeldBy
  split
  · exact projects_add _ _
  · rfl

end ScopeDraft

/-! ## The scope of a hierarchy -/

namespace SearchScope

variable {s : BoundWorkspace} {hierarchy : TypeHierarchy}

/-- The types whose projects count: those of source files, or all types if there is none. -/
def rootsOf (hierarchy : TypeHierarchy) : List TypeKey :=
  let sourceTypes := hierarchy.types.filter (·.origin.file?.isSome)
  if sourceTypes.isEmpty then hierarchy.types else sourceTypes

/-- The projects that see one of the types that count, by name. -/
def candidatesOf (ws : Workspace) (hierarchy : TypeHierarchy) : List String :=
  ws.projects.keys.filter ((rootsOf hierarchy).flatMap ws.projectsSeeing).contains

/-- What every document of the scope covers. -/
def coverageOf (hierarchy : TypeHierarchy) : Coverage := .types hierarchy.types.eraseDups

/-- The documents that are added for a hierarchy, those of source files first. -/
def hierarchyDocuments (ws : Workspace) (hierarchy : TypeHierarchy) : List Document :=
  (candidatesOf ws hierarchy).flatMap (ScopeDraft.unitDocuments ws (coverageOf hierarchy)) ++
    (archivesOf hierarchy.types).flatMap
      (ScopeDraft.heldDocuments ws (coverageOf hierarchy) (candidatesOf ws hierarchy))

/-- The scope is made of the units of the projects and of the archives, one after the other. -/
theorem ofHierarchy_eq (s : BoundWorkspace) (hierarchy : TypeHierarchy) :
    ofHierarchy s hierarchy = ((archivesOf hierarchy.types).foldl
      (ScopeDraft.addHeldBy s.workspace (coverageOf hierarchy) (candidatesOf s.workspace hierarchy))
      ((candidatesOf s.workspace hierarchy).foldl
        (ScopeDraft.addUnitsOf s.workspace (coverageOf hierarchy)) {})).finish
          (.hierarchy hierarchy.focus) := rfl

theorem encloses_coverageOf_iff {around : List TypeKey} :
    (coverageOf hierarchy).encloses around = true ↔ ∃ key ∈ around, key ∈ hierarchy.types := by
  simp [coverageOf, Coverage.encloses, List.mem_eraseDups]

theorem mem_rootsOf_iff {key : TypeKey} :
    key ∈ rootsOf hierarchy ↔ key ∈ hierarchy.types ∧
      ((∃ other ∈ hierarchy.types, other.origin.file?.isSome = true) →
        key.origin.file?.isSome = true) := by
  unfold rootsOf
  dsimp only
  by_cases hsome : ∃ other ∈ hierarchy.types, other.origin.file?.isSome = true
  · have hne : hierarchy.types.filter (·.origin.file?.isSome) ≠ [] := by
      obtain ⟨other, hother⟩ := hsome
      exact List.ne_nil_of_mem (List.mem_filter.2 hother)
    rw [if_neg (by simpa using hne), List.mem_filter]
    exact and_congr_right fun _ => ⟨fun hsource _ => hsource, fun hsource => hsource hsome⟩
  · have hnil : hierarchy.types.filter (·.origin.file?.isSome) = [] :=
      List.filter_eq_nil_iff.2 fun other hmem hsource => hsome ⟨other, hmem, hsource⟩
    rw [hnil, if_pos List.isEmpty_nil]
    exact (and_iff_left fun hsource => absurd hsource hsome).symm

theorem mem_candidatesOf_iff {name : String} :
    name ∈ candidatesOf ws hierarchy ↔ ∃ key ∈ rootsOf hierarchy, name ∈ ws.projectsSeeing key := by
  simp only [candidatesOf, List.mem_filter, List.contains_iff_mem, List.mem_flatMap]
  refine and_iff_right_of_imp ?_
  rintro ⟨key, -, hseeing⟩
  exact (List.mem_filter.1 hseeing).1

theorem ascending_candidatesOf (ws : Workspace) (hierarchy : TypeHierarchy) :
    (candidatesOf ws hierarchy).Pairwise (· < ·) :=
  (List.pairwise_map.2 ws.projects.ascending).filter _

/-- **The projects of the scope** are those that see one of the types that count. -/
theorem projects_ofHierarchy (h : s.workspace.FilesInStep) (hierarchy : TypeHierarchy) :
    (ofHierarchy s hierarchy).projects = candidatesOf s.workspace hierarchy := by
  have hsources : ((candidatesOf s.workspace hierarchy).foldl
      (ScopeDraft.addUnitsOf s.workspace (coverageOf hierarchy)) {}).projects =
        candidatesOf s.workspace hierarchy :=
    ScopeDraft.projects_foldl_addUnitsOf h (coverageOf hierarchy)
      (fun name hmem => Table.mem_keys_iff.1 (List.mem_filter.1 hmem).1)
      ((List.pairwise_map.2 s.workspace.projects.entries_nodup).filter _)
  rw [ofHierarchy_eq]
  refine List.foldlRecOn (motive := fun found : ScopeDraft =>
    found.projects = candidatesOf s.workspace hierarchy) _ _ hsources ?_
  intro found hfound index _
  rw [ScopeDraft.projects_addHeldBy, hfound]

/-- **The documents of the scope** are what has become of those that were added. -/
theorem exists_draft_holds (s : BoundWorkspace) (hierarchy : TypeHierarchy) :
    ∃ draft : ScopeDraft, (ofHierarchy s hierarchy).documents = draft.toList ∧
      draft.Holds (hierarchyDocuments s.workspace hierarchy) := by
  have hsources := ScopeDraft.Holds.foldl []
    (ScopeDraft.unitDocuments s.workspace (coverageOf hierarchy))
    (fun name _ hdraft => hdraft.addUnitsOf (coverageOf hierarchy) name)
    (candidatesOf s.workspace hierarchy) ScopeDraft.holds_empty (List.nil_subset _)
  have hall := ScopeDraft.Holds.foldl []
    (ScopeDraft.heldDocuments s.workspace (coverageOf hierarchy)
      (candidatesOf s.workspace hierarchy))
    (fun index _ hdraft => hdraft.addHeldBy (coverageOf hierarchy) _ index)
    (archivesOf hierarchy.types) hsources (List.nil_subset _)
  exact ⟨_, rfl, hall⟩

theorem coverage_of_mem_hierarchyDocuments (h : ws.FilesInStep) {doc : Document}
    (hdoc : doc ∈ hierarchyDocuments ws hierarchy) : doc.coverage = coverageOf hierarchy := by
  rcases List.mem_append.1 hdoc with hdoc | hdoc
  · obtain ⟨name, -, hdoc⟩ := List.mem_flatMap.1 hdoc
    obtain ⟨file, source, -, -, rfl⟩ := (ScopeDraft.mem_unitDocuments_iff h).1 hdoc
    rfl
  · obtain ⟨index, -, hdoc⟩ := List.mem_flatMap.1 hdoc
    unfold ScopeDraft.heldDocuments at hdoc
    split at hdoc
    · rw [List.mem_singleton.1 hdoc]
      rfl
    · cases hdoc

/-- A source file of a project that counts has its place to itself, whatever archives come later. -/
theorem exists_at?_of_source (h : ws.FilesInStep) {draft : ScopeDraft}
    (hdraft : draft.Holds (hierarchyDocuments ws hierarchy)) {file : FileId} {source : SourceFile}
    (hsource : ws.source? file = some source)
    (hproject : source.project ∈ candidatesOf ws hierarchy) :
    ∃ found, draft.at? source.project source.path = some found ∧ found.id = .source file ∧
      ∀ around, (coverageOf hierarchy).encloses around = true →
        found.coverage.encloses around = true := by
  set units := (candidatesOf ws hierarchy).flatMap
    (ScopeDraft.unitDocuments ws (coverageOf hierarchy)) with hunits
  let doc := Document.ofSource source (coverageOf hierarchy)
  have hdoc : doc ∈ units := List.mem_flatMap.2
    ⟨_, hproject, (ScopeDraft.mem_unitDocuments_iff h).2 ⟨file, source, hsource, rfl, rfl⟩⟩
  obtain ⟨first, hfirst, hplace⟩ := (Document.exists_opened_or_isTakenBy hdoc).resolve_right
    (by simp [Document.isTakenBy, doc, Document.ofSource])
  -- the units come first, so the place is opened by one of them, which can only be the file itself
  have hid : first.id = .source file := by
    obtain ⟨name, -, hmem⟩ := List.mem_flatMap.1 (Document.mem_of_mem_opened hfirst)
    obtain ⟨other, target, htarget, -, rfl⟩ := (ScopeDraft.mem_unitDocuments_iff h).1 hmem
    rw [h.file_eq hsource htarget hplace.1.symm hplace.2.symm, ← h.source_id htarget]
    rfl
  obtain ⟨found, hat, hsame⟩ := hdraft.exists_at? (Document.opened_subset_append _ _ hfirst)
  rw [hplace.1, hplace.2] at hat
  refine ⟨found, hat, hsame.trans hid, fun around hencloses => ?_⟩
  exact hdraft.complete hat doc (List.mem_append_left _ hdoc) ⟨rfl, rfl⟩ rfl hencloses

/-- **A source type** counts iff the type or one that it stands in is of the hierarchy. -/
theorem enclosesType_ofHierarchy_iff (h : s.workspace.InStep) {file : FileId} {source : SourceFile}
    (hsource : s.workspace.source? file = some source) {key : TypeKey}
    (horigin : key.origin = .source file) :
    (ofHierarchy s hierarchy).enclosesType s key = true ↔
      ∃ around ∈ s.enclosingChain (some key), around ∈ hierarchy.types := by
  obtain ⟨draft, hdocuments, hdraft⟩ := exists_draft_holds s hierarchy
  rw [enclosesType, hdocuments, List.any_eq_true]
  constructor
  · rintro ⟨found, hfound, hkey⟩
    rw [Bool.and_eq_true] at hkey
    obtain ⟨project, resource, hat⟩ := ScopeDraft.mem_toList_iff.1 hfound
    obtain ⟨doc, hdoc, -, hencloses⟩ := hdraft.sound hat hkey.2
    rw [coverage_of_mem_hierarchyDocuments h.files hdoc] at hencloses
    exact encloses_coverageOf_iff.1 hencloses
  · rintro ⟨around, haround, hmem⟩
    have horigin' : around.origin = .source file :=
      (BoundWorkspace.origin_of_mem_enclosingChain haround).trans horigin
    have hseeing : source.project ∈ s.workspace.projectsSeeing around := by
      obtain ⟨origin, name⟩ := around
      obtain rfl : origin = .source file := horigin'
      exact BoundWorkspace.mem_projectsSeeing_of_sees h.files hsource hsource .refl
    have hroot : around ∈ rootsOf hierarchy :=
      mem_rootsOf_iff.2 ⟨hmem, fun _ => by rw [horigin']; rfl⟩
    obtain ⟨found, hat, hid, hcomplete⟩ := exists_at?_of_source h.files hdraft hsource
      (mem_candidatesOf_iff.2 ⟨around, hroot, hseeing⟩)
    refine ⟨found, ScopeDraft.mem_toList_iff.2 ⟨_, _, hat⟩, ?_⟩
    rw [Bool.and_eq_true, beq_iff_eq, hid, horigin]
    exact ⟨rfl, hcomplete _ (encloses_coverageOf_iff.2 ⟨around, haround, hmem⟩)⟩

/-- **The scope of the hierarchy of a type**, in a workspace that edits have made. A source type
that exists counts iff it, or a type in which it stands directly or through others, is the focus,
one of its supertypes or one of its subtypes. The projects of the scope are, by name and each once,
those that see one of the source types of the hierarchy, or one of all its types if there is no
source type among them. -/
theorem hierarchy_afterAll (edits : List Edit) {focus : TypeKey} {scope : SearchScope}
    (hscope : SearchScope.hierarchy (.ofWorkspace (Workspace.initial.afterAll edits)) focus =
      .ok scope) :
    let ws := Workspace.initial.afterAll edits
    let s := BoundWorkspace.ofWorkspace ws
    let supertypes := (s.hierarchy focus).supertypes
    let subtypes := (s.hierarchy focus).subtypes
    (∀ {key file info}, key.origin = .source file → ws.declared? key = some info →
      (scope.enclosesType s key = true ↔ ∃ around, Relation.ReflTransGen s.IsDirectlyIn key around ∧
        (around = focus ∨ around ∈ supertypes ∨ around ∈ subtypes))) ∧
    scope.projects.Pairwise (· < ·) ∧
    ∀ name, name ∈ scope.projects ↔ ∃ key, (key = focus ∨ key ∈ supertypes ∨ key ∈ subtypes) ∧
      ((∃ other, (other = focus ∨ other ∈ supertypes ∨ other ∈ subtypes) ∧
        other.origin.file?.isSome = true) → key.origin.file?.isSome = true) ∧
      name ∈ ws.projectsSeeing key := by
  intro ws s supertypes subtypes
  have h : ws.InStep := Workspace.inStep_afterAll edits
  have htypes : ∀ key, key ∈ (s.hierarchy focus).types ↔
      key = focus ∨ key ∈ supertypes ∨ key ∈ subtypes := fun key => by
    rw [TypeHierarchy.types, List.cons_append, List.mem_cons, List.mem_append]
    rfl
  have hchain : ∀ key around, around ∈ s.enclosingChain (some key) ↔
      Relation.ReflTransGen s.IsDirectlyIn key around :=
    fun _ _ => BoundWorkspace.mem_enclosingChain_iff h
  have hscope : SearchScope.hierarchy s focus = .ok scope := hscope
  unfold SearchScope.hierarchy at hscope
  split at hscope
  next => cases hscope
  next =>
    obtain rfl := Except.ok.inj hscope
    have hprojects : (ofHierarchy s (s.hierarchy focus)).projects =
        candidatesOf ws (s.hierarchy focus) := projects_ofHierarchy h.files _
    rw [hprojects]
    refine ⟨fun {key file info} horigin hinfo => ?_, ascending_candidatesOf _ _, fun name => ?_⟩
    · rw [Workspace.declared?, horigin] at hinfo
      obtain ⟨source, hsource, -⟩ := Option.bind_eq_some_iff.1 hinfo
      have hiff : (ofHierarchy s (s.hierarchy focus)).enclosesType s key = true ↔
          ∃ around ∈ s.enclosingChain (some key), around ∈ (s.hierarchy focus).types :=
        enclosesType_ofHierarchy_iff h hsource horigin
      simpa only [htypes, hchain] using hiff
    · simp only [mem_candidatesOf_iff, mem_rootsOf_iff, htypes, and_assoc]

/-- A type with a member type, in a project that another one requires. -/
def requiredMember : List Edit :=
  [.createProject ⟨"lib", [""], [], none⟩,
    .createFile "/lib/Base.java" "class Base \x7b class Inner \x7b\x7d \x7d",
    .createProject ⟨"app", [""], [.project "lib" false], none⟩]

/-- The scope of the hierarchy of the type takes in its member type, and it is made over the project
that requires the other one too. -/
theorem hierarchy_requiredMember :
    ∃ scope, SearchScope.hierarchy (.ofWorkspace (Workspace.initial.afterAll requiredMember))
        ⟨.source ⟨0⟩, "Base"⟩ = .ok scope ∧
      scope.enclosesType (.ofWorkspace (Workspace.initial.afterAll requiredMember))
        ⟨.source ⟨0⟩, "Base.Inner"⟩ = true ∧
      "app" ∈ scope.projects := by
  let focus : TypeKey := ⟨.source ⟨0⟩, "Base"⟩
  let s := BoundWorkspace.ofWorkspace (Workspace.initial.afterAll requiredMember)
  have hknown : (s.declared? focus).isNone = false := by decide +kernel
  have hscope : SearchScope.hierarchy s focus = .ok (ofHierarchy s (s.hierarchy focus)) := by
    rw [SearchScope.hierarchy, hknown, if_neg Bool.false_ne_true]
  obtain ⟨hencloses, -, hprojects⟩ := hierarchy_afterAll requiredMember hscope
  have hinner : (s.declared? ⟨.source ⟨0⟩, "Base.Inner"⟩).isSome = true := by decide +kernel
  obtain ⟨info, hinfo⟩ := Option.isSome_iff_exists.1 hinner
  have houter : s.outer? ⟨.source ⟨0⟩, "Base.Inner"⟩ = some focus := by decide +kernel
  have hseeing : "app" ∈ s.workspace.projectsSeeing focus := by decide +kernel
  exact ⟨_, hscope, (hencloses rfl hinfo).2 ⟨focus, .single houter, Or.inl rfl⟩,
    (hprojects "app").2 ⟨focus, Or.inl rfl, fun _ => rfl, hseeing⟩⟩

end SearchScope

end SourceSearch
