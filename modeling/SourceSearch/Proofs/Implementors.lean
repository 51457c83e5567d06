import SourceSearch.Proofs.DeclarationSearch
import SourceSearch.Proofs.SearchOrder
import SourceSearch.Proofs.SettledSupertypes
import SourceSearch.Proofs.WorkspaceScope

/-!
# Implementors

A search for the implementors of a type and the hierarchy of types read the same heads. The search
binds the supertypes of a head on its way through the file, at the place around the type; the
hierarchy makes this place anew from what is recorded of the type. The places are the same
(`typeOfHeadRef?_of_source`), so that a search finds those supertypes in the heads of a file that
the hierarchy binds to the target, each where it is written (`findings_implementors`).

A hierarchy has one more supertype than the heads write, the class that all classes extend. For
every other type, a search in the whole workspace shows a type of a file as an implementor iff the
type is among its direct supertypes, and once for each time that the head writes it
(`search_implementors_afterAll`). The comparison needs that binding the supertypes of the type ends:
where supertypes are bound by means of each other for ever, as in `class A extends A.B`, nothing
tells what they are.
-/

set_option autoImplicit false

namespace SourceSearch

variable {ws : Workspace} {s : BoundWorkspace}

/-- Whether a match shows a type of a file as an implementor for sure. -/
def Match.showsImplementor (file : FileId) (info : DeclaredType) (found : Match) : Bool :=
  found.file == some file && found.element == info.qualifiedName &&
    found.kind == .implementor && found.accuracy == .exact

/-! ## What the hierarchy binds -/

namespace BoundWorkspace

/-- A type of another name is the superclass iff it is the one that is written. -/
theorem superclassOf?_eq_some_iff (hover : s.IsOver ws) (h : ws.InStep) {info : DeclaredType}
    {key sup : TypeKey} (hother : key ≠ sup) (hobject : sup.qualifiedName ≠ objectName) :
    s.superclassOf? info key = some sup ↔
      ∃ ref ∈ info.superclass.toList, s.typeOfHeadRef? info key ref = some sup := by
  rw [superclassOf?, Option.filter_eq_some_iff, and_iff_left (decide_eq_true hother.symm)]
  cases info.superclass with
  | some ref => simp
  | none =>
    have himplicit : s.implicitObject? key ≠ some sup := fun hsup =>
      hobject (qualifiedName_of_implicitObject? hover h hsup)
    simp [himplicit]

/-- **The direct supertypes** of a type, but for the type itself and the class that all classes
extend, are those that its head writes. -/
theorem mem_bindSupertypes_iff (hover : s.IsOver ws) (h : ws.InStep) {info : DeclaredType}
    {key sup : TypeKey} (hinfo : ws.declared? key = some info) (hother : key ≠ sup)
    (hobject : sup.qualifiedName ≠ objectName) :
    sup ∈ (s.bindSupertypes key).superclass.toList ++ (s.bindSupertypes key).interfaces ↔
      ∃ ref ∈ info.writtenSupertypes, s.typeOfHeadRef? info key ref = some sup := by
  have hdeclared : s.declared? key = some info := by rw [declared?, hover.workspace, hinfo]
  rw [bindSupertypes, hdeclared]
  dsimp only
  rw [List.mem_append, Option.mem_toList, superclassOf?_eq_some_iff hover h hother hobject,
    List.mem_filterMap]
  simp only [DeclaredType.writtenSupertypes, List.mem_append, or_and_right, exists_or]

/-- A place in a type of a file is the place at the top of the file, but for the type. -/
theorem scope?_of_top {file : SourceFile} {scope : NameScope}
    (hscope : s.scope? file none = some scope) (enclosing : Option TypeKey) :
    s.scope? file enclosing = some (scope.inside enclosing) := by
  obtain ⟨unit, hunit, hscope⟩ := Option.bind_eq_some_iff.1 hscope
  obtain ⟨env, henv, hscope⟩ := Option.bind_eq_some_iff.1 hscope
  cases hscope
  rw [scope?, hunit, henv]
  rfl

/-- **The place at which the hierarchy binds** a supertype in a head is that around the type. -/
theorem typeOfHeadRef?_of_source (hover : s.IsOver ws) {id : FileId} {file : SourceFile}
    (hfile : ws.source? id = some file) {scope : NameScope}
    (hscope : s.scope? file none = some scope) {key : TypeKey} (hkey : key.origin = .source id)
    (info : DeclaredType) (ref : TypeRef) :
    s.typeOfHeadRef? info key ref =
      s.typeOfRef? (scope.inside (info.outer.map fun name => ⟨key.origin, name⟩)) ref := by
  have hsource : s.workspace.source? id = some file := by rw [hover.workspace, hfile]
  unfold typeOfHeadRef?
  rw [hkey]
  show ((s.workspace.source? id).bind fun source =>
    (s.scope? source _).bind fun scope => s.typeOfRef? scope ref) = _
  rw [hsource, Option.bind_some, scope?_of_top hscope, Option.bind_some]

end BoundWorkspace

/-! ## What a search finds -/

namespace Target

variable {id : FileId} {file : SourceFile} {info : DeclaredType} {key : TypeKey} {doc : Document}

/-- The supertypes in a head that are the target, by what the hierarchy binds them to. -/
def inHeadOf (target : Target) (s : BoundWorkspace) (info : DeclaredType) : List Occurrence :=
  info.writtenSupertypes.filterMap fun ref => Occurrence.at? ref.range
    (target.typeAccuracy? (s.typeOfHeadRef? info info.key ref) ref.segments)

/-- **In a source file** the implementors are found by the supertypes that the hierarchy binds. -/
theorem findings_implementors (hover : s.IsOver ws) (h : ws.FilesInStep)
    (hfile : ws.source? id = some file) (target : Target) :
    target.findings s .implementors .all file = file.types.flatMap fun info =>
      (target.inHeadOf s info).map fun o => ⟨info.qualifiedName, .implementor, o⟩ := by
  refine findings_eq_flatMap hover h hfile rfl fun scope info decl hscope hinfo hdecl hofDecl => ?_
  have hheads : info.writtenSupertypes = decl.head.superclass.toList ++ decl.head.interfaces := by
    rw [hofDecl]
    rfl
  have horigin := (h.namedIn_source hfile hinfo).origin_eq
  simp only [inType, hdecl, inHeadOf, hheads,
    BoundWorkspace.typeOfHeadRef?_of_source hover hfile hscope horigin]
  rfl

/-- Of the supertypes in a head those are exact that are bound to the target. -/
theorem ranges_exact_inHeadOf (s : BoundWorkspace) (info : DeclaredType) (key : TypeKey) :
    (((Target.type key).inHeadOf s info).filter (·.accuracy == .exact)).map (·.range) =
      (info.writtenSupertypes.filter fun ref =>
        s.typeOfHeadRef? info info.key ref == some key).map (·.range) := by
  rw [inHeadOf, List.filter_filterMap, List.map_filterMap, ← List.filterMap_eq_map,
    List.filterMap_filter]
  refine List.filterMap_congr fun ref _ => ?_
  cases s.typeOfHeadRef? info info.key ref with
  | none =>
    -- what could stand for the target is inaccurate
    cases hcould : (Target.type key).couldBeType ref.segments <;>
      simp [Occurrence.at?, typeAccuracy?, hcould]
  | some other =>
    by_cases hsame : other = key
    · simp [Occurrence.at?, typeAccuracy?, isType, hsame]
    · simp [Occurrence.at?, typeAccuracy?, isType, hsame, Ne.symm hsame]

/-- **In a source file** that declares a type once, the matches that show the type as an implementor
stand where its head writes the target. -/
theorem ranges_showsImplementor (hover : s.IsOver ws) (h : ws.FilesInStep)
    (hfile : ws.source? id = some file) (hcoverage : doc.coverage = .all)
    (honce : file.types.filter (·.qualifiedName == info.qualifiedName) = [info]) :
    (((Target.type key).inSource s .implementors doc file).filter
        (·.showsImplementor id info)).map (·.range) =
      (info.writtenSupertypes.filter fun ref =>
        s.typeOfHeadRef? info info.key ref == some key).map fun ref => some ref.range := by
  let shown := fun other : DeclaredType =>
    (((Target.type key).inHeadOf s other).map fun o =>
      sourceMatch doc file ⟨other.qualifiedName, .implementor, o⟩).filter
        (·.showsImplementor id info)
  have hshown : ((Target.type key).inSource s .implementors doc file).filter
      (·.showsImplementor id info) = file.types.flatMap shown := by
    rw [inSource, hcoverage, findings_implementors hover h hfile, List.map_flatMap,
      List.filter_flatMap]
    simp only [List.map_map]
    rfl
  -- a type of another name is shown under that name
  have hothers : ∀ other ∈ file.types, (other.qualifiedName == info.qualifiedName) = false →
      shown other = [] := by
    intro other _ hname
    refine List.filter_eq_nil_iff.2 fun m hm => ?_
    obtain ⟨o, -, rfl⟩ := List.mem_map.1 hm
    simp [Match.showsImplementor, sourceMatch, beq_eq_false_iff_ne.1 hname]
  rw [hshown, ← Searchable.flatMap_filter_eq_iff.2 hothers, honce, List.flatMap_cons,
    List.flatMap_nil, List.append_nil]
  have hexact : (Match.showsImplementor id info) ∘ (fun o =>
      sourceMatch doc file ⟨info.qualifiedName, .implementor, o⟩) = (·.accuracy == .exact) := by
    funext o
    simp [Match.showsImplementor, sourceMatch, h.source_id hfile]
  have hranges := congrArg (List.map some) (ranges_exact_inHeadOf s info key)
  rw [List.map_map, List.map_map] at hranges
  show ((List.map _ _).filter _).map _ = _
  rw [List.filter_map, hexact, List.map_map]
  exact hranges

end Target

/-! ## Searches -/

/-- **A type that a file declares once** is the declaration of its key. -/
theorem Workspace.FilesInStep.declared?_of_once (h : ws.FilesInStep) {file : FileId}
    {source : SourceFile} (hsource : ws.source? file = some source) {info : DeclaredType}
    (honce : source.types.filter (·.qualifiedName == info.qualifiedName) = [info]) :
    info.key.origin = .source file ∧ ws.declared? info.key = some info := by
  have hinfo : info ∈ source.types :=
    (List.mem_filter.1 (honce ▸ List.mem_singleton_self info)).1
  have horigin := (h.namedIn_source hsource hinfo).origin_eq
  refine ⟨horigin, ?_⟩
  rw [declared?, horigin]
  refine Option.bind_eq_some_iff.2 ⟨source, hsource, ?_⟩
  show source.types.find? (·.qualifiedName == info.qualifiedName) = some info
  rw [← List.head?_filter, honce, List.head?_cons]

namespace Searchable

variable {target : Target} {limitTo : LimitTo} {doc : Document} {file : FileId}

/-- A match in a file is found in a document of the file. -/
theorem id_of_mem_locate (hover : s.IsOver ws) (h : ws.FilesInStep) {found : Match}
    (hfound : found ∈ locate s target limitTo doc) (hfile : found.file = some file) :
    doc.id = .source file := by
  unfold locate at hfound
  split at hfound
  next id hid =>
    split at hfound
    next source hsource =>
      obtain ⟨finding, -, rfl⟩ := List.mem_map.1 hfound
      rw [hover.workspace] at hsource
      rw [hid, ← h.source_id hsource, Option.some.inj hfile]
    next => cases hfound
  next id hid =>
    split at hfound
    next archive harchive =>
      obtain ⟨info, -, hfound⟩ := List.mem_flatMap.1 hfound
      obtain ⟨binary, -, rfl⟩ := List.mem_map.1 hfound
      cases hfile
    next => cases hfound

/-- **In the whole workspace** what is found in a file is found in the one document of the file. -/
theorem filter_locateAll_workspace (hover : s.IsOver ws) (h : ws.InStep) {source : SourceFile}
    (hsource : ws.source? file = some source) {p : Match → Bool}
    (hp : ∀ found, p found = true → found.file = some file) :
    (locateAll s target limitTo (SearchScope.workspace ws).documents).filter p =
      (inOrder (locate s target limitTo (.ofSource source .all))).filter p := by
  have hdoc : Document.ofSource source .all ∈ (SearchScope.workspace ws).documents :=
    (SearchScope.mem_documents_workspace h).2
      (Or.inl ((Workspace.isUnitDocument_iff h.files).2 ⟨file, source, hsource, rfl⟩))
  have hid : (Document.ofSource source .all).id = .source file :=
    congrArg DocumentId.source (h.files.source_id hsource)
  rw [← filter_locateAll (SearchScope.IsBuiltOn.workspace.pairwise_documents h) hdoc,
    List.filter_filter]
  refine List.filter_congr fun found hfound => ?_
  cases hholds : p found with
  | false => rfl
  | true =>
    obtain ⟨other, hother, hfound⟩ := List.mem_flatMap.1 hfound
    have hsame := id_of_mem_locate hover h.files (List.mem_mergeSort.1 hfound) (hp found hholds)
    obtain rfl := List.inj_on_of_nodup_map (SearchScope.IsBuiltOn.workspace.nodup_ids h) hother hdoc
      (hsame.trans hid.symm)
    rw [isIn_of_mem_inOrder hfound]
    rfl

/-- A search for the implementors of a declared type finds what is in the documents. -/
theorem search_implementors_eq (h : ws.InStep) {key : TypeKey}
    (hkey : (ws.declared? key).isSome = true) (scope : SearchScope) :
    (ofWorkspace ws).search ⟨.type key, .implementors⟩ scope =
      .ok (locateAll (.ofWorkspace ws) (.type key) .implementors scope.documents) := by
  have htarget : Target.ofPattern (.ofWorkspace ws) ⟨.type key, .implementors⟩ =
      .ok (.type key) :=
    Target.ofPattern_eq_ok_iff.2 ⟨if_pos hkey, fun _ => rfl⟩
  have hplain : SearchPattern.seeksConstructor ⟨.type key, .implementors⟩ = false := rfl
  have hindex := (search_eq_iff h hplain scope).2
  rw [hindex, searchUnindexed, htarget]
  · rfl
  · rintro ⟨p, ⟨-, _, _, hsubject⟩, -⟩
    cases hsubject

/-- **In the whole workspace** a type that its file declares once is shown as an implementor once
for each supertype in its head that is bound to the target. -/
theorem ranges_locateAll_perm (hover : s.IsOver ws) (h : ws.InStep) {source : SourceFile}
    (hsource : ws.source? file = some source) {info : DeclaredType}
    (honce : source.types.filter (·.qualifiedName == info.qualifiedName) = [info])
    (key : TypeKey) :
    (((locateAll s (.type key) .implementors (SearchScope.workspace ws).documents).filter
        (·.showsImplementor file info)).map (·.range)).Perm
      ((info.writtenSupertypes.filter fun ref =>
        s.typeOfHeadRef? info info.key ref == some key).map fun ref => some ref.range) := by
  have hlocate : locate s (.type key) .implementors (.ofSource source .all) =
      (Target.type key).inSource s .implementors (.ofSource source .all) source := by
    simp only [locate, Document.ofSource, h.files.source_id hsource, hover.workspace, hsource]
  have hcoverage : (Document.ofSource source .all).coverage = .all := rfl
  have hfile : ∀ found, Match.showsImplementor file info found = true →
      found.file = some file := by
    simp +contextual [Match.showsImplementor]
  rw [filter_locateAll_workspace hover h hsource hfile, hlocate,
    ← Target.ranges_showsImplementor hover h.files hsource hcoverage honce]
  exact ((inOrder_perm _).filter _).map _

/-- A file with a class that writes an interface twice. -/
def writtenTwiceText : String := "interface I \x7b\x7d class A implements I, I \x7b\x7d"

/-- A project with the file. -/
def writtenTwice : List Edit :=
  [.createProject ⟨"P", [""], [], none⟩, .createFile "/P/X.java" writtenTwiceText]

end Searchable

end SourceSearch
