import Mathlib
import SourceSearch.Proofs.ConstructorUses
import SourceSearch.Proofs.DeclaredNames
import SourceSearch.Proofs.IndexedSearch

/-!
# Searches for constructors with the index

Who looks for the uses of a constructor asks the index for its name, which is that of its type.
Where a document is skipped although it uses the constructor, the use is one that does without the
name (`Document.HidesUse`). Just these uses are lost (`search_constructor_eq_iff`).
-/

set_option autoImplicit false

namespace SourceSearch

variable {ws : Workspace} {s : BoundWorkspace} {handle : MethodHandle}

/-- **A type of the file that counts** uses the constructor without its name, in a member of its
own. -/
def SourceFile.UsesUnnamed (s : BoundWorkspace) (coverage : Coverage) (file : SourceFile)
    (handle : MethodHandle) : Prop :=
  ∃ scope, s.scope? file none = some scope ∧
    ∃ info ∈ file.types, coverage.encloses (s.enclosingChain (some info.key)) = true ∧
      ∃ decl, info.decl? scope.unit = some decl ∧ ∃ member ∈ decl.members, ¬member.IsType ∧
        ∃ locals e,
          Place.expr locals e ∈ s.memberPlaces (scope.inside (some info.key)) .none member ∧
            s.UsesUnnamed (scope.inside (some info.key)) locals handle e.kind

/-- A source file uses the constructor without its name, and has this word nowhere. -/
def Document.HidesUse (s : BoundWorkspace) (doc : Document) (handle : MethodHandle) : Prop :=
  ∃ file source, doc.id = .source file ∧ s.workspace.source? file = some source ∧
    handle.selector ∉ WordIndex.wordsOfText source.text ∧ source.UsesUnnamed s doc.coverage handle

/-! ## Superclasses that a file writes -/

/-- **The superclass of a type of a file** is named in the file, unless the type writes none. -/
theorem Workspace.InStep.word_of_superclass? (h : ws.InStep) {file : FileId} {source : SourceFile}
    (hsource : ws.source? file = some source) {info : DeclaredType} (hinfo : info ∈ source.types)
    {sup : TypeKey} (hsup : (BoundWorkspace.ofWorkspace ws).superclass? info.key = some sup) :
    sup.simpleName ∈ WordIndex.wordsOfText source.text ∨
      ((BoundWorkspace.ofWorkspace ws).declared? info.key).bind (·.superclass) = none := by
  have horigin := (h.files.namedIn_source hsource hinfo).origin_eq
  obtain ⟨t, ht, hbound⟩ :=
    BoundWorkspace.exists_supertypes_eq_bindSupertypes (Workspace.mem_typeKeys hsource hinfo)
  rw [BoundWorkspace.superclass?, hbound, BoundWorkspace.bindSupertypes,
    BoundWorkspace.declared?, ht.workspace] at hsup
  -- of several declarations of one name the first one counts
  show _ ∨ (ws.declared? info.key).bind (·.superclass) = none
  cases hdeclared : ws.declared? info.key with
  | none => exact Or.inr rfl
  | some declared =>
    rw [hdeclared] at hsup
    obtain ⟨hsup, -⟩ := Option.filter_eq_some_iff.1 hsup
    cases hwritten : declared.superclass with
    | none => exact Or.inr hwritten
    | some ref =>
      rw [hwritten] at hsup
      left
      have hinfile : declared ∈ source.types := by
        rw [Workspace.declared?, horigin] at hdeclared
        obtain ⟨other, hother, hfound⟩ := Option.bind_eq_some_iff.1 hdeclared
        obtain rfl := Option.some.inj (hsource.symm.trans hother)
        exact List.mem_of_find?_eq_some hfound
      have href : ref.WrittenIn (· ∈ WordIndex.wordsOfText source.text) := by
        refine (h.files.namedIn_source hsource hinfile).heads ref (List.mem_append_left _ ?_)
        rw [hwritten]
        exact List.mem_singleton_self ref
      have hlast : ref.isPrimitive = false ∧ ref.segments.getLast? = some sup.simpleName := by
        simp only [BoundWorkspace.typeOfHeadRef?, horigin] at hsup
        obtain ⟨other, hother, hsup⟩ := Option.bind_eq_some_iff.1 hsup
        obtain ⟨scope, hscope, hsup⟩ := Option.bind_eq_some_iff.1 hsup
        rw [ht.workspace] at hother
        exact BoundWorkspace.simpleName_of_typeOfRef? (ht.isIn_of_scope? h hother hscope) h
          (href.imp fun _ => isWord_of_mem_wordsOfText) hsup
      exact href.word_of_getLast? hlast.1 hlast.2

/-- What a type writes of its superclass, and its own name, are words of the file. -/
theorem Workspace.InStep.namedIn_inside (h : ws.InStep) {file : FileId} {source : SourceFile}
    (hsource : ws.source? file = some source) {info : DeclaredType} (hinfo : info ∈ source.types)
    (scope : NameScope) :
    (scope.inside (some info.key)).NamedIn (· ∈ WordIndex.wordsOfText source.text)
      (.ofWorkspace ws) where
  enclosing henclosing := by
    obtain rfl := Option.some.inj henclosing
    exact (h.files.namedIn_source hsource hinfo).name
  superclass henclosing hsup := by
    obtain rfl := Option.some.inj henclosing
    exact h.word_of_superclass? hsource hinfo hsup

/-! ## References to a method -/

namespace Target

variable {hierarchy : TypeHierarchy}

/-- **References to a method** in a type are expressions in the members of its own. -/
theorem exists_mem_references_iff {outside inside : NameScope} {info : DeclaredType}
    {decl : TypeDecl} {kind : MatchKind} {o : Occurrence} :
    (∃ label, ⟨label, kind, o⟩ ∈ (method handle hierarchy).references s outside inside info decl) ↔
      kind = .reference ∧ ∃ member ∈ decl.members, ¬member.IsType ∧
        ∃ locals e, Place.expr locals e ∈ s.memberPlaces inside .none member ∧
          (method handle hierarchy).inExpr? s inside locals e = some o := by
  constructor
  · rintro ⟨label, hfound⟩
    rcases List.mem_append.1 hfound with hfound | hfound
    · -- the head of a type refers to types only
      obtain ⟨o, ho, -⟩ := List.mem_map.1 hfound
      obtain ⟨place, hplace, ho⟩ := List.mem_filterMap.1 ho
      obtain ⟨ref, -, rfl⟩ := List.mem_map.1 hplace
      cases ho
    · obtain ⟨⟨label, places⟩, hplaces, hfound⟩ := List.mem_flatMap.1 hfound
      obtain ⟨member, hmember, hplaces⟩ := List.mem_filterMap.1 hplaces
      obtain ⟨hplain, rfl⟩ := exists_memberPlaces_eq_iff.1 ⟨label, hplaces⟩
      obtain ⟨other, ho, heq⟩ := List.mem_map.1 hfound
      obtain ⟨-, rfl, rfl⟩ := Finding.mk.inj heq
      obtain ⟨place, hplace, ho⟩ := List.mem_filterMap.1 ho
      cases place with
      | expr locals e => exact ⟨rfl, member, hmember, hplain, locals, e, hplace, ho⟩
      | typeRef ref => cases ho
  · rintro ⟨rfl, member, hmember, hplain, locals, e, hplace, ho⟩
    obtain ⟨label, hplaces⟩ := exists_memberPlaces_eq_iff.2 ⟨hplain, rfl⟩
    refine ⟨label, List.mem_append_right _ (List.mem_flatMap.2 ?_)⟩
    exact ⟨_, List.mem_filterMap.2 ⟨member, hmember, hplaces⟩,
      List.mem_map_of_mem (List.mem_filterMap.2 ⟨_, hplace, ho⟩)⟩

/-- No written type is a method. -/
theorem typeAccuracy?_method {bound : Option TypeKey} {segments : List String} :
    (method handle hierarchy).typeAccuracy? bound segments = none := by
  cases bound with
  | some key => rfl
  | none =>
    rw [typeAccuracy?, couldBeType]
    split <;> rfl

/-! ## Source files -/

variable {limitTo : LimitTo} (hlimit : limitTo.includesReferences = true)

/-- **A source file where a use of a constructor is found** has its name, or a type that counts does
without it. -/
theorem word_or_usesUnnamed_of_mem_findings (h : ws.InStep)
    (hconstructor : handle.isConstructor = true) (hword : IsWord handle.selector) {id : FileId}
    {file : SourceFile} (hfile : ws.source? id = some file) {coverage : Coverage} {found : Finding}
    (hfound : found ∈ (method handle hierarchy).findings (.ofWorkspace ws) limitTo coverage file) :
    handle.selector ∈ WordIndex.wordsOfText file.text ∨
      file.UsesUnnamed (.ofWorkspace ws) coverage handle := by
  have hover := BoundWorkspace.isOver_ofWorkspace ws
  unfold findings at hfound
  split at hfound
  next => cases hfound
  next scope hscope =>
    have hin := hover.isIn_of_scope? h hfile hscope
    obtain ⟨hunit, -⟩ := hover.of_scope? hscope
    obtain ⟨border, hi, hread⟩ := h.files.unit_readIn hfile hunit
    rcases List.mem_append.1 hfound with hfound | hfound
    · -- an import names no method
      cases (List.mem_ite_nil_right.1 hfound).2
    · obtain ⟨info, hinfo, hfound⟩ := List.mem_flatMap.1 hfound
      obtain ⟨hinfo, hcounts⟩ := List.mem_filter.1 hinfo
      obtain ⟨decl, hdecl, -⟩ := h.files.exists_decl? hfile hunit hinfo
      have hwritten := DeclaredType.writtenIn_decl? hread.writtenIn hdecl
      rw [inType, hdecl] at hfound
      rcases List.mem_append.1 hfound with hfound | hfound
      · rcases List.mem_append.1 hfound with hfound | hfound
        · have hname := (h.files.namedIn_source hfile hinfo).name
          exact Or.inl ((names_method handle hierarchy).word_of_mem_declarations hname
            (TypeDecl.writtenIn_members hwritten) (List.mem_ite_nil_right.1 hfound).2)
        · obtain ⟨-, member, hmember, hplain, locals, e, hplace, ho⟩ :=
            exists_mem_references_iff.1 ⟨found.label, (List.mem_ite_nil_right.1 hfound).2⟩
          have hnode := (BoundWorkspace.ofWorkspace ws).memberPlaces_subset
            (scope.inside (some info.key)) .none member _ hplace
          have he := hread.writtenIn_expr
            (DeclaredType.walk_subset hdecl (Walk.member_subset hmember hnode))
          rcases word_or_usesUnnamed hconstructor (hin.inside _) h
            (fun _ => isWord_of_mem_wordsOfText) (h.namedIn_inside hfile hinfo scope) hword he
            (Option.isSome_of_eq_some ho) with hnamed | huse
          · exact Or.inl hnamed
          · exact Or.inr ⟨scope, hscope, info, hinfo, hcounts, decl, hdecl, member, hmember, hplain,
              locals, e, hplace, huse⟩
      · obtain ⟨o, ho, -⟩ := List.mem_map.1 (List.mem_ite_nil_right.1 hfound).2
        obtain ⟨ref, -, ho⟩ := List.mem_filterMap.1 ho
        rw [typeAccuracy?_method] at ho
        cases ho

include hlimit

/-- **A use without the name** is found when its file is looked at. -/
theorem exists_mem_findings_of_usesUnnamed (hconstructor : handle.isConstructor = true)
    {file : SourceFile} {coverage : Coverage} (huse : file.UsesUnnamed s coverage handle) :
    ∃ found, found ∈ (method handle hierarchy).findings s limitTo coverage file := by
  obtain ⟨scope, hscope, info, hinfo, hcounts, decl, hdecl, member, hmember, hplain, locals, e,
    hplace, huse⟩ := huse
  have hsome : ((method handle hierarchy).inExpr? s (scope.inside (some info.key)) locals e).isSome :=
    isSome_inExpr?_of_usesUnnamed hconstructor huse
  obtain ⟨o, ho⟩ := Option.isSome_iff_exists.1 hsome
  obtain ⟨label, hfound⟩ :=
    exists_mem_references_iff.2 ⟨rfl, member, hmember, hplain, locals, e, hplace, ho⟩
  refine ⟨⟨label, .reference, o⟩, ?_⟩
  rw [findings, hscope]
  refine List.mem_append_right _ (List.mem_flatMap.2 ⟨info, List.mem_filter.2 ⟨hinfo, hcounts⟩, ?_⟩)
  rw [inType, hdecl]
  refine List.mem_append_left _ (List.mem_append_right _ ?_)
  exact List.mem_ite_nil_right.2 ⟨hlimit, hfound⟩

end Target

/-! ## Documents -/

namespace Searchable

variable {hierarchy : TypeHierarchy} {limitTo : LimitTo} {doc : Document}

/-- **A document where something of a constructor is found** may have its name, or hides a use. -/
theorem mayContain_or_hidesUse (h : ws.InStep) (hconstructor : handle.isConstructor = true)
    (hword : IsWord handle.selector) {found : Match}
    (hfound : found ∈ locate (.ofWorkspace ws) (.method handle hierarchy) limitTo doc) :
    (WordIndex.ofWorkspace ws).mayContain doc.id handle.selector = true ∨
      doc.HidesUse (.ofWorkspace ws) handle := by
  rcases mayContain_or_of_mem_locate (BoundWorkspace.isOver_ofWorkspace ws) h
    (Target.names_method handle hierarchy) hfound with
    hmay | ⟨file, source, hdoc, hsource, hnot, finding, hfinding⟩
  · exact Or.inl hmay
  · have huse := (Target.word_or_usesUnnamed_of_mem_findings h hconstructor hword hsource
      hfinding).resolve_left hnot
    exact Or.inr ⟨file, source, hdoc, hsource, hnot, huse⟩

/-- A document that hides a use is skipped, although something is found there. -/
theorem of_hidesUse (h : ws.InStep) (hconstructor : handle.isConstructor = true)
    (hlimit : limitTo.includesReferences = true)
    (hhides : doc.HidesUse (.ofWorkspace ws) handle) :
    (WordIndex.ofWorkspace ws).mayContain doc.id handle.selector = false ∧
      locate (.ofWorkspace ws) (.method handle hierarchy) limitTo doc ≠ [] := by
  obtain ⟨file, source, hdoc, hsource, hnot, huse⟩ := hhides
  constructor
  · rw [hdoc, Bool.eq_false_iff, ne_eq, WordIndex.mayContain_source_iff h.files hsource]
    exact hnot
  · obtain ⟨found, hfound⟩ :=
      Target.exists_mem_findings_of_usesUnnamed hlimit hconstructor huse
    exact locate_ne_nil (BoundWorkspace.isOver_ofWorkspace ws) hdoc hsource hfound

/-- **Skipping documents** loses uses of a constructor iff a document of the scope hides one. -/
theorem search_constructor_eq_iff (h : ws.InStep) (hconstructor : handle.isConstructor = true)
    (hdeclared : (ws.declared? handle.owner).any (·.hasMethod handle) = true)
    (hlimit : limitTo.includesReferences = true) (scope : SearchScope) :
    (ofWorkspace ws).search ⟨.method handle, limitTo⟩ scope =
        searchUnindexed (.ofWorkspace ws) ⟨.method handle, limitTo⟩ scope ↔
      ¬∃ doc ∈ scope.documents, doc.HidesUse (.ofWorkspace ws) handle := by
  have hword : IsWord handle.selector := by
    obtain ⟨info, hinfo, -⟩ := (Option.any_eq_true _ _).1 hdeclared
    obtain ⟨hkey, hnamed⟩ := h.of_declared? hinfo
    have hname : IsWord info.key.simpleName := hnamed.name
    rw [beq_iff_eq.1 hconstructor, ← hkey]
    exact hname
  have htarget : Target.ofPattern (.ofWorkspace ws) ⟨.method handle, limitTo⟩ =
      .ok (.method handle ((BoundWorkspace.ofWorkspace ws).hierarchy handle.owner)) := by
    refine Target.ofPattern_eq_ok_iff.2 ⟨if_pos hdeclared, fun himplementors => ?_⟩
    rw [show limitTo = .implementors from himplementors] at hlimit
    cases hlimit
  rw [search_eq_searchUnindexed_iff htarget]
  constructor
  · rintro hall ⟨doc, hdoc, hhides⟩
    obtain ⟨hskipped, hfound⟩ := of_hidesUse h hconstructor hlimit hhides
    exact hfound (hall doc hdoc hskipped)
  · intro hnone doc hdoc hskipped
    have hskipped : (WordIndex.ofWorkspace ws).mayContain doc.id handle.selector = false := hskipped
    rw [List.eq_nil_iff_forall_not_mem]
    intro found hfound
    rcases mayContain_or_hidesUse h hconstructor hword hfound with hmay | hhides
    · rw [hskipped] at hmay
      cases hmay
    · exact hnone ⟨doc, hdoc, hhides⟩

/-- **The index** loses uses of a constructor, in any state of a workspace, just where a document of
the scope hides one: it is without the name of the constructor, but calls the constructor of a
superclass that it does not write, or makes a reference to the constructor by way of a value. -/
theorem search_constructor_afterAll_iff (edits : List Edit) {handle : MethodHandle}
    (hconstructor : handle.isConstructor = true)
    (hdeclared : ((Workspace.initial.afterAll edits).declared? handle.owner).any
      (·.hasMethod handle) = true)
    {limitTo : LimitTo} (hlimit : limitTo.includesReferences = true) (scope : SearchScope) :
    (ofWorkspace (Workspace.initial.afterAll edits)).search ⟨.method handle, limitTo⟩ scope =
        searchUnindexed (.ofWorkspace (Workspace.initial.afterAll edits))
          ⟨.method handle, limitTo⟩ scope ↔
      ¬∃ doc ∈ scope.documents,
        doc.HidesUse (.ofWorkspace (Workspace.initial.afterAll edits)) handle :=
  search_constructor_eq_iff (Workspace.inStep_afterAll edits) hconstructor hdeclared hlimit scope

/-- The text of a class that writes no superclass, but calls its constructor. -/
def implicitSuperText : String := "class X \x7b X() \x7b super(); \x7d \x7d"

/-- A project with the class, and with an archive of the class that all classes extend. -/
def implicitSuper : List Edit :=
  [.registerArchive "/J.jar" [("java/lang/Object.java",
      "package java.lang; public class Object \x7b public Object() \x7b\x7d \x7d")] none,
    .createProject ⟨"P", [""], [.library "/J.jar"], none⟩,
    .createFile "/P/X.java" implicitSuperText]

/-- The constructor of the class that all classes extend. -/
def objectConstructor : MethodHandle := ⟨⟨.archive ⟨1⟩, objectName⟩, "Object", []⟩

/-- The file with the class, as a scope. -/
def implicitSuperScope : SearchScope :=
  ⟨.workspace, ["P"], [⟨.source ⟨0⟩, "P", "X.java", .all⟩]⟩

/-- The call is lost to who asks for the references to the constructor. -/
theorem search_loses_implicit_super_call :
    (ofWorkspace (.afterAll .initial implicitSuper)).search
        ⟨.method objectConstructor, .references⟩ implicitSuperScope ≠
      searchUnindexed (.ofWorkspace (.afterAll .initial implicitSuper))
        ⟨.method objectConstructor, .references⟩ implicitSuperScope := by
  intro heq
  let ws := Workspace.afterAll .initial implicitSuper
  have h : ws.InStep := Workspace.inStep_afterAll implicitSuper
  have hover := BoundWorkspace.isOver_ofWorkspace ws
  -- the file and its tree
  let file := SourceFile.ofText ⟨0⟩ "P" "X.java" implicitSuperText
  let call : Expr := ⟨.constructorCall true [], .upTo 16 23⟩
  let member : Member := .method ⟨{}, none, ⟨"X", .upTo 10 11⟩, [], [], .upTo 10 26⟩
    (.block ⟨[.expr call], .upTo 14 26⟩)
  let decl : TypeDecl := ⟨⟨.classDecl, {}, ⟨"X", .upTo 6 7⟩, none, [], .upTo 0 28⟩, [member]⟩
  let info := DeclaredType.ofDecl (.source ⟨0⟩) "" none "X" [0] decl
  have hunit : file.unit? = some ⟨none, [], [decl]⟩ := by cbv
  have hfile : ws.source? ⟨0⟩ = some file := by
    refine h.files.source_iff.2 ⟨"P", "X.java", _, ?_, ?_, ?_, rfl⟩
    · decide +kernel
    · decide +kernel
    · decide +kernel
  have hinfo : info ∈ file.types := by
    rw [h.files.types_eq hfile hunit]
    exact List.mem_cons_self
  have hown : ws.declared? info.key = some info := by
    show (ws.source? ⟨0⟩).bind (·.declared? info.key.qualifiedName) = some info
    rw [hfile, Option.bind_some, SourceFile.declared?, h.files.types_eq hfile hunit]
    decide +kernel
  -- what the call binds to
  have hsuper : (BoundWorkspace.ofWorkspace ws).superclass? info.key =
      some objectConstructor.owner := by
    rw [BoundWorkspace.superclass?_of_unwritten (Workspace.mem_typeKeys hfile hinfo) hown rfl
      (by decide +kernel)]
    decide +kernel
  obtain ⟨env, hscope⟩ := hover.exists_scope? h.files hfile hunit
  have huse : (BoundWorkspace.ofWorkspace ws).UsesUnnamed
      (NameScope.inside ⟨file, ⟨none, [], [decl]⟩, env, none⟩ (some info.key)) .none
      objectConstructor call.kind := by
    refine .superCall rfl ?_ hsuper ?_
    · rw [BoundWorkspace.declared?, hover.workspace, hown]
      rfl
    · show objectConstructor.MayBeCalled
        ((BoundWorkspace.ofWorkspace ws).constructor? objectConstructor.owner []) 0
      decide +kernel
  have hplace : Place.expr .none call ∈ (BoundWorkspace.ofWorkspace ws).memberPlaces
      (NameScope.inside ⟨file, ⟨none, [], [decl]⟩, env, none⟩ (some info.key)) .none member := by
    simp only [member, BoundWorkspace.memberPlaces, BoundWorkspace.bodyPlaces,
      BoundWorkspace.blockPlaces, BoundWorkspace.stmtsPlaces, BoundWorkspace.stmtPlaces]
    exact List.mem_cons_self
  have hsource : file.UsesUnnamed (.ofWorkspace ws) .all objectConstructor :=
    ⟨_, hscope, info, hinfo, rfl, decl, rfl, member, List.mem_cons_self, id, _, call, hplace, huse⟩
  have hhides : Document.HidesUse (.ofWorkspace ws) ⟨.source ⟨0⟩, "P", "X.java", .all⟩
      objectConstructor := by
    refine ⟨⟨0⟩, file, rfl, ?_, by decide +kernel, hsource⟩
    rw [hover.workspace]
    exact hfile
  have hnone := (search_constructor_afterAll_iff implicitSuper (by decide +kernel)
    (by decide +kernel) rfl implicitSuperScope).1 heq
  exact hnone ⟨_, List.mem_singleton_self _, hhides⟩

end Searchable

end SourceSearch
