import Mathlib.Data.List.Flatten
import Mathlib.Data.List.Nodup
import SourceSearch.Proofs.IndexedSearch
import SourceSearch.Proofs.ScopeFilter
import SourceSearch.Proofs.SearchOrder

/-!
# Matches that are reported once

A search reports a match in a source file once, unless it is at a type that is written once and
declares several variables: `X a, b;` has the type `X` in each of its variables, and all references
to `X` in them are shown with one range. Two fields that are declared together are shown under
different labels, so this is about local variables, and about fields of one name.

`Target.Repeats` says where this happens, and `nodup_sourceRecords_afterAll_iff` that it happens
nowhere else: not among declarations, imports or supertypes, not between a type and the types nested
in it, and not at any other two nodes of a tree. The argument goes from the inside out, as the
search does, and takes from each layer what tells its findings apart: the ranges of nodes
(`Spaced`), what types write themselves (`DeclaredType.Keeps`), and the places of documents
(`Document.Precedes`).
-/

set_option autoImplicit false

namespace SourceSearch

/-- What is told of a match: where it is, what it is in, how sure it is and of what kind. -/
def Match.record (found : Match) :
    String × String × String × Option TextRange × Accuracy × MatchKind :=
  (found.project, found.resource, found.element, found.range, found.accuracy, found.kind)

/-- What is told of the matches in source files. -/
def sourceRecords (found : List Match) :
    List (String × String × String × Option TextRange × Accuracy × MatchKind) :=
  (found.filter (·.file.isSome)).map Match.record

/-! ## Lists without repetition -/

/-- Elements come to different things iff no two of them come to the same. -/
theorem nodup_filterMap_iff {α β : Type} {f : α → Option β} {as : List α} :
    (as.filterMap f).Nodup ↔
      ∀ a b, List.Sublist [a, b] as → ∀ x, f a = some x → f b ≠ some x := by
  rw [List.Nodup, List.pairwise_filterMap, List.pairwise_iff_forall_sublist]
  constructor
  · intro h a b hpair x hx hx'
    exact h hpair x hx x hx' rfl
  · rintro h a b hpair x hx _ hx' rfl
    exact h a b hpair x hx hx'

/-- What stands at different ranges is found once. -/
theorem nodup_filterMap_of_range {α β : Type} {range : α → TextRange} {found? : α → Option β}
    (rangeOf : β → TextRange) {as : List α} (h : as.Pairwise fun a b => range a ≠ range b)
    (hfound : ∀ a x, found? a = some x → rangeOf x = range a) : (as.filterMap found?).Nodup := by
  refine List.pairwise_filterMap.2 (h.imp fun {a b} hne => ?_)
  rintro x hx _ hx' rfl
  exact hne ((hfound a x hx).symm.trans (hfound b x hx'))

theorem nodup_ite_nil_iff {α : Type} {c : Prop} [Decidable c] {as : List α} :
    (if c then as else []).Nodup ↔ (c → as.Nodup) := by
  split <;> simp [*]

/-- Two elements after one another come to two things, after one another. -/
theorem pair_sublist_filterMap_iff {α β : Type} {f : α → Option β} {as : List α} {x y : β} :
    List.Sublist [x, y] (as.filterMap f) ↔
      ∃ a b, List.Sublist [a, b] as ∧ f a = some x ∧ f b = some y := by
  constructor
  · intro h
    obtain ⟨chosen, hchosen, heq⟩ := List.sublist_filterMap_iff.1 h
    obtain ⟨before, a, rest, rfl, -, hx, hrest⟩ := List.filterMap_eq_cons_iff.1 heq.symm
    obtain ⟨between, b, behind, rfl, -, hy, -⟩ := List.filterMap_eq_cons_iff.1 hrest
    have hb : List.Sublist [b] (between ++ b :: behind) := List.singleton_sublist.2 (by simp)
    refine ⟨a, b, ?_, hx, hy⟩
    exact ((hb.cons_cons a).trans (List.sublist_append_right before _)).trans hchosen
  · rintro ⟨a, b, hpair, hx, hy⟩
    have hboth : [a, b].filterMap f = [x, y] := by simp [hx, hy]
    rw [← hboth]
    exact hpair.filterMap f

/-! ## Types at places -/

/-- The type that is written at a place. -/
def Place.typeRef? : Place → Option TypeRef
  | .expr _ _ => none
  | .typeRef ref => some ref

theorem Place.eq_typeRef {place : Place} {ref : TypeRef} (h : place.node = .typeRef ref) :
    place = .typeRef ref := by
  cases place with
  | expr locals e => cases h
  | typeRef other => rw [Node.typeRef.inj h]

namespace Target

variable {target : Target} {s : BoundWorkspace} {limitTo : LimitTo} {nodes : List Node}
  {info : DeclaredType} {decl : TypeDecl} {opening : Nat}

/-! ## Types that are written once -/

/-- The places in the members of a type, with the labels of the members. -/
def labelledPlaces (s : BoundWorkspace) (inside : NameScope) (info : DeclaredType)
    (decl : TypeDecl) : List (String × Place) :=
  (decl.members.filterMap (memberPlaces s inside info decl.head.kind)).flatMap
    fun (label, places) => places.map (Prod.mk label)

/-- The types that are written in the members of a type, with the labels of the members. -/
def writtenTypes (s : BoundWorkspace) (inside : NameScope) (info : DeclaredType)
    (decl : TypeDecl) : List (String × TypeRef) :=
  (labelledPlaces s inside info decl).filterMap fun (label, place) =>
    place.typeRef?.map (Prod.mk label)

/-- A type has the target as the written type of two variables or fields that are declared together
and shown under one label. -/
def RepeatsIn (target : Target) (s : BoundWorkspace) (scope : NameScope) (info : DeclaredType)
    (decl : TypeDecl) : Prop :=
  let inside := scope.inside (some info.key)
  ∃ label ref ref', List.Sublist [(label, ref), (label, ref')] (writtenTypes s inside info decl) ∧
    Together (Walk.unit scope.unit) ref ref' ∧ (target.at? s inside (.typeRef ref)).isSome

/-- A type that counts in a source file has the target as the written type of two variables or
fields that are declared together and shown under one label, and references are looked for. -/
def Repeats (target : Target) (s : BoundWorkspace) (limitTo : LimitTo) (coverage : Coverage)
    (file : SourceFile) : Prop :=
  limitTo.includesReferences = true ∧ ∃ scope, s.scope? file none = some scope ∧
    ∃ info ∈ file.types, coverage.encloses (s.enclosingChain (some info.key)) = true ∧
      ∃ decl, info.decl? scope.unit = some decl ∧ target.RepeatsIn s scope info decl

/-! ## Declarations -/

/-- A type declares itself, and of its members each at most once, at what the member declares. -/
theorem exists_declarations_eq (target : Target) (info : DeclaredType) (decl : TypeDecl) :
    ∃ declares? : Member → Option Finding,
      target.declarations info decl =
        (Finding.declaration? info.qualifiedName decl.head.name.range
          (target.isType info.key)).toList ++ decl.members.filterMap declares? ∧
      ∀ m found, declares? m = some found →
        ∃ node ∈ Walk.member m, node.declared? = some found.occurrence.range := by
  refine ⟨_, rfl, fun m found hfound => ?_⟩
  cases m with
  | method head body =>
    refine ⟨.method head body, ?_, congrArg some (Finding.range_of_declaration? hfound).symm⟩
    rw [Walk.member]
    exact List.mem_cons_self
  | field head init =>
    refine ⟨.field head init, ?_, congrArg some (Finding.range_of_declaration? hfound).symm⟩
    rw [Walk.member]
    exact List.mem_cons_self
  | initializer isStatic body range => cases hfound
  | type inner => cases hfound

/-- **The declarations in a type** are found once. -/
theorem nodup_declarations (h : (Walk.typeDecl decl).Pairwise fun a b => a.Apart nodes b) :
    (target.declarations info decl).Nodup := by
  obtain ⟨declares?, heq, hdeclares⟩ := exists_declarations_eq target info decl
  obtain ⟨head, members⟩ := decl
  rw [Walk.typeDecl, List.cons_append, List.pairwise_cons] at h
  obtain ⟨hhead, hbody⟩ := h
  have hmembers := (List.pairwise_append.1 hbody).2.1
  rw [heq]
  refine List.nodup_append.2 ⟨Option.toList_nodup _, ?_, ?_⟩
  · rw [Walk.members_eq_flatMap, List.pairwise_flatMap] at hmembers
    refine List.pairwise_filterMap.2 (hmembers.2.imp fun {m m'} hapart => ?_)
    rintro found hfound _ hfound' rfl
    obtain ⟨node, hnode, hdeclared⟩ := hdeclares m found hfound
    obtain ⟨node', hnode', hdeclared'⟩ := hdeclares m' found hfound'
    exact (hapart node hnode node' hnode').declared hdeclared hdeclared'
  · rintro found hfound _ hfound' rfl
    have hname := Finding.range_of_declaration? (Option.mem_toList.1 hfound)
    obtain ⟨m, hm, hfound'⟩ := List.mem_filterMap.1 hfound'
    obtain ⟨node, hnode, hdeclared⟩ := hdeclares m found hfound'
    have hmem : node ∈ Walk.members members := by
      rw [Walk.members_eq_flatMap]
      exact List.mem_flatMap.2 ⟨m, hm, hnode⟩
    rw [hname] at hdeclared
    exact (hhead node (List.mem_append_right _ hmem)).declared rfl hdeclared

/-! ## References -/

/-- Findings with one label and kind are as different as the occurrences are. -/
theorem nodup_map_finding {label : String} {kind : MatchKind} {found : List Occurrence}
    (h : found.Nodup) : (found.map (Finding.mk label kind)).Nodup :=
  h.map fun _ _ heq => (Finding.mk.inj heq).2.2

/-- **The supertypes in a head** are found once. -/
theorem nodup_inHead {outside : NameScope} (h : decl.LaidOut opening) :
    (target.inHead s outside decl.head).Nodup :=
  nodup_filterMap_of_range Occurrence.range h.supertypesApart fun _ _ ho =>
    Occurrence.range_of_at? ho

theorem references_eq {outside inside : NameScope} :
    target.references s outside inside info decl =
      (((decl.head.superclass.toList ++ decl.head.interfaces).filterMap fun ref =>
        target.at? s outside (.typeRef ref)).map (Finding.mk info.qualifiedName .reference)) ++
      (labelledPlaces s inside info decl).filterMap fun place =>
        (target.at? s inside place.2).map (Finding.mk place.1 .reference) := by
  unfold references labelledPlaces Finding.references
  simp only [List.filterMap_map, List.filterMap_flatMap, List.map_filterMap]
  rfl

/-- The types in the head of a type are met with the type. -/
theorem supertype_mem {ref : TypeRef}
    (href : ref ∈ decl.head.superclass.toList ++ decl.head.interfaces) :
    Node.typeRef ref ∈ Walk.typeDecl decl := by
  obtain ⟨head, members⟩ := decl
  rw [Walk.typeDecl]
  exact List.mem_append_left _ (List.mem_cons_of_mem _ (List.mem_map_of_mem href))

/-- The labelled places are nodes of the members, in their order. -/
theorem labelledPlaces_sublist (s : BoundWorkspace) (inside : NameScope) (info : DeclaredType)
    (decl : TypeDecl) :
    ((labelledPlaces s inside info decl).map (·.2.node)).Sublist (Walk.members decl.members) := by
  unfold labelledPlaces
  induction decl.members with
  | nil => exact List.nil_sublist _
  | cons m ms ih =>
    rw [Walk.members]
    cases hm : memberPlaces s inside info decl.head.kind m with
    | none =>
      rw [List.filterMap_cons_none hm]
      exact ih.trans (List.sublist_append_right _ _)
    | some shown =>
      obtain ⟨label, places⟩ := shown
      obtain ⟨-, rfl⟩ := exists_memberPlaces_eq_iff.1 ⟨label, hm⟩
      rw [List.filterMap_cons_some hm, List.flatMap_cons, List.map_append, List.map_map]
      exact List.Sublist.append (s.memberPlaces_placed inside .none m) ih

/-- What is written at a labelled place. -/
theorem eq_of_written {place : String × Place} {label : String} {ref : TypeRef}
    (h : place.2.typeRef?.map (Prod.mk place.1) = some (label, ref)) :
    place = (label, .typeRef ref) := by
  obtain ⟨label', place⟩ := place
  cases place with
  | expr locals e => cases h
  | typeRef other =>
    obtain ⟨rfl, rfl⟩ := Prod.mk.inj (Option.some.inj h)
    rfl

/-- Types that are written once refer to the same. -/
theorem at?_eq_of_together {ref ref' : TypeRef} (h : Together nodes ref ref') (scope : NameScope) :
    target.at? s scope (.typeRef ref) = target.at? s scope (.typeRef ref') := by
  obtain ⟨segments, dims, range⟩ := ref
  obtain ⟨segments', dims', range'⟩ := ref'
  obtain rfl : range = range' := h.range_eq
  obtain rfl : segments = segments' := h.segments_eq
  rfl

/-- **The references in the members** of a type are found once, unless they are at types that are
written once. -/
theorem nodup_labelledPlaces_iff {scope : NameScope}
    (h : (Walk.typeDecl decl).Pairwise fun a b => a.Apart (Walk.unit scope.unit) b) :
    ((labelledPlaces s (scope.inside (some info.key)) info decl).filterMap fun place =>
      (target.at? s (scope.inside (some info.key)) place.2).map
        (Finding.mk place.1 .reference)).Nodup ↔ ¬target.RepeatsIn s scope info decl := by
  have hplaces : (labelledPlaces s (scope.inside (some info.key)) info decl).Pairwise
      fun a b => a.2.node.Apart (Walk.unit scope.unit) b.2.node := by
    have hsublist := labelledPlaces_sublist s (scope.inside (some info.key)) info decl
    exact List.pairwise_map.1 (h.sublist (hsublist.trans (Walk.members_sublist decl)))
  rw [nodup_filterMap_iff]
  constructor
  · rintro hnodup ⟨label, ref, ref', hpair, htogether, hsome⟩
    obtain ⟨a, b, hplaced, ha, hb⟩ := pair_sublist_filterMap_iff.1 hpair
    obtain rfl := eq_of_written ha
    obtain rfl := eq_of_written hb
    obtain ⟨o, ho⟩ := Option.isSome_iff_exists.1 hsome
    refine hnodup _ _ hplaced ⟨label, .reference, o⟩ ?_ ?_
    · rw [ho]
      rfl
    · rw [← at?_eq_of_together htogether, ho]
      rfl
  · rintro hnone ⟨label, place⟩ ⟨label', place'⟩ hpair found hfound hfound'
    obtain ⟨o, ho, rfl⟩ := Option.map_eq_some_iff.1 hfound
    obtain ⟨o', ho', heq⟩ := Option.map_eq_some_iff.1 hfound'
    obtain ⟨rfl, -, rfl⟩ := Finding.mk.inj heq
    have hapart := List.pairwise_iff_forall_sublist.1 hplaces hpair
    obtain ⟨ref, ref', href, href', htogether⟩ :=
      hapart.together (mem_used_of_at? ho) (mem_used_of_at? ho')
    obtain rfl := Place.eq_typeRef href
    obtain rfl := Place.eq_typeRef href'
    exact hnone ⟨_, ref, ref', pair_sublist_filterMap_iff.2 ⟨_, _, hpair, rfl, rfl⟩, htogether,
      Option.isSome_iff_exists.2 ⟨_, ho⟩⟩

/-- **The references in a type** are found once, unless they are at types that are written once. -/
theorem nodup_references_iff {scope outside : NameScope} (hlaid : decl.LaidOut opening)
    (h : (Walk.typeDecl decl).Pairwise fun a b => a.Apart (Walk.unit scope.unit) b) :
    (target.references s outside (scope.inside (some info.key)) info decl).Nodup ↔
      ¬target.RepeatsIn s scope info decl := by
  rw [references_eq, List.nodup_append, nodup_labelledPlaces_iff h]
  refine ⟨fun hparts => hparts.2.1, fun hnone => ⟨?_, hnone, ?_⟩⟩
  · refine nodup_map_finding (nodup_filterMap_of_range Occurrence.range hlaid.supertypesApart ?_)
    exact fun ref o ho => List.mem_singleton.1 (mem_used_of_at? ho)
  · rintro found hfound _ hfound' rfl
    obtain ⟨o, ho, rfl⟩ := List.mem_map.1 hfound
    obtain ⟨ref, href, ho⟩ := List.mem_filterMap.1 ho
    obtain ⟨place, hplace, hfound'⟩ := List.mem_filterMap.1 hfound'
    obtain ⟨o', ho', heq⟩ := Option.map_eq_some_iff.1 hfound'
    obtain ⟨-, -, rfl⟩ := Finding.mk.inj heq
    have hmember : place.2.node.LiesIn opening decl.head.range.stop :=
      hlaid.members _ ((labelledPlaces_sublist s _ info decl).subset (List.mem_map_of_mem hplace))
    have hhead : (Place.typeRef ref).node.LiesIn decl.head.range.start opening :=
      hlaid.supertypes ref href
    exact TextRange.ne_of_liesIn (liesIn_of_at? hhead ho) (liesIn_of_at? hmember ho') rfl

/-! ## Types and files -/

/-- **What counts in a type** is found once, unless it is at types that are written once. -/
theorem nodup_inType_iff {text : String} {border hi : Nat} {scope : NameScope}
    (h : scope.unit.ReadIn text border hi) :
    (target.inType s limitTo scope info).Nodup ↔ ∀ decl, info.decl? scope.unit = some decl →
      limitTo.includesReferences = true → ¬target.RepeatsIn s scope info decl := by
  unfold inType
  cases hdecl : info.decl? scope.unit with
  | none => exact ⟨fun _ _ => nofun, fun _ => List.nodup_nil⟩
  | some decl =>
    obtain ⟨opening, hlaid⟩ :=
      (h.nodes _ (DeclaredType.walk_subset hdecl (Walk.type_mem decl))).ordered
    have hspaced := h.spaced.sublist (DeclaredType.walk_sublist hdecl)
    dsimp only
    rw [List.nodup_append, List.nodup_append, nodup_ite_nil_iff, nodup_ite_nil_iff,
      nodup_ite_nil_iff, nodup_references_iff hlaid hspaced]
    constructor
    · rintro ⟨⟨-, hreferences, -⟩, -, -⟩ other hother
      rw [← Option.some.inj hother]
      exact hreferences
    · intro hreferences
      refine ⟨⟨fun _ => nodup_declarations hspaced, hreferences decl rfl, ?_⟩,
        fun _ => nodup_map_finding (nodup_inHead hlaid), ?_⟩
      · rintro found hfound _ hfound' rfl
        have hkind := kind_of_mem_declarations (List.mem_ite_nil_right.1 hfound).2
        rw [kind_of_mem_references (List.mem_ite_nil_right.1 hfound').2] at hkind
        cases hkind
      · rintro found hfound _ hfound' rfl
        obtain ⟨o, -, rfl⟩ := List.mem_map.1 (List.mem_ite_nil_right.1 hfound').2
        rcases List.mem_append.1 hfound with hfound | hfound
        · cases kind_of_mem_declarations (List.mem_ite_nil_right.1 hfound).2
        · cases kind_of_mem_references (List.mem_ite_nil_right.1 hfound).2

/-- **The imports** of a target are found once. -/
theorem nodup_inImports {text : String} {border hi : Nat} {scope : NameScope}
    (h : scope.unit.ReadIn text border hi) : (target.inImports scope).Nodup :=
  nodup_ite_nil_iff.2 fun _ => nodup_filterMap_of_range (·.occurrence.range) h.importsApart
    fun _ _ hfound => range_of_inImport? hfound

variable {ws : Workspace} {file : SourceFile} {coverage : Coverage}

/-- **What counts in a source file** is found once, unless it is at types that are written once. -/
theorem nodup_findings_iff (hover : s.IsOver ws) (h : ws.FilesInStep) {id : FileId}
    (hfile : ws.source? id = some file) :
    (target.findings s limitTo coverage file).Nodup ↔
      ¬target.Repeats s limitTo coverage file := by
  unfold findings Repeats
  cases hscope : s.scope? file none with
  | none => simp
  | some scope =>
    obtain ⟨hunit, -⟩ := hover.of_scope? hscope
    obtain ⟨border, hi, hread⟩ := h.unit_readIn hfile hunit
    have hkeeps : file.types.Pairwise (DeclaredType.Keeps scope.unit) :=
      h.types_eq hfile hunit ▸ pairwise_collectTypes hread _
    dsimp only
    rw [List.nodup_append, List.nodup_flatMap, nodup_ite_nil_iff]
    constructor
    · rintro ⟨-, ⟨htypes, -⟩, -⟩ ⟨hlimit, _, heq, info, hinfo, hcounts, decl, hdecl, hrepeats⟩
      cases heq
      have hnodup := htypes info (List.mem_filter.2 ⟨hinfo, hcounts⟩)
      exact (nodup_inType_iff hread).1 hnodup decl hdecl hlimit hrepeats
    · intro hnone
      refine ⟨fun _ => nodup_inImports hread, ⟨fun info hinfo => ?_, ?_⟩, ?_⟩
      · obtain ⟨hmem, hcounts⟩ := List.mem_filter.1 hinfo
        refine (nodup_inType_iff hread).2 fun decl hdecl hlimit hrepeats => ?_
        exact hnone ⟨hlimit, scope, rfl, info, hmem, hcounts, decl, hdecl, hrepeats⟩
      · refine (hkeeps.filter _).imp fun {info other} hkeep found hfound hfound' => ?_
        obtain ⟨decl, hdecl, howns⟩ := owns_of_mem_inType hread hfound
        obtain ⟨decl', hdecl', howns'⟩ := owns_of_mem_inType hread hfound'
        have hencloses := DeclaredType.encloses_of_owns hdecl' howns'
        rw [hkeep decl _ hdecl howns] at hencloses
        cases hencloses
      · rintro found hfound _ hfound' rfl
        obtain ⟨info, -, hfound'⟩ := List.mem_flatMap.1 hfound'
        obtain ⟨decl, hdecl, howns⟩ := owns_of_mem_inType hread hfound'
        have hdeclared : decl.head.range.LiesIn border hi :=
          (hread.nodes _ (DeclaredType.walk_subset hdecl (Walk.type_mem decl))).lies
        have himport := liesIn_of_mem_inImports hread (List.mem_ite_nil_right.1 hfound).2
        exact TextRange.ne_of_liesIn himport
          (howns.lies.widen hdeclared.start_le hdeclared.le_stop) rfl

end Target

namespace Searchable

variable {s : BoundWorkspace} {ws : Workspace} {target : Target} {limitTo : LimitTo}

/-! ## Documents -/

/-- What is told of a match in a source file tells the finding. -/
theorem record_sourceMatch_injective (doc : Document) (file : SourceFile) :
    Function.Injective fun found => (Target.sourceMatch doc file found).record := by
  rintro ⟨label, kind, range, accuracy⟩ ⟨label', kind', range', accuracy'⟩ heq
  simp only [Match.record, Target.sourceMatch, Prod.mk.injEq, Option.some.injEq] at heq
  obtain ⟨-, -, rfl, rfl, rfl, rfl⟩ := heq
  rfl

/-- The order by places does not matter to what is told. -/
theorem nodup_sourceRecords_inOrder_iff {found : List Match} :
    (sourceRecords (inOrder found)).Nodup ↔ (sourceRecords found).Nodup :=
  (((List.mergeSort_perm found _).filter _).map _).nodup_iff

/-- All that is found in a source file is told. -/
theorem sourceRecords_inSource (doc : Document) (file : SourceFile) :
    sourceRecords (target.inSource s limitTo doc file) =
      (target.findings s limitTo doc.coverage file).map
        fun found => (Target.sourceMatch doc file found).record := by
  rw [sourceRecords, Target.inSource, List.filter_map, List.map_map, List.filter_eq_self.2]
  · rfl
  · exact fun _ _ => rfl

/-- Nothing of an archive is in a source file. -/
theorem sourceRecords_inArchive (doc : Document) (archive : Archive) :
    sourceRecords (target.inArchive s limitTo doc archive) = [] := by
  refine List.map_eq_nil_iff.2 (List.filter_eq_nil_iff.2 fun found hfound hfile => ?_)
  obtain ⟨info, -, hfound⟩ := List.mem_flatMap.1 hfound
  obtain ⟨m, -, rfl⟩ := List.mem_map.1 hfound
  cases hfile

/-- **What is found in a document** is told once, unless it is a source file with the target at
types that are written once. -/
theorem nodup_sourceRecords_locate_iff (hover : s.IsOver ws) (h : ws.FilesInStep) (doc : Document) :
    (sourceRecords (locate s target limitTo doc)).Nodup ↔
      ∀ id file, doc.id = .source id → ws.source? id = some file →
        ¬target.Repeats s limitTo doc.coverage file := by
  unfold locate
  rw [hover.workspace]
  split
  next id hid =>
    split
    next file hfile =>
      rw [sourceRecords_inSource, List.nodup_map_iff (record_sourceMatch_injective doc file),
        Target.nodup_findings_iff hover h hfile]
      constructor
      · intro hnone other source hother hsource
        obtain rfl := DocumentId.source.inj (hid.symm.trans hother)
        obtain rfl := Option.some.inj (hfile.symm.trans hsource)
        exact hnone
      · exact fun hnone => hnone id file hid hfile
    next hmissing =>
      refine ⟨fun _ other file hother hsource => ?_, fun _ => List.nodup_nil⟩
      obtain rfl := DocumentId.source.inj (hid.symm.trans hother)
      rw [hmissing] at hsource
      cases hsource
  next id hid =>
    refine ⟨fun _ other _ hother => ?_, fun _ => ?_⟩
    · rw [hid] at hother
      cases hother
    · split
      · rw [sourceRecords_inArchive]
        exact List.nodup_nil
      · exact List.nodup_nil

/-- **What is found in documents in order** is told once, unless one of them is a source file with
the target at types that are written once. -/
theorem nodup_sourceRecords_locateAll_iff (hover : s.IsOver ws) (h : ws.FilesInStep)
    {docs : List Document} (hdocs : docs.Pairwise Document.Precedes) :
    (sourceRecords (locateAll s target limitTo docs)).Nodup ↔
      ∀ doc ∈ docs, ∀ id file, doc.id = .source id → ws.source? id = some file →
        ¬target.Repeats s limitTo doc.coverage file := by
  have hplace : ∀ {doc record}, record ∈ sourceRecords (inOrder (locate s target limitTo doc)) →
      record.1 = doc.project ∧ record.2.1 = doc.resource := by
    intro doc record hrecord
    obtain ⟨m, hm, rfl⟩ := List.mem_map.1 hrecord
    exact Match.isIn_iff.1 (isIn_of_mem_inOrder (List.mem_filter.1 hm).1)
  have hflat : sourceRecords (locateAll s target limitTo docs) =
      docs.flatMap fun doc => sourceRecords (inOrder (locate s target limitTo doc)) := by
    simp only [sourceRecords, locateAll, List.filter_flatMap, List.map_flatMap]
  rw [hflat, List.nodup_flatMap]
  simp only [nodup_sourceRecords_inOrder_iff, nodup_sourceRecords_locate_iff hover h]
  refine and_iff_left (hdocs.imp fun {doc other} hbefore record hrecord hrecord' => ?_)
  obtain ⟨hproject, hresource⟩ := hplace hrecord
  obtain ⟨hproject', hresource'⟩ := hplace hrecord'
  exact hbefore.not_isAt ⟨hproject.symm.trans hproject', hresource.symm.trans hresource'⟩

/-! ## Searches -/

/-- A search for a type is not for a constructor. -/
theorem seeksConstructor_of_type {pattern : SearchPattern}
    (htarget : Target.ofPattern s pattern = .ok target) (hkind : target.kind = .type) :
    pattern.seeksConstructor = false := by
  obtain ⟨hbind, -⟩ := Target.ofPattern_eq_ok_iff.1 htarget
  unfold SearchPattern.seeksConstructor
  split
  next handle hsubject =>
    rw [hsubject, Target.bind] at hbind
    split at hbind
    · rw [← Except.ok.inj hbind] at hkind
      cases hkind
    · cases hbind
  next => rfl

/-- A search that finds a written type twice looks for the references to a type. -/
theorem seeks_of_repeats {pattern : SearchPattern}
    (htarget : Target.ofPattern s pattern = .ok target) {coverage : Coverage} {file : SourceFile}
    (h : target.Repeats s pattern.limitTo coverage file) :
    pattern.limitTo ≠ .implementors ∧ pattern.seeksConstructor = false := by
  obtain ⟨hlimit, scope, -, info, -, -, decl, -, label, ref, ref', -, -, hsome⟩ := h
  obtain ⟨o, ho⟩ := Option.isSome_iff_exists.1 hsome
  refine ⟨fun hlimit' => ?_, ?_⟩
  · rw [hlimit'] at hlimit
    cases hlimit
  · exact seeksConstructor_of_type htarget (Option.ite_none_right_eq_some.1 ho).1

/-- **Matches that are reported twice.** However a scope was built, and whenever it is searched for
whatever pattern: the matches in source files all differ in what is told of them, or there is a
document in the scope in which a type that counts has the target as the written type of two
variables or fields that are declared together and shown under one label. -/
theorem nodup_sourceRecords_afterAll_iff (edits edits' : List Edit) {scope : SearchScope}
    (hscope : scope.IsBuiltOn (Workspace.initial.afterAll edits)) {pattern : SearchPattern}
    {found : List Match}
    (hfound : (ofWorkspace (Workspace.initial.afterAll edits')).search pattern scope = .ok found) :
    let s := BoundWorkspace.ofWorkspace (Workspace.initial.afterAll edits')
    ∃ target, Target.ofPattern s pattern = .ok target ∧
      ((sourceRecords found).Nodup ↔ ∀ doc ∈ scope.documents, ∀ id file, doc.id = .source id →
        s.workspace.source? id = some file →
          ¬target.Repeats s pattern.limitTo doc.coverage file) := by
  intro s
  have hws : (Workspace.initial.afterAll edits').InStep := Workspace.inStep_afterAll edits'
  have hover : s.IsOver (Workspace.initial.afterAll edits') := BoundWorkspace.isOver_ofWorkspace _
  have hdocs := hscope.pairwise_documents (Workspace.inStep_afterAll edits)
  have hsearch := hfound
  obtain ⟨target, htarget, hlocated⟩ := bind_eq_ok_iff.1 hsearch
  obtain rfl := Except.ok.inj hlocated
  refine ⟨target, htarget, ?_, fun hnone => ?_⟩
  · intro hnodup doc hdoc id file hid hfile hrepeats
    obtain ⟨hlimit, hconstructor⟩ := seeks_of_repeats htarget hrepeats
    rw [search_eq_ok_of_ofPattern hws hlimit hconstructor htarget, Except.ok.injEq] at hfound
    rw [← hfound, nodup_sourceRecords_locateAll_iff hover hws.files hdocs] at hnodup
    exact hnodup doc hdoc id file hid (hover.workspace ▸ hfile) hrepeats
  · refine (nodup_sourceRecords_locateAll_iff hover hws.files (hdocs.filter _)).2 ?_
    intro doc hdoc id file hid hfile
    exact hnone doc (List.mem_filter.1 hdoc).1 id file hid (hover.workspace ▸ hfile)

/-- A class with two variables in one declaration. -/
def twoVariablesText : String := "class X \x7b void m() \x7b X a, b; \x7d \x7d"

/-- A project with the class. -/
def twoVariables : List Edit :=
  [.createProject ⟨"P", [""], [], none⟩, .createFile "/P/X.java" twoVariablesText]

/-- The type of both variables, which is written once. -/
def typeOfBoth : TypeRef := ⟨["X"], 0, .ofLength 21 1⟩

/-- Who asks for the references to the class finds the type of the variables twice. -/
theorem search_repeats_type_of_both :
    ∃ found, (ofWorkspace (.afterAll .initial twoVariables)).search
        ⟨.name .type none ⟨"X", true⟩ none, .references⟩
        (.workspace (.afterAll .initial twoVariables)) = .ok found ∧
      ¬(sourceRecords found).Nodup := by
  let ws := Workspace.initial.afterAll twoVariables
  let s := BoundWorkspace.ofWorkspace ws
  let target := Target.named .type none ⟨"X", true⟩ none
  obtain ⟨found, hfound⟩ : ∃ found, (ofWorkspace ws).search
      ⟨.name .type none ⟨"X", true⟩ none, .references⟩ (.workspace ws) = .ok found := ⟨_, rfl⟩
  obtain ⟨_, htarget, hiff⟩ := nodup_sourceRecords_afterAll_iff twoVariables twoVariables
    .workspace hfound
  obtain rfl : target = _ := Except.ok.inj htarget
  refine ⟨found, hfound, fun hnodup => ?_⟩
  have hcheck : ((ws.source? ⟨0⟩).bind fun file => (s.scope? file none).map fun scope =>
      file.types.any fun info => (info.decl? scope.unit).any fun decl =>
        let inside := scope.inside (some info.key)
        let label := "X.m() -> void"
        decide (List.Sublist [(label, typeOfBoth), (label, typeOfBoth)]
            (Target.writtenTypes s inside info decl)) &&
          decide (List.Sublist [typeOfBoth, typeOfBoth]
            ((Walk.unit scope.unit).filterMap Node.typed?)) &&
          (target.at? s inside (.typeRef typeOfBoth)).isSome) = some true := by
    decide +kernel
  obtain ⟨file, hfile, hscoped⟩ := Option.bind_eq_some_iff.1 hcheck
  obtain ⟨scope, hscope, hany⟩ := Option.map_eq_some_iff.1 hscoped
  obtain ⟨info, hinfo, hdecl⟩ := List.any_eq_true.1 hany
  obtain ⟨decl, hdecl, hrepeats⟩ := (Option.any_eq_true _ _).1 hdecl
  simp only [Bool.and_eq_true, decide_eq_true_eq] at hrepeats
  obtain ⟨⟨hwritten, hdeclared⟩, hsome⟩ := hrepeats
  have hdoc : (⟨.source ⟨0⟩, "P", "X.java", .all⟩ : Document) ∈
      (SearchScope.workspace ws).documents := by
    decide +kernel
  exact hiff.1 hnodup _ hdoc ⟨0⟩ file rfl hfile ⟨rfl, scope, hscope, info, hinfo, rfl, decl, hdecl,
    _, typeOfBoth, typeOfBoth, hwritten, ⟨rfl, rfl, hdeclared⟩, hsome⟩

end Searchable

end SourceSearch
