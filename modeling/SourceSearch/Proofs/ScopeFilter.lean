import SourceSearch.Proofs.DocumentWords
import SourceSearch.Proofs.EnclosingTypes
import SourceSearch.Proofs.Occurrences

/-!
# Scopes filter

What counts in a source file is told type by type, by the types around each of them. The same can be
told afterwards from the ranges of the matches alone: whatever is found in a type lies in what the
type itself writes (`owns_of_mem_inType`), so the innermost type around its range is that type. A
search in some types of a file therefore finds what a search in all of the file finds there, in the
same order (`locate_types_afterAll`).
-/

set_option autoImplicit false

namespace SourceSearch

variable {s : BoundWorkspace} {lo hi border opening : Nat}

/-! ## Ranges of occurrences -/

theorem Occurrence.range_of_at? {range : TextRange} {accuracy : Option Accuracy} {o : Occurrence}
    (h : Occurrence.at? range accuracy = some o) : o.range = range := by
  obtain ⟨a, -, rfl⟩ := Option.map_eq_some_iff.1 h
  rfl

theorem Finding.range_of_declaration? {label : String} {name : TextRange} {isTarget : Bool}
    {found : Finding} (h : Finding.declaration? label name isTarget = some found) :
    found.occurrence.range = name := by
  obtain ⟨-, h⟩ := Option.ite_none_right_eq_some.1 h
  rw [← Option.some.inj h]

namespace Target

variable {target : Target} {scope : NameScope} {found : Finding}

/-- **A reference in an expression** is at a range where the expression is used. -/
theorem mem_used_of_inExpr? {locals : Locals} {e : Expr} {o : Occurrence}
    (ho : target.inExpr? s scope locals e = some o) : o.range ∈ (Node.expr e).used := by
  obtain ⟨kind, range⟩ := e
  unfold inExpr? at ho
  split at ho
  next name hkind =>
    obtain rfl : kind = .name name := hkind
    exact List.mem_singleton.2 (Occurrence.range_of_at? ho)
  next qualifier name hkind =>
    obtain rfl : kind = .fieldAccess qualifier name := hkind
    unfold inFieldAccess? at ho
    dsimp only at ho
    split at ho
    · exact List.mem_cons.2 (Or.inl (Occurrence.range_of_at? ho))
    · cases ho
    · exact List.mem_cons_of_mem _ (List.mem_singleton.2 (Occurrence.range_of_at? ho))
    · cases ho
  next receiver name args _ hkind =>
    obtain rfl : kind = .call receiver name args := hkind
    exact List.mem_singleton.2 (Occurrence.range_of_at? ho)
  next created args body _ hkind =>
    obtain rfl : kind = .new created args body := hkind
    exact List.mem_singleton.2 (Occurrence.range_of_at? ho)
  next isSuper args _ hkind =>
    obtain rfl : kind = .constructorCall isSuper args := hkind
    exact List.mem_singleton.2 (Occurrence.range_of_at? ho)
  next receiver name _ hkind =>
    obtain rfl : kind = .methodRef receiver name := hkind
    exact List.mem_singleton.2 (Occurrence.range_of_at? ho)
  next => cases ho

/-- **A reference at a place** is at a range where the node at the place is used. -/
theorem mem_used_of_at? {place : Place} {o : Occurrence} (ho : target.at? s scope place = some o) :
    o.range ∈ place.node.used := by
  cases place with
  | expr locals e => exact mem_used_of_inExpr? ho
  | typeRef ref =>
    obtain ⟨-, ho⟩ := Option.ite_none_right_eq_some.1 ho
    obtain ⟨-, ho⟩ := Option.ite_none_left_eq_some.1 ho
    exact List.mem_singleton.2 (Occurrence.range_of_at? ho)

theorem liesIn_of_at? {place : Place} {o : Occurrence} (h : place.node.LiesIn lo hi)
    (ho : target.at? s scope place = some o) : o.range.LiesIn lo hi :=
  h.used (mem_used_of_at? ho)

/-! ## What is found in a type -/

variable {info : DeclaredType} {decl : TypeDecl}

/-- A type writes the names that it declares. -/
theorem owns_of_mem_declarations (h : decl.LaidOut opening)
    (hfound : found ∈ target.declarations info decl) : decl.Owns found.occurrence.range := by
  rcases List.mem_append.1 hfound with hfound | hfound
  · rw [Finding.range_of_declaration? (Option.mem_toList.1 hfound)]
    exact h.owns_of_head h.name
  · obtain ⟨member, hmember, hfound⟩ := List.mem_filterMap.1 hfound
    cases member with
    | method head body =>
      rw [Finding.range_of_declaration? hfound]
      refine h.owns_of_member hmember id fun hlies => ?_
      rw [Walk.member, List.cons_append] at hlies
      exact (List.forall_mem_cons.1 hlies).1
    | field head init =>
      rw [Finding.range_of_declaration? hfound]
      refine h.owns_of_member hmember id fun hlies => ?_
      rw [Walk.member, List.cons_append] at hlies
      exact (List.forall_mem_cons.1 hlies).1
    | initializer isStatic body range => cases hfound
    | type inner => cases hfound

/-- A type writes the references in its head and in its own members. -/
theorem owns_of_mem_references {outside inside : NameScope} (h : decl.LaidOut opening)
    (hfound : found ∈ target.references s outside inside info decl) :
    decl.Owns found.occurrence.range := by
  unfold references at hfound
  rcases List.mem_append.1 hfound with hfound | hfound
  · obtain ⟨o, ho, rfl⟩ := List.mem_map.1 hfound
    obtain ⟨place, hplace, ho⟩ := List.mem_filterMap.1 ho
    obtain ⟨ref, href, rfl⟩ := List.mem_map.1 hplace
    have hlies : (Place.typeRef ref).node.LiesIn decl.head.range.start opening :=
      h.supertypes ref href
    exact h.owns_of_head (liesIn_of_at? hlies ho)
  · obtain ⟨⟨label, places⟩, hmember, hfound⟩ := List.mem_flatMap.1 hfound
    obtain ⟨member, hmem, hplaces⟩ := List.mem_filterMap.1 hmember
    obtain ⟨o, ho, rfl⟩ := List.mem_map.1 hfound
    obtain ⟨place, hplace, ho⟩ := List.mem_filterMap.1 ho
    obtain ⟨hplain, hnodes⟩ := node_mem_of_memberPlaces hplaces
    exact h.owns_of_member hmem hplain fun hlies => liesIn_of_at? (hlies _ (hnodes place hplace)) ho

/-- A type writes the supertypes that make it an implementor. -/
theorem owns_of_mem_implementors {outside : NameScope} (h : decl.LaidOut opening)
    (hfound : found ∈ target.implementors s outside info decl) :
    decl.Owns found.occurrence.range := by
  obtain ⟨o, ho, rfl⟩ := List.mem_map.1 hfound
  obtain ⟨ref, href, ho⟩ := List.mem_filterMap.1 ho
  rw [show _ = ref.range from Occurrence.range_of_at? ho]
  exact h.owns_of_head (h.supertypes ref href)

/-- **What is found in a type** is what the type itself writes. -/
theorem owns_of_mem_inType {text : String} (h : scope.unit.ReadIn text border hi)
    {limitTo : LimitTo} (hfound : found ∈ target.inType s limitTo scope info) :
    ∃ decl, info.decl? scope.unit = some decl ∧ decl.Owns found.occurrence.range := by
  unfold inType at hfound
  split at hfound
  next => cases hfound
  next decl hdecl =>
    obtain ⟨opening, hlaid⟩ :=
      (h.nodes _ (DeclaredType.walk_subset hdecl (Walk.type_mem decl))).ordered
    refine ⟨decl, hdecl, ?_⟩
    rcases List.mem_append.1 hfound with hfound | hfound
    · rcases List.mem_append.1 hfound with hfound | hfound
      · exact owns_of_mem_declarations hlaid (List.mem_ite_nil_right.1 hfound).2
      · exact owns_of_mem_references hlaid (List.mem_ite_nil_right.1 hfound).2
    · exact owns_of_mem_implementors hlaid (List.mem_ite_nil_right.1 hfound).2

theorem range_of_inImport? {i : ImportDecl} (h : target.inImport? scope i = some found) :
    found.occurrence.range = i.range := by
  obtain ⟨segments, -, h⟩ := Option.bind_eq_some_iff.1 h
  obtain ⟨accuracy, -, h⟩ := Option.bind_eq_some_iff.1 h
  rw [← Option.some.inj h]

/-- **What is found among imports** has the range of an import. -/
theorem liesIn_of_mem_inImports {text : String} (h : scope.unit.ReadIn text border hi)
    (hfound : found ∈ target.inImports scope) : found.occurrence.range.LiesIn 0 border := by
  obtain ⟨i, hi, hfound⟩ := List.mem_filterMap.1 (List.mem_ite_nil_right.1 hfound).2
  rw [range_of_inImport? hfound]
  exact (h.imports i hi).lies

end Target

/-! ## Source files -/

/-- Whether a range of a file stands in one of the types: the innermost type around it, or one
around that, is among them. -/
def SourceFile.standsIn (s : BoundWorkspace) (keys : List TypeKey) (file : SourceFile)
    (range : TextRange) : Bool :=
  (file.enclosingType? range).any fun key => (s.enclosingChain (some key)).any keys.contains

/-- To choose before something is done to each element, or among what comes of it. -/
theorem flatMap_filter_eq_filter {α β : Type} {f : α → List β} {before : α → Bool}
    {after : β → Bool} {as : List α} (h : ∀ a ∈ as, ∀ b ∈ f a, after b = before a) :
    (as.filter before).flatMap f = (as.flatMap f).filter after := by
  induction as with
  | nil => rfl
  | cons a as ih =>
    have hfirst : (f a).filter after = if before a then f a else [] := by
      rw [List.filter_congr (h a List.mem_cons_self)]
      cases before a <;> simp
    rw [List.flatMap_cons, List.filter_append, hfirst,
      ← ih fun b hb => h b (List.mem_cons_of_mem _ hb), List.filter_cons]
    split <;> simp

variable {ws : Workspace} {target : Target} {limitTo : LimitTo} {file : SourceFile}

/-- **The findings in some types** of a source file are those findings in it that stand in these
types by their ranges. -/
theorem Target.findings_types_eq_filter (hover : s.IsOver ws) (h : ws.FilesInStep) {id : FileId}
    (hfile : ws.source? id = some file) (keys : List TypeKey) :
    target.findings s limitTo (.types keys) file =
      (target.findings s limitTo .all file).filter
        fun found => file.standsIn s keys found.occurrence.range := by
  unfold findings
  cases hscope : s.scope? file none with
  | none => rfl
  | some scope =>
    obtain ⟨hunit, -⟩ := hover.of_scope? hscope
    have htypes := h.types_eq hfile hunit
    obtain ⟨border, hi, hread⟩ := h.unit_readIn hfile hunit
    have himports : (if limitTo.includesReferences && Coverage.all.encloses [] then
        target.inImports scope else []).filter
          (fun found => file.standsIn s keys found.occurrence.range) = [] := by
      refine List.filter_eq_nil_iff.2 fun found hfound => ?_
      have hlies := liesIn_of_mem_inImports hread (List.mem_ite_nil_right.1 hfound).2
      rw [SourceFile.standsIn, SourceFile.enclosingType?_of_import hunit htypes hread hlies]
      exact Bool.false_ne_true
    have hnone : (limitTo.includesReferences && (Coverage.types keys).encloses []) = false := by
      rw [Coverage.encloses, List.any_nil, Bool.and_false]
    have hall : (file.types.filter fun info =>
        Coverage.all.encloses (s.enclosingChain (some info.key))) = file.types :=
      List.filter_eq_self.2 fun _ _ => rfl
    dsimp only
    rw [List.filter_append, himports, hnone, if_neg Bool.false_ne_true, hall]
    refine congrArg ([] ++ ·) (flatMap_filter_eq_filter fun info hinfo found hfound => ?_)
    obtain ⟨decl, hdecl, howns⟩ := owns_of_mem_inType hread hfound
    rw [SourceFile.standsIn, SourceFile.enclosingType?_of_owns hunit htypes hread hinfo hdecl howns]
    rfl

namespace Searchable

/-- **A scope filters**, and does not influence what matches: in any state of a workspace, what is
found in some types of a source file is what is found in all of the file and stands in these types
by its range, in the same order, be it before or after the matches are put in the order of their
places. Nothing is left of the imports. -/
theorem locate_types_afterAll (edits : List Edit) (target : Target) (limitTo : LimitTo)
    (id : FileId) (project resource : String) (keys : List TypeKey) :
    let s := BoundWorkspace.ofWorkspace (Workspace.initial.afterAll edits)
    let found coverage := locate s target limitTo ⟨.source id, project, resource, coverage⟩
    let standsIn (m : Match) :=
      (s.workspace.source? id).any fun file => m.range.any (file.standsIn s keys)
    found (.types keys) = (found .all).filter standsIn ∧
      inOrder (found (.types keys)) = (inOrder (found .all)).filter standsIn ∧
      ∀ m ∈ found (.types keys), ∀ file unit, s.workspace.source? id = some file →
        file.unit? = some unit → ∀ i ∈ unit.imports, m.range ≠ some i.range := by
  intro s found standsIn
  have hover : s.IsOver (Workspace.initial.afterAll edits) := BoundWorkspace.isOver_ofWorkspace _
  have h := (Workspace.inStep_afterAll edits).files
  have hfilter : found (.types keys) = (found .all).filter standsIn := by
    cases hfile : s.workspace.source? id with
    | none => simp [found, standsIn, locate, hfile]
    | some file =>
      have hfile' : (Workspace.initial.afterAll edits).source? id = some file := by
        rw [← hover.workspace, hfile]
      simp only [found, standsIn, locate, hfile, Option.any_some]
      rw [Target.inSource, Target.inSource, List.filter_map]
      exact congrArg (List.map _) (Target.findings_types_eq_filter hover h hfile' keys)
  refine ⟨hfilter, ?_, ?_⟩
  · rw [hfilter, filter_inOrder]
  · intro m hm file unit hfile hunit i hi hrange
    have hfile' : (Workspace.initial.afterAll edits).source? id = some file := by
      rw [← hover.workspace, hfile]
    obtain ⟨border, hi', hread⟩ := h.unit_readIn hfile' hunit
    rw [hfilter, List.mem_filter] at hm
    have hnone := SourceFile.enclosingType?_of_import hunit (h.types_eq hfile' hunit) hread
      (hread.imports i hi).lies
    have hstands := hm.2
    simp only [standsIn, hfile, hrange, Option.any_some, SourceFile.standsIn, hnone] at hstands
    cases hstands

end Searchable

end SourceSearch
