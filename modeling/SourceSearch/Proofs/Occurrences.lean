import Mathlib.Data.List.Basic
import SourceSearch.Search.Searchable

/-!
# All occurrences

Searching for all occurrences finds the declarations and the references, each of them once. The
search limited to declarations finds what the search for all occurrences finds with the kind of a
declaration, in the same order, and the same is true of references (`search_eq_filter`). The two
kinds exclude each other, so the matches of the three searches add up
(`search_allOccurrences_perm`).

The argument goes from the inside out: a type, a source file, a document, the order by places, the
documents of a scope. Only the order needs a word, since it has to leave equal places as they are.
-/

set_option autoImplicit false

namespace SourceSearch

/-- The kind of occurrence that a limit alone asks for, of the two which all occurrences have. -/
inductive LimitTo.Asks : LimitTo → MatchKind → Prop
  | declarations : Asks .declarations .declaration
  | references : Asks .references .reference

namespace Target

variable {target : Target} {s : BoundWorkspace} {limitTo : LimitTo} {kind : MatchKind}

/-! ## The kinds of what is found -/

theorem kind_of_mem_declarations {info : DeclaredType} {decl : TypeDecl} {found : Finding}
    (hfound : found ∈ target.declarations info decl) : found.kind = .declaration := by
  have of_declaration? : ∀ {label : String} {name : TextRange} {isTarget : Bool},
      Finding.declaration? label name isTarget = some found → found.kind = .declaration := by
    intro label name isTarget h
    obtain ⟨-, h⟩ := Option.ite_none_right_eq_some.1 h
    rw [← Option.some.inj h]
  rcases List.mem_append.1 hfound with hfound | hfound
  · exact of_declaration? (Option.mem_toList.1 hfound)
  · obtain ⟨member, -, hmember⟩ := List.mem_filterMap.1 hfound
    cases member with
    | method head body => exact of_declaration? hmember
    | field head init => exact of_declaration? hmember
    | initializer isStatic body range => cases hmember
    | type inner => cases hmember

theorem kind_of_mem_references {outside inside : NameScope} {info : DeclaredType} {decl : TypeDecl}
    {found : Finding} (hfound : found ∈ target.references s outside inside info decl) :
    found.kind = .reference := by
  rcases List.mem_append.1 hfound with hfound | hfound
  · obtain ⟨o, -, rfl⟩ := List.mem_map.1 hfound
    rfl
  · obtain ⟨⟨label, places⟩, -, hfound⟩ := List.mem_flatMap.1 hfound
    obtain ⟨o, -, rfl⟩ := List.mem_map.1 hfound
    rfl

theorem kind_of_mem_inImports {scope : NameScope} {found : Finding}
    (hfound : found ∈ target.inImports scope) : found.kind = .reference := by
  unfold inImports at hfound
  split at hfound
  · obtain ⟨i, -, hi⟩ := List.mem_filterMap.1 hfound
    obtain ⟨segments, -, hi⟩ := Option.bind_eq_some_iff.1 hi
    obtain ⟨accuracy, -, hi⟩ := Option.bind_eq_some_iff.1 hi
    rw [← Option.some.inj hi]
  · cases hfound

/-! ## Types, files and archives -/

/-- Findings of one kind are all kept, or none of them is. -/
theorem filter_eq_ite (kind : MatchKind) {found : List Finding} {k : MatchKind}
    (h : ∀ f ∈ found, f.kind = k) :
    found.filter (·.kind == kind) = if k = kind then found else [] := by
  split
  next heq =>
    rw [List.filter_eq_self]
    intro f hf
    rw [h f hf, heq, beq_self_eq_true]
  next hne =>
    rw [List.filter_eq_nil_iff]
    intro f hf hkind
    exact hne ((h f hf).symm.trans (eq_of_beq hkind))

/-- **In a type**, what one limit finds is what all occurrences have of its kind. -/
theorem inType_eq_filter (hasks : limitTo.Asks kind) (scope : NameScope) (info : DeclaredType) :
    target.inType s limitTo scope info =
      (target.inType s .allOccurrences scope info).filter (·.kind == kind) := by
  unfold inType
  cases info.decl? scope.unit with
  | none => rfl
  | some decl =>
    have hdeclarations := filter_eq_ite kind
      fun f (hf : f ∈ target.declarations info decl) => kind_of_mem_declarations hf
    have hreferences := fun outside inside => filter_eq_ite kind
      fun f (hf : f ∈ target.references s outside inside info decl) => kind_of_mem_references hf
    cases hasks <;>
      simp [LimitTo.includesDeclarations, LimitTo.includesReferences, hdeclarations, hreferences]

/-- **In a source file**, what one limit finds is what all occurrences have of its kind. -/
theorem findings_eq_filter (hasks : limitTo.Asks kind) (coverage : Coverage) (file : SourceFile) :
    target.findings s limitTo coverage file =
      (target.findings s .allOccurrences coverage file).filter (·.kind == kind) := by
  unfold findings
  cases s.scope? file none with
  | none => rfl
  | some scope =>
    have himports := filter_eq_ite kind
      fun f (hf : f ∈ target.inImports scope) => kind_of_mem_inImports hf
    have htypes : target.inType s limitTo scope =
        fun info => (target.inType s .allOccurrences scope info).filter (·.kind == kind) :=
      funext (inType_eq_filter hasks scope)
    dsimp only
    rw [List.filter_append, List.filter_flatMap, htypes]
    congr 1
    cases hasks <;> cases coverage.encloses [] <;>
      simp [LimitTo.includesReferences, himports]

/-- **Nothing but declarations and references** is found in a source file without a limit. -/
theorem kind_of_mem_findings {coverage : Coverage} {file : SourceFile} {found : Finding}
    (hfound : found ∈ target.findings s .allOccurrences coverage file) :
    found.kind = .declaration ∨ found.kind = .reference := by
  unfold findings at hfound
  split at hfound
  next => cases hfound
  next scope _ =>
    rcases List.mem_append.1 hfound with hfound | hfound
    · exact Or.inr (kind_of_mem_inImports (List.mem_ite_nil_right.1 hfound).2)
    · obtain ⟨info, -, hfound⟩ := List.mem_flatMap.1 hfound
      unfold inType at hfound
      split at hfound
      next => cases hfound
      next decl _ =>
        rcases List.mem_append.1 hfound with hfound | hfound
        · rcases List.mem_append.1 hfound with hfound | hfound
          · exact Or.inl (kind_of_mem_declarations hfound)
          · exact Or.inr (kind_of_mem_references hfound)
        · cases hfound

/-- **In a type of an archive**, which has declarations only, what one limit finds is what all
occurrences have of its kind. -/
theorem inBinaryType_eq_filter (hasks : limitTo.Asks kind) (info : DeclaredType) :
    target.inBinaryType s limitTo info =
      (target.inBinaryType s .allOccurrences info).filter (·.2 == kind) := by
  cases hasks <;>
    simp [inBinaryType, LimitTo.includesDeclarations, List.filter_map, Function.comp_def]

/-- **Nothing but declarations** is found in a type of an archive without a limit. -/
theorem kind_of_mem_inBinaryType {info : DeclaredType} {found : String × MatchKind}
    (hfound : found ∈ target.inBinaryType s .allOccurrences info) : found.2 = .declaration := by
  unfold inBinaryType at hfound
  obtain ⟨label, -, rfl⟩ := List.mem_map.1 hfound
  rfl

/-- **A reference in a file** is an import of a type, or is found in one of the types. -/
theorem exists_of_mem_findings {coverage : Coverage} {file : SourceFile} {found : Finding}
    (hfound : found ∈ target.findings s limitTo coverage file) (hkind : found.kind = .reference) :
    ∃ scope, s.scope? file none = some scope ∧
      ((target.kind = .type ∧ ∃ i ∈ scope.unit.imports, target.inImport? scope i = some found) ∨
        ∃ info ∈ file.types, ∃ decl, info.decl? scope.unit = some decl ∧
          found ∈ target.references s
            (scope.inside (info.outer.map fun name => ⟨info.key.origin, name⟩))
            (scope.inside (some info.key)) info decl) := by
  unfold findings at hfound
  split at hfound
  next => cases hfound
  next scope hscope =>
    refine ⟨scope, hscope, ?_⟩
    rcases List.mem_append.1 hfound with hfound | hfound
    · obtain ⟨-, hfound⟩ := List.mem_ite_nil_right.1 hfound
      obtain ⟨htype, hfound⟩ := List.mem_ite_nil_right.1 hfound
      exact Or.inl ⟨htype, List.mem_filterMap.1 hfound⟩
    · obtain ⟨info, hinfo, hfound⟩ := List.mem_flatMap.1 hfound
      unfold inType at hfound
      split at hfound
      next => cases hfound
      next decl hdecl =>
        refine Or.inr ⟨info, (List.mem_filter.1 hinfo).1, decl, hdecl, ?_⟩
        rcases List.mem_append.1 hfound with hfound | hfound
        · rcases List.mem_append.1 hfound with hfound | hfound
          · rw [kind_of_mem_declarations (List.mem_ite_nil_right.1 hfound).2] at hkind
            cases hkind
          · exact (List.mem_ite_nil_right.1 hfound).2
        · obtain ⟨o, -, rfl⟩ := List.mem_map.1 (List.mem_ite_nil_right.1 hfound).2
          cases hkind

/-- **No references** are found in a type of an archive. -/
theorem kind_ne_of_mem_inBinaryType {info : DeclaredType} {labelled : String × MatchKind}
    (hfound : labelled ∈ target.inBinaryType s limitTo info) : labelled.2 ≠ .reference := by
  unfold inBinaryType at hfound
  split at hfound
  · split at hfound
    · rw [List.mem_singleton.1 hfound]
      nofun
    · cases hfound
  · split at hfound
    · obtain ⟨label, -, rfl⟩ := List.mem_map.1 hfound
      nofun
    · cases hfound

end Target

namespace Searchable

variable {s : BoundWorkspace} {limitTo : LimitTo} {kind : MatchKind}

/-! ## Documents -/

/-- **In a document**, what one limit finds is what all occurrences have of its kind. -/
theorem locate_eq_filter (target : Target) (hasks : limitTo.Asks kind) (doc : Document) :
    locate s target limitTo doc =
      (locate s target .allOccurrences doc).filter (·.kind == kind) := by
  unfold locate
  cases doc.id with
  | source file =>
    dsimp only
    cases s.workspace.source? file with
    | none => rfl
    | some source =>
      show (target.findings s limitTo doc.coverage source).map _ = List.filter _ (List.map _ _)
      rw [Target.findings_eq_filter hasks, List.filter_map]
      rfl
  | archive id =>
    dsimp only
    cases s.workspace.archive? id with
    | none => rfl
    | some archive =>
      unfold Target.inArchive
      dsimp only
      rw [List.filter_flatMap]
      congr 1
      funext info
      rw [Target.inBinaryType_eq_filter hasks, List.filter_map]
      rfl

theorem kind_of_mem_locate {target : Target} {doc : Document} {found : Match}
    (hfound : found ∈ locate s target .allOccurrences doc) :
    found.kind = .declaration ∨ found.kind = .reference := by
  unfold locate at hfound
  split at hfound
  · split at hfound
    · obtain ⟨finding, hfinding, rfl⟩ := List.mem_map.1 hfound
      exact Target.kind_of_mem_findings hfinding
    · cases hfound
  · split at hfound
    · obtain ⟨info, -, hfound⟩ := List.mem_flatMap.1 hfound
      obtain ⟨binary, hbinary, rfl⟩ := List.mem_map.1 hfound
      exact Or.inl (Target.kind_of_mem_inBinaryType hbinary)
    · cases hfound

/-- **A reference in a document** is found in a source file. -/
theorem exists_finding_of_mem_locate {target : Target} {doc : Document} {m : Match}
    (hm : m ∈ locate s target limitTo doc) (hkind : m.kind = .reference) :
    ∃ id file, s.workspace.source? id = some file ∧
      ∃ found ∈ target.findings s limitTo doc.coverage file,
        m = Target.sourceMatch doc file found := by
  unfold locate at hm
  split at hm
  next id _ =>
    split at hm
    next file hfile =>
      obtain ⟨found, hfound, rfl⟩ := List.mem_map.1 hm
      exact ⟨id, file, hfile, found, hfound, rfl⟩
    next => cases hm
  next id _ =>
    split at hm
    · obtain ⟨info, -, hm⟩ := List.mem_flatMap.1 hm
      obtain ⟨labelled, hlabelled, rfl⟩ := List.mem_map.1 hm
      exact absurd hkind (Target.kind_ne_of_mem_inBinaryType hlabelled)
    · cases hm

/-! ## The order of the matches -/

/-- What the order makes of one more match in front: it stands behind those that start earlier, and
before all others. -/
theorem inOrder_cons (m : Match) (found : List Match) : ∃ before after,
    inOrder (m :: found) = before ++ m :: after ∧ inOrder found = before ++ after ∧
      before = (inOrder found).filter (fun other => !decide (startOf m ≤ startOf other)) ∧
      after = (inOrder found).filter fun other => decide (startOf m ≤ startOf other) := by
  let le : Match → Match → Bool := fun a b => decide (startOf a ≤ startOf b)
  have htrans : ∀ a b c, le a b = true → le b c = true → le a c = true := by
    intro a b c hab hbc
    exact decide_eq_true (Nat.le_trans (of_decide_eq_true hab) (of_decide_eq_true hbc))
  have htotal : ∀ a b, (le a b || le b a) = true := by
    intro a b
    rw [Bool.or_eq_true]
    exact (Nat.le_total (startOf a) (startOf b)).imp decide_eq_true decide_eq_true
  obtain ⟨before, after, hcons, hfound, hbefore⟩ := List.mergeSort_cons htrans htotal m found
  have hafter : ∀ other ∈ after, le m other = true := by
    have hsorted := List.pairwise_mergeSort htrans htotal (m :: found)
    rw [hcons] at hsorted
    intro other hother
    exact List.rel_of_pairwise_cons (List.pairwise_append.1 hsorted).2.1 hother
  refine ⟨before, after, hcons, hfound, ?_, ?_⟩
  · have hkept : before.filter (fun other => !le m other) = before :=
      List.filter_eq_self.2 hbefore
    have hdropped : after.filter (fun other => !le m other) = [] := by
      rw [List.filter_eq_nil_iff]
      intro other hother
      simp [hafter other hother]
    show before = (List.mergeSort found le).filter fun other => !le m other
    rw [hfound, List.filter_append, hkept, hdropped, List.append_nil]
  · have hdropped : before.filter (le m) = [] := by
      rw [List.filter_eq_nil_iff]
      intro other hother
      simpa using hbefore other hother
    have hkept : after.filter (le m) = after := List.filter_eq_self.2 hafter
    show after = (List.mergeSort found le).filter (le m)
    rw [hfound, List.filter_append, hkept, hdropped, List.nil_append]

/-- **The order by places** can be made before matches are left out or after. -/
theorem filter_inOrder (p : Match → Bool) (found : List Match) :
    (inOrder found).filter p = inOrder (found.filter p) := by
  induction found with
  | nil => simp [inOrder]
  | cons m found ih =>
    obtain ⟨before, after, hcons, hfound, hbefore, hafter⟩ := inOrder_cons m found
    rw [hcons, List.filter_append]
    cases hp : p m with
    | true =>
      have hswap : ∀ q : Match → Bool,
          ((inOrder found).filter q).filter p = (inOrder (found.filter p)).filter q := by
        intro q
        rw [← ih, List.filter_filter, List.filter_filter]
        congr 1
        funext other
        exact Bool.and_comm _ _
      obtain ⟨before', after', hcons', -, hbefore', hafter'⟩ := inOrder_cons m (found.filter p)
      rw [List.filter_cons_of_pos hp, List.filter_cons_of_pos hp, hcons', hbefore, hafter, hswap,
        hswap, ← hbefore', ← hafter']
    | false =>
      rw [List.filter_cons_of_neg (by simp [hp]), List.filter_cons_of_neg (by simp [hp]),
        ← List.filter_append, ← hfound, ih]

/-! ## Searches -/

/-- Which documents are looked at does not depend on the limit, nor does the order of what is found
there. -/
theorem locateAll_eq_filter (target : Target) (hasks : limitTo.Asks kind) (docs : List Document) :
    locateAll s target limitTo docs =
      (locateAll s target .allOccurrences docs).filter (·.kind == kind) := by
  unfold locateAll
  rw [List.filter_flatMap]
  congr 1
  funext doc
  rw [filter_inOrder, ← locate_eq_filter target hasks]

/-- The limit decides about a pattern only if it asks for implementors. -/
theorem ofPattern_of_asks (hasks : limitTo.Asks kind) (subject : Subject) :
    Target.ofPattern s ⟨subject, limitTo⟩ = Target.ofPattern s ⟨subject, .allOccurrences⟩ := by
  unfold Target.ofPattern
  cases hasks <;> simp

/-- **A search with a limit** finds what the search for all occurrences finds of the kind that the
limit asks for, in the same order. -/
theorem search_eq_filter (searchable : Searchable) (hasks : limitTo.Asks kind) (subject : Subject)
    (scope : SearchScope) :
    searchable.search ⟨subject, limitTo⟩ scope =
      (searchable.search ⟨subject, .allOccurrences⟩ scope).map
        (·.filter (·.kind == kind)) := by
  unfold search
  rw [ofPattern_of_asks hasks]
  cases Target.ofPattern searchable.bound ⟨subject, .allOccurrences⟩ with
  | error e => rfl
  | ok target => exact congrArg Except.ok (locateAll_eq_filter target hasks _)

theorem kind_of_mem_search {searchable : Searchable} {subject : Subject} {scope : SearchScope}
    {all : List Match} (hall : searchable.search ⟨subject, .allOccurrences⟩ scope = .ok all)
    {found : Match} (hfound : found ∈ all) :
    found.kind = .declaration ∨ found.kind = .reference := by
  unfold search at hall
  cases htarget : Target.ofPattern searchable.bound ⟨subject, .allOccurrences⟩ with
  | error e =>
    rw [htarget] at hall
    cases hall
  | ok target =>
    rw [htarget] at hall
    obtain rfl := Except.ok.inj hall
    obtain ⟨doc, -, hfound⟩ := List.mem_flatMap.1 hfound
    exact kind_of_mem_locate (List.mem_mergeSort.1 hfound)

/-- **All occurrences** are the declarations and the references, none of them lost and none of them
twice: the three searches fail together, with the same error, or the matches of the first are those
of the other two put together, in another order. -/
theorem search_allOccurrences_perm (searchable : Searchable) (subject : Subject)
    (scope : SearchScope) :
    (∃ e, searchable.search ⟨subject, .allOccurrences⟩ scope = .error e ∧
      searchable.search ⟨subject, .declarations⟩ scope = .error e ∧
      searchable.search ⟨subject, .references⟩ scope = .error e) ∨
    ∃ all declarations references,
      searchable.search ⟨subject, .allOccurrences⟩ scope = .ok all ∧
      searchable.search ⟨subject, .declarations⟩ scope = .ok declarations ∧
      searchable.search ⟨subject, .references⟩ scope = .ok references ∧
      all.Perm (declarations ++ references) ∧
      (∀ found ∈ declarations, found.kind = .declaration) ∧
      ∀ found ∈ references, found.kind = .reference := by
  rw [search_eq_filter searchable .declarations, search_eq_filter searchable .references]
  cases hall : searchable.search ⟨subject, .allOccurrences⟩ scope with
  | error e => exact Or.inl ⟨e, rfl, rfl, rfl⟩
  | ok all =>
    refine Or.inr ⟨all, _, _, rfl, rfl, rfl, ?_, ?_, ?_⟩
    · have hother : all.filter (·.kind == .reference) =
          all.filter fun found => !(found.kind == .declaration) := by
        refine List.filter_congr fun found hfound => ?_
        rcases kind_of_mem_search hall hfound with hkind | hkind <;> rw [hkind] <;> rfl
      show all.Perm (all.filter _ ++ all.filter _)
      rw [hother]
      exact (List.filter_append_perm _ all).symm
    · intro found hfound
      exact eq_of_beq (List.mem_filter.1 hfound).2
    · intro found hfound
      exact eq_of_beq (List.mem_filter.1 hfound).2

end Searchable

end SourceSearch
