import Mathlib.Data.List.Perm.Basic
import SourceSearch.Proofs.DistinctMatches

/-!
# The words at references to types

A use of a type stands for a type, or for none that can be told (`TypeUse`). There are uses in
imports, in heads of types and at the places in members (`BoundWorkspace.typeUses`), and a search
for a type reports those of them that the target accepts (`Target.exists_use_of_mem_findings`).

The word of a use is the simple name of the type that it stands for, or the last segment of what is
written if there is no such type. A use has its word as an identifier in its range, unless it is at
an enum constant: a constant with arguments or a body creates an object of its enum, whose name is
not written there, and this use stands at the name of the constant. So the word is missing exactly
at the constants that are not named like it (`search_types_afterAll`).
-/

set_option autoImplicit false

namespace SourceSearch

/-- A use of a type: where it stands, the type that it stands for, if that can be told, and the
segments of the name. -/
structure TypeUse where
  range : TextRange
  bound : Option TypeKey
  segments : List String
  deriving DecidableEq, Repr

namespace TypeUse

/-- The word of a use: the simple name of the type that it stands for, or else the last segment. -/
def word? (use : TypeUse) : Option String :=
  match use.bound with
  | some key => some key.simpleName
  | none => use.segments.getLast?

/-- The occurrence that a use is. -/
def occurrence? (target : Target) (use : TypeUse) : Option Occurrence :=
  Occurrence.at? use.range (target.typeAccuracy? use.bound use.segments)

end TypeUse

/-! ## The uses in a file -/

namespace BoundWorkspace

/-- The use that an import is. -/
def importUse? (scope : NameScope) (i : ImportDecl) : Option TypeUse :=
  (Target.importedType? i).map fun segments =>
    ⟨i.range, scope.env.lookup? (".".intercalate segments), segments⟩

/-- The use of a type that is at a place: a written type, a simple name that stands for a type or
for nothing, or a name behind a point that stands for a type. -/
def typeUse? (s : BoundWorkspace) (scope : NameScope) : Place → Option TypeUse
  | .typeRef ref =>
    if ref.isPrimitive || ref.segments == ["var"] then none
    else some ⟨ref.range, s.typeOfRef? scope ref, ref.segments⟩
  | .expr locals e =>
    match e.kind with
    | .name name =>
      match s.meaningOfName scope locals name.text with
      | .type key => some ⟨name.range, some key, [name.text]⟩
      | .unknown => some ⟨name.range, none, [name.text]⟩
      | _ => none
    | .fieldAccess qualifier name =>
      match s.meaningOfMember scope (s.meaning scope locals qualifier) name.text with
      | .type key => some ⟨e.range, some key, [name.text]⟩
      | _ => none
    | _ => none

/-- The uses in a type of a file: in its head, bound where the type stands, and in its own members.
-/
def usesInType (s : BoundWorkspace) (scope : NameScope) (info : DeclaredType) : List TypeUse :=
  match info.decl? scope.unit with
  | none => []
  | some decl =>
    let outside := scope.inside (info.outer.map fun name => ⟨info.key.origin, name⟩)
    let inside := scope.inside (some info.key)
    (decl.head.superclass.toList ++ decl.head.interfaces).filterMap
        (fun ref => s.typeUse? outside (.typeRef ref)) ++
      (Target.labelledPlaces s inside info decl).filterMap fun place => s.typeUse? inside place.2

/-- The uses of types in a file, from the place at its top. -/
def typeUses (s : BoundWorkspace) (scope : NameScope) : List TypeUse :=
  scope.unit.imports.filterMap (importUse? scope) ++ scope.file.types.flatMap (s.usesInType scope)

end BoundWorkspace

/-- An enum constant with arguments or a body has its name there. -/
def CompilationUnit.HasConstantAt (unit : CompilationUnit) (range : TextRange) (name : String) :
    Prop :=
  ∃ head value, Node.field head (some value) ∈ Walk.unit unit ∧ head.isEnumConstant = true ∧
    head.name = ⟨name, range⟩

variable {ws : Workspace} {s : BoundWorkspace} {scope : NameScope} {text : String} {border hi : Nat}

/-! ## The word of a use -/

namespace CompilationUnit.ReadIn

variable {unit : CompilationUnit}

/-- **At an enum constant** nothing is written but the name of the constant. -/
theorem writes_iff_of_constant (h : unit.ReadIn text border hi) {range : TextRange} {name : String}
    (hconstant : unit.HasConstantAt range name) {word : String} :
    Writes text range.start range.stop word ↔ word = name := by
  obtain ⟨head, value, hfield, -, hname⟩ := hconstant
  have hread := h.nodes _ hfield
  have hspelled := hread.fits.idents head.name List.mem_cons_self
  have hword : WordOf text head.name.text := hread.written
  rw [hname] at hspelled hword
  exact hspelled.writes_iff hword

/-- What is written somewhere unless an enum constant has its name there is written there iff it is
the name of all enum constants that have. -/
theorem writes_iff (h : unit.ReadIn text border hi) {range : TextRange} {word : String}
    (hwrites : Writes text range.start range.stop word ∨ ∃ name, unit.HasConstantAt range name) :
    Writes text range.start range.stop word ↔
      ∀ name, unit.HasConstantAt range name → name = word := by
  constructor
  · intro hword name hconstant
    exact ((h.writes_iff_of_constant hconstant).1 hword).symm
  · intro hall
    rcases hwrites with hword | ⟨name, hconstant⟩
    · exact hword
    · exact (h.writes_iff_of_constant hconstant).2 (hall name hconstant).symm

end CompilationUnit.ReadIn

namespace TypeUse

variable {use : TypeUse}

/-- A use has a word, and in its range the text has the word or an enum constant has its name. -/
def HasWord (text : String) (unit : CompilationUnit) (use : TypeUse) : Prop :=
  ∃ word, use.word? = some word ∧ (Writes text use.range.start use.range.stop word ∨
    ∃ name, unit.HasConstantAt use.range name)

/-- A use that ends in the simple name of its type has its last segment as its word. -/
theorem word?_eq_getLast? (hbound : ∀ key, use.bound = some key →
    use.segments.getLast? = some key.simpleName) : use.word? = use.segments.getLast? := by
  unfold word?
  split
  next key hkey => rw [hbound key hkey]
  next => rfl

section Places

variable (hscope : scope.IsIn ws) (hws : ws.InStep) (h : scope.unit.ReadIn text border hi)

include hscope hws h

/-- **An import** writes its word. -/
theorem hasWord_of_importUse? {i : ImportDecl} (himport : i ∈ scope.unit.imports)
    (huse : BoundWorkspace.importUse? scope i = some use) : use.HasWord text scope.unit := by
  obtain ⟨segments, hsegments, rfl⟩ := Option.map_eq_some_iff.1 huse
  obtain ⟨hne, hsub⟩ := Target.of_importedType? hsegments
  have hlast := List.getLast?_eq_some_getLast hne
  refine ⟨segments.getLast hne, (word?_eq_getLast? fun key hkey => ?_).trans hlast, Or.inl ?_⟩
  · have hdots : ∀ segment ∈ segments, '.' ∉ segment.toList := fun segment hmem =>
      hscope.no_dot_import himport segment (hsub segment hmem)
    rw [TypeKey.simpleName, (hscope.of_lookup? hws hkey).1, Text.lastSegment_intercalate hdots,
      hlast, Option.getD_some]
  · exact (h.imports i himport).there _ (hsub _ (List.getLast_mem hne))

/-- **A written type** writes its word, unless it is that of an enum constant. -/
theorem hasWord_of_typeRef {ref : TypeRef} (hnode : .typeRef ref ∈ Walk.unit scope.unit)
    (huse : s.typeUse? scope (.typeRef ref) = some use) : use.HasWord text scope.unit := by
  obtain ⟨hplain, huse⟩ := Option.ite_none_left_eq_some.1 huse
  obtain rfl := Option.some.inj huse
  rw [Bool.or_eq_true, not_or, Bool.not_eq_true] at hplain
  have hwritten : ref.WrittenIn IsWord := hscope.unit.nodes _ hnode
  have hne : ref.segments ≠ [] := by
    rcases hwritten with ⟨p, hp⟩ | ⟨hne, -⟩
    · rw [hp]
      exact List.cons_ne_nil _ _
    · exact hne
  have hlast := List.getLast?_eq_some_getLast hne
  refine ⟨ref.segments.getLast hne, (word?_eq_getLast? fun key hkey => ?_).trans hlast, ?_⟩
  · exact (BoundWorkspace.simpleName_of_typeOfRef? hscope hws hwritten hkey).2
  · refine (h.typesThere ref hnode).imp (fun hthere => hthere.word_of_getLast? hplain.1 hlast) ?_
    rintro ⟨head, args, body, range, hfield, henum, hrange⟩
    exact ⟨head.name.text, head, _, hfield, henum, by rw [hrange]⟩

/-- **A name in an expression** is the word of the use that it is. -/
theorem hasWord_of_expr {locals : Locals} {e : Expr} (hnode : .expr e ∈ Walk.unit scope.unit)
    (huse : s.typeUse? scope (.expr locals e) = some use) : use.HasWord text scope.unit := by
  have hread := h.nodes _ hnode
  have hnamed : e.kind.NamedIn IsWord := hscope.unit.nodes _ hnode
  obtain ⟨kind, range⟩ := e
  cases kind with
  | name name =>
    have hwrites := (hread.fits.idents name List.mem_cons_self).writes hread.written
    unfold BoundWorkspace.typeUse? at huse
    dsimp only at huse
    split at huse
    next key hkey =>
      obtain rfl := Option.some.inj huse
      have hname := BoundWorkspace.simpleName_of_meaningOfName hscope hws hnamed.no_dot hkey
      exact ⟨name.text, congrArg some hname, Or.inl hwrites⟩
    next =>
      obtain rfl := Option.some.inj huse
      exact ⟨name.text, rfl, Or.inl hwrites⟩
    next => cases huse
  | fieldAccess qualifier name =>
    have hwrites := (hread.fits.idents name List.mem_cons_self).writes hread.written
    -- the use takes the whole expression, which has the name in its range
    have hlies := (hread.fits.parts _ List.mem_cons_self).holds _ List.mem_cons_self name.range
      (List.mem_append_left _ List.mem_cons_self)
    unfold BoundWorkspace.typeUse? at huse
    dsimp only at huse
    split at huse
    next key hkey =>
      obtain rfl := Option.some.inj huse
      have hname := BoundWorkspace.simpleName_of_meaningOfMember hscope hws hnamed.no_dot hkey
      exact ⟨name.text, congrArg some hname, Or.inl (hwrites.widen hlies.start_le hlies.le_stop)⟩
    next => cases huse
  | _ => cases huse

/-- A use at a place of the file, in whichever type, has its word. -/
theorem hasWord_of_typeUse? (enclosing : Option TypeKey) (place : Place)
    (hnode : place.node ∈ Walk.unit scope.unit)
    (huse : s.typeUse? (scope.inside enclosing) place = some use) :
    use.HasWord text scope.unit := by
  cases place with
  | expr locals e =>
    have hword := hasWord_of_expr (hscope.inside enclosing) hws h hnode huse
    exact hword
  | typeRef ref =>
    have hword := hasWord_of_typeRef (hscope.inside enclosing) hws h hnode huse
    exact hword

/-- **The uses in a file** have words, and write them but at enum constants. -/
theorem hasWord_of_mem_typeUses (huse : use ∈ s.typeUses scope) : use.HasWord text scope.unit := by
  rcases List.mem_append.1 huse with huse | huse
  · obtain ⟨i, himport, huse⟩ := List.mem_filterMap.1 huse
    exact hasWord_of_importUse? hscope hws h himport huse
  · obtain ⟨info, -, huse⟩ := List.mem_flatMap.1 huse
    unfold BoundWorkspace.usesInType at huse
    split at huse
    next => cases huse
    next decl hdecl =>
      have hsub := DeclaredType.walk_subset hdecl
      rcases List.mem_append.1 huse with huse | huse
      · obtain ⟨ref, href, huse⟩ := List.mem_filterMap.1 huse
        exact hasWord_of_typeUse? hscope hws h _ (.typeRef ref) (hsub (Target.supertype_mem href))
          huse
      · obtain ⟨⟨label, place⟩, hplace, huse⟩ := List.mem_filterMap.1 huse
        have hmember := (Target.labelledPlaces_sublist s _ info decl).subset
          (List.mem_map_of_mem hplace)
        exact hasWord_of_typeUse? hscope hws h _ place
          (hsub ((Walk.members_sublist decl).subset hmember)) huse

end Places

end TypeUse

/-! ## The uses that are found -/

namespace Target

variable {target : Target} {limitTo : LimitTo} {found : Finding}

/-- What a target for types finds at a place is the use there, if it accepts that. -/
theorem at?_eq_of_kind (hkind : target.kind = .type) (place : Place) :
    target.at? s scope place = (s.typeUse? scope place).bind (TypeUse.occurrence? target) := by
  cases place with
  | typeRef ref =>
    rw [at?, if_pos hkind, inTypeRef?, BoundWorkspace.typeUse?]
    split <;> rfl
  | expr locals e =>
    obtain ⟨kind, range⟩ := e
    cases kind with
    | name name =>
      simp only [at?, inExpr?, inName?, hkind, BoundWorkspace.typeUse?]
      cases s.meaningOfName scope locals name.text <;> rfl
    | fieldAccess qualifier name =>
      simp only [at?, inExpr?, inFieldAccess?, hkind, BoundWorkspace.typeUse?]
      cases s.meaningOfMember scope (s.meaning scope locals qualifier) name.text <;> rfl
    | _ => simp [at?, inExpr?, hkind, BoundWorkspace.typeUse?]

/-- An import is found as the use that it is. -/
theorem exists_importUse?_of_inImport? {i : ImportDecl}
    (hfound : target.inImport? scope i = some found) :
    ∃ use, BoundWorkspace.importUse? scope i = some use ∧
      use.occurrence? target = some found.occurrence := by
  obtain ⟨segments, hsegments, hfound⟩ := Option.bind_eq_some_iff.1 hfound
  obtain ⟨accuracy, haccuracy, hfound⟩ := Option.bind_eq_some_iff.1 hfound
  obtain rfl := Option.some.inj hfound
  exact ⟨_, congrArg (Option.map _) hsegments, congrArg (Occurrence.at? i.range) haccuracy⟩

/-- The references in a type are uses in the type. -/
theorem exists_use_of_mem_references (hkind : target.kind = .type) {info : DeclaredType}
    {decl : TypeDecl} (hdecl : info.decl? scope.unit = some decl)
    (hfound : found ∈ target.references s
      (scope.inside (info.outer.map fun name => ⟨info.key.origin, name⟩))
      (scope.inside (some info.key)) info decl) :
    ∃ use ∈ s.usesInType scope info, use.occurrence? target = some found.occurrence := by
  have husesAt : ∀ {inside : NameScope} {place : Place} {o : Occurrence},
      target.at? s inside place = some o →
        ∃ use, s.typeUse? inside place = some use ∧ use.occurrence? target = some o := by
    intro inside place o ho
    rw [at?_eq_of_kind hkind] at ho
    exact Option.bind_eq_some_iff.1 ho
  rw [BoundWorkspace.usesInType, hdecl]
  rw [references_eq] at hfound
  rcases List.mem_append.1 hfound with hfound | hfound
  · obtain ⟨o, ho, rfl⟩ := List.mem_map.1 hfound
    obtain ⟨ref, href, ho⟩ := List.mem_filterMap.1 ho
    obtain ⟨use, huse, hoccurrence⟩ := husesAt ho
    exact ⟨use, List.mem_append_left _ (List.mem_filterMap.2 ⟨ref, href, huse⟩), hoccurrence⟩
  · obtain ⟨place, hplace, hfound⟩ := List.mem_filterMap.1 hfound
    obtain ⟨o, ho, rfl⟩ := Option.map_eq_some_iff.1 hfound
    obtain ⟨use, huse, hoccurrence⟩ := husesAt ho
    exact ⟨use, List.mem_append_right _ (List.mem_filterMap.2 ⟨place, hplace, huse⟩), hoccurrence⟩

/-- **The references in a file** are uses of types in the file that the target accepts. -/
theorem exists_use_of_mem_findings (hover : s.IsOver ws) (hkind : target.kind = .type)
    {file : SourceFile} {coverage : Coverage}
    (hfound : found ∈ target.findings s limitTo coverage file)
    (hreference : found.kind = .reference) :
    ∃ scope, s.scope? file none = some scope ∧
      ∃ use ∈ s.typeUses scope, use.occurrence? target = some found.occurrence := by
  obtain ⟨scope, hscope, hfound⟩ := exists_of_mem_findings hfound hreference
  refine ⟨scope, hscope, ?_⟩
  obtain rfl := (hover.of_scope? hscope).2.1
  rcases hfound with ⟨-, i, himport, hfound⟩ | ⟨info, hinfo, decl, hdecl, hfound⟩
  · obtain ⟨use, huse, hoccurrence⟩ := exists_importUse?_of_inImport? hfound
    exact ⟨use, List.mem_append_left _ (List.mem_filterMap.2 ⟨i, himport, huse⟩), hoccurrence⟩
  · obtain ⟨use, huse, hoccurrence⟩ := exists_use_of_mem_references hkind hdecl hfound
    have hmem := List.mem_flatMap.2 ⟨info, hinfo, huse⟩
    exact ⟨use, List.mem_append_right _ hmem, hoccurrence⟩

end Target

/-- **The references in a document** to types are uses in a file of the workspace. -/
theorem Searchable.exists_use_of_mem_locate {target : Target} {limitTo : LimitTo} {doc : Document}
    {m : Match} (hover : s.IsOver ws) (hws : ws.InStep) (hkind : target.kind = .type)
    (hm : m ∈ locate s target limitTo doc) (hreference : m.kind = .reference) :
    ∃ id file scope, m.file = some id ∧ ws.source? id = some file ∧
      s.scope? file none = some scope ∧ ∃ use ∈ s.typeUses scope, m.range = some use.range ∧
        target.typeAccuracy? use.bound use.segments = some m.accuracy := by
  obtain ⟨id, file, hfile, found, hfound, rfl⟩ := exists_finding_of_mem_locate hm hreference
  rw [hover.workspace] at hfile
  obtain ⟨scope, hscope, use, huse, hoccurrence⟩ :=
    Target.exists_use_of_mem_findings hover hkind hfound hreference
  obtain ⟨accuracy, haccuracy, heq⟩ := Option.map_eq_some_iff.1 hoccurrence
  refine ⟨id, file, scope, congrArg some (hws.files.source_id hfile), hfile, hscope, use, huse,
    ?_, ?_⟩
  · exact congrArg (some ·.range) heq.symm
  · rw [haccuracy]
    exact congrArg (some ·.accuracy) heq

/-- **The words at references to types.** After any edits, and whichever type or name of types is
searched for in whichever scope, each reference that is reported stands at a use of a type in a file
that parses, and the target accepts what the use stands for. The use has a word, the simple name of
the type that it stands for or the last segment that stands for none, and the text has this word as
an identifier in the reported range iff each enum constant with arguments or a body that has its
name there has the word as its name. -/
theorem search_types_afterAll (edits : List Edit) (pattern : SearchPattern) (scope : SearchScope)
    (target : Target) (found : List Match) :
    let ws := Workspace.initial.afterAll edits
    let s := BoundWorkspace.ofWorkspace ws
    Target.ofPattern s pattern = .ok target → target.kind = .type →
      (Searchable.ofWorkspace ws).search pattern scope = .ok found →
        ∀ m ∈ found, m.kind = .reference → ∃ id file top,
          m.file = some id ∧ ws.source? id = some file ∧ s.scope? file none = some top ∧
          ∃ use ∈ s.typeUses top, m.range = some use.range ∧
            target.typeAccuracy? use.bound use.segments = some m.accuracy ∧
            ∃ word, use.word? = some word ∧
              (Writes file.text use.range.start use.range.stop word ↔
                ∀ name, top.unit.HasConstantAt use.range name → name = word) := by
  intro ws s htarget hkind hfound m hm hreference
  have hws : ws.InStep := Workspace.inStep_afterAll edits
  have hover : s.IsOver ws := BoundWorkspace.isOver_ofWorkspace ws
  obtain ⟨target', htarget', hlocated⟩ := bind_eq_ok_iff.1 hfound
  obtain rfl := Except.ok.inj hlocated
  obtain rfl := Except.ok.inj (htarget.symm.trans htarget')
  obtain ⟨doc, -, hm⟩ := List.mem_flatMap.1 hm
  obtain ⟨id, file, top, hid, hfile, htop, use, huse, hrange, haccuracy⟩ :=
    Searchable.exists_use_of_mem_locate hover hws hkind (List.mem_mergeSort.1 hm) hreference
  obtain ⟨border, hi, hread⟩ := hws.files.unit_readIn hfile (hover.of_scope? htop).1
  obtain ⟨word, hword, hwrites⟩ := TypeUse.hasWord_of_mem_typeUses
    (hover.isIn_of_scope? hws hfile htop) hws hread huse
  exact ⟨id, file, top, hid, hfile, htop, use, huse, hrange, haccuracy, word, hword,
    hread.writes_iff hwrites⟩

/-- An enum with a constant that has an argument. -/
def constantText : String := "enum E \x7b A(1); E(int n) \x7b \x7d E e; \x7d"

/-- A project with the enum. -/
def withConstant : List Edit :=
  [.createProject ⟨"P", [""], [], none⟩, .createFile "/P/E.java" constantText]

/-- Both the constant and the field are reported as references to the enum, and only the field is
written with its name. -/
theorem search_types_withConstant :
    let ws := Workspace.initial.afterAll withConstant
    let s := BoundWorkspace.ofWorkspace ws
    let target := Target.type ⟨.source ⟨0⟩, "E"⟩
    ∃ found, (Searchable.ofWorkspace ws).search ⟨.type ⟨.source ⟨0⟩, "E"⟩, .references⟩
        (.workspace ws) = .ok found ∧
      (found.map (·.source)).Perm [some "A", some "E"] ∧
      ∀ m ∈ found, m.kind = .reference → ∃ id file top,
        m.file = some id ∧ ws.source? id = some file ∧ s.scope? file none = some top ∧
        ∃ use ∈ s.typeUses top, m.range = some use.range ∧
          target.typeAccuracy? use.bound use.segments = some m.accuracy ∧
          ∃ word, use.word? = some word ∧
            (Writes file.text use.range.start use.range.stop word ↔
              ∀ name, top.unit.HasConstantAt use.range name → name = word) := by
  intro ws s target
  let searchable := Searchable.ofWorkspace ws
  have htarget : Target.ofPattern s ⟨.type ⟨.source ⟨0⟩, "E"⟩, .references⟩ = .ok target := by
    decide +kernel
  let docs := (SearchScope.workspace ws).documents.filter
    (Searchable.admits searchable.index target)
  have hfound : searchable.search ⟨.type ⟨.source ⟨0⟩, "E"⟩, .references⟩ (.workspace ws) =
      .ok (Searchable.locateAll s target .references docs) :=
    bind_eq_ok_iff.2 ⟨target, htarget, rfl⟩
  have hperm : (Searchable.locateAll s target .references docs).Perm
      (docs.flatMap (Searchable.locate s target .references)) :=
    .flatMap_left docs fun _ _ => List.mergeSort_perm _ _
  have hshown : (docs.flatMap (Searchable.locate s target .references)).map (·.source) =
      [some "A", some "E"] := by
    decide +kernel
  exact ⟨_, hfound, hshown ▸ hperm.map _,
    search_types_afterAll withConstant _ (.workspace ws) target _ htarget rfl hfound⟩

end SourceSearch
