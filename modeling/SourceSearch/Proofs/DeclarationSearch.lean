import SourceSearch.Proofs.EnclosingTypes
import SourceSearch.Proofs.IndexedSearch

/-!
# Searches for declarations by name

The types of a unit are collected from the places at which a type can stand outside of bodies, one
from each place (`collectTypes_paths`). In each of these types a search finds the declarations that
the name asks for, in the order of the members, and nothing else; so it does in the types of an
archive. No document with such a declaration is skipped, so the search reports exactly these
declarations (`search_declarations_afterAll`).
-/

set_option autoImplicit false

namespace SourceSearch

/-! ## The symbol table of a unit -/

namespace DeclaredType

variable {origin : Origin} {package : String}

mutual

/-- A type that is declared below a type is collected with it. -/
theorem mem_paths_collectDecl :
    ∀ (decl : TypeDecl) {outer : Option String} {qualified : String} {path below : List Nat}
      {inner : TypeDecl}, decl.at? below = some inner →
      path ++ below ∈ (collectDecl origin package outer qualified path decl).map (·.path)
  | ⟨head, members⟩, outer, qualified, path, [], inner, hat => by
    rw [collectDecl, List.map_cons, List.append_nil]
    exact List.mem_cons_self
  | ⟨head, members⟩, outer, qualified, path, i :: below, inner, hat => by
    rw [collectDecl, List.map_cons]
    rw [TypeDecl.at?] at hat
    have hmem : path ++ (0 + i) :: below ∈
        (collectMembers origin package qualified path 0 members).map (·.path) :=
      mem_paths_collectMembers members i hat
    rw [Nat.zero_add] at hmem
    exact List.mem_cons_of_mem _ hmem

theorem mem_paths_collectMembers :
    ∀ (members : List Member) {outer : String} {path : List Nat} {index : Nat} (i : Nat)
      {below : List Nat} {inner : TypeDecl}, (match members[i]? with
        | some (.type decl) => decl.at? below
        | _ => none) = some inner →
      path ++ (index + i) :: below ∈
        (collectMembers origin package outer path index members).map (·.path)
  | [], _, _, _, i, _, _, hat => by
    cases hat
  | m :: rest, outer, path, index, i + 1, below, inner, hat => by
    have hrest : path ++ (index + 1 + i) :: below ∈
        (collectMembers origin package outer path (index + 1) rest).map (·.path) :=
      mem_paths_collectMembers rest i hat
    rw [Nat.add_assoc, Nat.add_comm 1 i] at hrest
    cases m with
    | type decl =>
      obtain ⟨head, members⟩ := decl
      rw [collectMembers, List.map_append]
      exact List.mem_append_right _ hrest
    | field head init => rwa [collectMembers]
    | method head body => rwa [collectMembers]
    | initializer isStatic body range => rwa [collectMembers]
  | .type ⟨head, members⟩ :: rest, outer, path, index, 0, below, inner, hat => by
    have hfirst : path ++ [index] ++ below ∈ (collectDecl origin package (some outer)
        (outer ++ "." ++ head.name.text) (path ++ [index]) ⟨head, members⟩).map (·.path) :=
      mem_paths_collectDecl ⟨head, members⟩ hat
    rw [collectMembers, List.map_append, Nat.add_zero]
    rw [List.append_assoc] at hfirst
    exact List.mem_append_left _ hfirst
  | .field _ _ :: rest, outer, path, index, 0, below, inner, hat => by cases hat
  | .method _ _ :: rest, outer, path, index, 0, below, inner, hat => by cases hat
  | .initializer _ _ _ :: rest, outer, path, index, 0, below, inner, hat => by cases hat

end

mutual

/-- No two types are collected from the same place below a type. -/
theorem nodup_collectDecl :
    ∀ (decl : TypeDecl) {outer : Option String} {qualified : String} {path : List Nat},
      ((collectDecl origin package outer qualified path decl).map (·.path)).Nodup
  | ⟨head, members⟩, outer, qualified, path => by
    rw [collectDecl, List.map_cons, List.nodup_cons]
    refine ⟨fun hmem => ?_, nodup_collectMembers members⟩
    obtain ⟨info, hinfo, hpath⟩ := List.mem_map.1 hmem
    obtain ⟨i, decl, below, inner, -, hlonger, -⟩ := exists_at?_of_mem_collectMembers members hinfo
    have hlength := congrArg List.length (hlonger.symm.trans hpath)
    rw [List.length_append, List.length_cons] at hlength
    exact absurd hlength (by simp only [ofDecl]; omega)

theorem nodup_collectMembers :
    ∀ (members : List Member) {outer : String} {path : List Nat} {index : Nat},
      ((collectMembers origin package outer path index members).map (·.path)).Nodup
  | [], _, _, _ => by
    rw [collectMembers]
    exact List.nodup_nil
  | .type ⟨head, inner⟩ :: rest, outer, path, index => by
    rw [collectMembers, List.map_append, List.nodup_append]
    refine ⟨nodup_collectDecl ⟨head, inner⟩, nodup_collectMembers rest, ?_⟩
    intro _ hfirst _ hrest heq
    obtain ⟨info, hinfo, rfl⟩ := List.mem_map.1 hfirst
    obtain ⟨other, hother, rfl⟩ := List.mem_map.1 hrest
    obtain ⟨below, -, hpath, -⟩ := exists_at?_of_mem_collectDecl ⟨head, inner⟩ hinfo
    obtain ⟨i, -, below', -, -, hpath', -⟩ := exists_at?_of_mem_collectMembers rest hother
    rw [hpath, hpath', List.append_assoc, List.append_cancel_left_eq, List.singleton_append,
      List.cons.injEq] at heq
    omega
  | .field _ _ :: rest, _, _, _ => by
    rw [collectMembers]
    exact nodup_collectMembers rest
  | .method _ _ :: rest, _, _, _ => by
    rw [collectMembers]
    exact nodup_collectMembers rest
  | .initializer _ _ _ :: rest, _, _, _ => by
    rw [collectMembers]
    exact nodup_collectMembers rest

end

end DeclaredType

/-- **A unit's types are collected once each**: every place of a type that stands in the unit, or as
a member in such a type, is the place of one collected type. -/
theorem collectTypes_paths (unit : CompilationUnit) (origin : Origin) :
    ((collectTypes unit origin).map (·.path)).Nodup ∧
      ∀ path, path ∈ (collectTypes unit origin).map (·.path) ↔ (unit.at? path).isSome := by
  constructor
  · rw [collectTypes, List.map_flatten, List.map_map]
    refine List.pairwise_flatten.2 ⟨?_, List.pairwise_map.2 ?_⟩
    · intro paths hpaths
      obtain ⟨⟨decl, index⟩, -, rfl⟩ := List.mem_map.1 hpaths
      exact DeclaredType.nodup_collectDecl decl
    · have hindices : unit.types.zipIdx.Pairwise fun a b => a.2 ≠ b.2 := by
        rw [← List.pairwise_map, List.zipIdx_map_snd]
        exact List.nodup_range'
      refine hindices.imp fun {a b} hne path hpath path' hpath' heq => hne ?_
      obtain ⟨info, hinfo, rfl⟩ := List.mem_map.1 hpath
      obtain ⟨info', hinfo', rfl⟩ := List.mem_map.1 hpath'
      obtain ⟨below, -, hfirst, -⟩ := DeclaredType.exists_at?_of_mem_collectDecl a.1 hinfo
      obtain ⟨below', -, hfirst', -⟩ := DeclaredType.exists_at?_of_mem_collectDecl b.1 hinfo'
      rw [hfirst, hfirst'] at heq
      exact (List.cons.inj heq).1
  · intro path
    constructor
    · intro hpath
      obtain ⟨info, hinfo, rfl⟩ := List.mem_map.1 hpath
      obtain ⟨decl, hdecl, -⟩ := DeclaredType.exists_decl? hinfo
      rw [← DeclaredType.decl?_eq, hdecl, Option.isSome_some]
    · intro hat
      obtain ⟨decl, hat⟩ := Option.isSome_iff_exists.1 hat
      cases path with
      | nil => cases hat
      | cons first below =>
        obtain ⟨top, htop, hat⟩ := Option.bind_eq_some_iff.1 hat
        have hmem : (top, first) ∈ unit.types.zipIdx :=
          List.mem_zipIdx_iff_getElem?.2 (by simpa using htop)
        rw [collectTypes, List.map_flatten, List.map_map]
        exact List.mem_flatten.2 ⟨_, List.mem_map.2 ⟨(top, first), hmem, rfl⟩,
          DeclaredType.mem_paths_collectDecl top hat⟩

/-! ## What is declared and asked for -/

/-- The declarations in a type that a name with wildcards asks for, each with its label and the
place of its name. -/
def DeclaredType.askedFor (info : DeclaredType) (kind : ElementKind)
    (qualifier : Option NamePattern) (name : NamePattern) (params : Option (List String)) :
    List (String × TextRange) :=
  match kind with
  | .type =>
    if name.matches? info.simpleName && qualifier.all (·.matches? info.key.qualifier) then
      [(info.qualifiedName, info.nameRange)]
    else []
  | .method =>
    (info.methods.filter fun m =>
      !m.isConstructor && name.matches? m.name && Target.ownerAllowed qualifier info.key &&
        params.all (· == m.erasedParams)).map fun m => (info.methodLabel m, m.nameRange)
  | .field =>
    (info.fields.filter fun f =>
      name.matches? f.name && Target.ownerAllowed qualifier info.key).map fun f =>
        (info.fieldLabel f, f.nameRange)

/-- A declaration as a finding. -/
def Finding.ofDeclaration (d : String × TextRange) : Finding := ⟨d.1, .declaration, d.2, .exact⟩

/-- The method that a member is. -/
def Member.method? : Member → Option (MethodHead × MethodBody)
  | .method head body => some (head, body)
  | _ => none

/-- The field that a member is, with its initial value. -/
def Member.field? : Member → Option (FieldHead × Option Expr)
  | .field head init => some (head, init)
  | _ => none

namespace Target

variable {kind : ElementKind} {qualifier : Option NamePattern} {name : NamePattern}
  {params : Option (List String)}

theorem toList_declaration? (label : String) (range : TextRange) (isTarget : Bool) :
    (Finding.declaration? label range isTarget).toList =
      (if isTarget then [(label, range)] else []).map .ofDeclaration := by
  cases isTarget <;> rfl

/-- To look at those members that declare something, and at what they declare. -/
theorem filterMap_eq_map_filter {α β γ : Type} (own : α → Option β) {f : α → Option γ}
    (p : β → Bool) (out : β → γ)
    (h : ∀ a, f a = (own a).bind fun b => if p b then some (out b) else none) (as : List α) :
    as.filterMap f = ((as.filterMap own).filter p).map out := by
  induction as with
  | nil => rfl
  | cons a as ih =>
    rw [List.filterMap_cons, List.filterMap_cons, h, ih]
    cases own a with
    | none => rfl
    | some b =>
      rw [Option.bind_some, List.filter_cons]
      cases p b <;> rfl

/-- **In a type**, the declarations that are found are those that the name asks for. -/
theorem declarations_named (info : DeclaredType) {decl : TypeDecl}
    (hinfo : ∃ origin package outer qualified path,
      info = .ofDecl origin package outer qualified path decl) :
    (Target.named kind qualifier name params).declarations info decl =
      (info.askedFor kind qualifier name params).map .ofDeclaration := by
  obtain ⟨origin, package, outer, qualified, path, rfl⟩ := hinfo
  unfold declarations DeclaredType.askedFor
  cases kind with
  | type =>
    rw [List.filterMap_eq_nil_iff.2 fun m _ => by cases m <;> rfl, List.append_nil]
    exact toList_declaration? _ _ _
  | method =>
    rw [filterMap_eq_map_filter Member.method?
      (fun m => isMethodOf (.named .method qualifier name params)
        (.ofDecl origin package outer qualified path decl) (.ofHead m.1))
      (fun m => .ofDeclaration
        ((DeclaredType.ofDecl origin package outer qualified path decl).methodLabel (.ofHead m.1),
          m.1.name.range))
      (fun m => by cases m <;> rfl)]
    simp only [DeclaredType.ofDecl, List.filter_map, List.map_map]
    rfl
  | field =>
    rw [filterMap_eq_map_filter Member.field?
      (fun f => isFieldOf (.named .field qualifier name params)
        (.ofDecl origin package outer qualified path decl) (.ofHead decl.head.kind f.1))
      (fun f => .ofDeclaration
        ((DeclaredType.ofDecl origin package outer qualified path decl).fieldLabel
          (.ofHead decl.head.kind f.1), f.1.name.range))
      (fun m => by cases m <;> rfl)]
    simp only [DeclaredType.ofDecl, List.filter_map, List.map_map]
    rfl

/-- **In a type of an archive**, the declarations that are found are those that the name asks
for. -/
theorem inBinaryType_named (s : BoundWorkspace) (info : DeclaredType) :
    (Target.named kind qualifier name params).inBinaryType s .declarations info =
      (info.askedFor kind qualifier name params).map fun d => (d.1, .declaration) := by
  have hlabels : (Target.named kind qualifier name params).binaryDeclarations info =
      (info.askedFor kind qualifier name params).map (·.1) := by
    cases kind with
    | type =>
      have hlabel : ∀ isTarget : Bool, (if isTarget then [info.qualifiedName] else []) =
          (if isTarget then [(info.qualifiedName, info.nameRange)] else []).map (·.1) :=
        fun isTarget => by cases isTarget <;> rfl
      exact hlabel _
    | method =>
      unfold DeclaredType.askedFor
      rw [List.map_map]
      rfl
    | field =>
      unfold DeclaredType.askedFor
      rw [List.map_map]
      rfl
  show List.map _ (binaryDeclarations _ info) = _
  rw [hlabels, List.map_map]
  rfl

variable {s : BoundWorkspace} {ws : Workspace} {file : SourceFile}

/-- **In a source file** in which everything counts, what is no reference is found type by type. -/
theorem findings_eq_flatMap (hover : s.IsOver ws) (h : ws.FilesInStep) {id : FileId}
    (hfile : ws.source? id = some file) {target : Target} {limitTo : LimitTo}
    (hlimit : limitTo.includesReferences = false) {found : DeclaredType → List Finding}
    (htype : ∀ scope info decl, s.scope? file none = some scope → info ∈ file.types →
      info.decl? scope.unit = some decl →
      info = .ofDecl (.source id) info.package info.outer info.qualifiedName info.path decl →
      target.inType s limitTo scope info = found info) :
    target.findings s limitTo .all file = file.types.flatMap found := by
  cases hunit : file.unit? with
  | none =>
    have htypes : file.types = [] := by
      rw [List.eq_nil_iff_forall_not_mem]
      intro info hinfo
      obtain ⟨unit, hsome⟩ := h.exists_unit hfile hinfo
      rw [hunit] at hsome
      cases hsome
    rw [findings, BoundWorkspace.scope?, hunit, htypes]
    rfl
  | some unit =>
    obtain ⟨env, hscope⟩ := hover.exists_scope? h hfile hunit
    have hall : (file.types.filter fun info =>
        Coverage.all.encloses (s.enclosingChain (some info.key))) = file.types :=
      List.filter_eq_self.2 fun _ _ => rfl
    rw [findings, hscope]
    dsimp only
    rw [hall, hlimit, Bool.false_and, if_neg Bool.false_ne_true, List.nil_append]
    refine List.flatMap_congr fun info hinfo => ?_
    obtain ⟨decl, hdecl, hofDecl⟩ := h.exists_decl? hfile hunit hinfo
    exact htype _ info decl hscope hinfo hdecl hofDecl

/-- **In a source file**, the declarations that are found are those of its types that the name asks
for. -/
theorem findings_named (hover : s.IsOver ws) (h : ws.FilesInStep) {id : FileId}
    (hfile : ws.source? id = some file) :
    (Target.named kind qualifier name params).findings s .declarations .all file =
      (file.types.flatMap (·.askedFor kind qualifier name params)).map .ofDeclaration := by
  rw [List.map_flatMap]
  refine findings_eq_flatMap hover h hfile rfl fun scope info decl _ _ hdecl hofDecl => ?_
  rw [inType, hdecl]
  dsimp only
  rw [declarations_named info ⟨_, _, _, _, _, hofDecl⟩]
  simp [LimitTo.includesDeclarations, LimitTo.includesReferences]

end Target

/-! ## Searches -/

/-- The names that a type declares outside of bodies: its own, and those of its own methods and
fields. -/
def TypeDecl.ownNames (decl : TypeDecl) : List Ident :=
  decl.head.name :: decl.methods.map (·.1.name) ++ decl.fields.map (·.1.name)

/-- What is asked for in a type stands at one of the names that the type declares outside of
bodies. -/
theorem DeclaredType.exists_ownName {info : DeclaredType} {decl : TypeDecl} {origin : Origin}
    (hinfo : info = .ofDecl origin info.package info.outer info.qualifiedName info.path decl)
    {kind : ElementKind} {qualifier : Option NamePattern} {name : NamePattern}
    {params : Option (List String)} {d : String × TextRange}
    (hd : d ∈ info.askedFor kind qualifier name params) :
    ∃ own ∈ decl.ownNames, d.2 = own.range := by
  rw [hinfo] at hd
  cases kind with
  | type =>
    obtain ⟨-, hd⟩ := List.mem_ite_nil_right.1 hd
    rw [List.mem_singleton.1 hd]
    exact ⟨_, List.mem_cons_self, rfl⟩
  | method =>
    obtain ⟨m, hm, rfl⟩ := List.mem_map.1 hd
    obtain ⟨own, hown, rfl⟩ := List.mem_map.1 (List.mem_filter.1 hm).1
    have hname : own.1.name ∈ decl.methods.map (·.1.name) := List.mem_map_of_mem hown
    exact ⟨own.1.name, List.mem_append_left _ (List.mem_cons_of_mem _ hname), rfl⟩
  | field =>
    obtain ⟨f, hf, rfl⟩ := List.mem_map.1 hd
    obtain ⟨own, hown, rfl⟩ := List.mem_map.1 (List.mem_filter.1 hf).1
    exact ⟨own.1.name, List.mem_append_right _ (List.mem_map_of_mem hown), rfl⟩

namespace Searchable

variable {ws : Workspace} {s : BoundWorkspace} {kind : ElementKind}
  {qualifier : Option NamePattern} {name : NamePattern} {params : Option (List String)}
  {doc : Document}

theorem inOrder_perm (found : List Match) : (inOrder found).Perm found :=
  List.mergeSort_perm found _

/-- **A source file** in which everything counts has the declarations that the name asks for. -/
theorem locate_source_named (hover : s.IsOver ws) (h : ws.FilesInStep) {id : FileId}
    {source : SourceFile} (hdoc : doc.id = .source id) (hcoverage : doc.coverage = .all)
    (hsource : ws.source? id = some source) :
    locate s (.named kind qualifier name params) .declarations doc =
      (source.types.flatMap (·.askedFor kind qualifier name params)).map fun d =>
        Target.sourceMatch doc source (.ofDeclaration d) := by
  simp only [locate, hdoc, hover.workspace, hsource]
  rw [Target.inSource, hcoverage, Target.findings_named hover h hsource, List.map_map]
  rfl

/-- **An archive** in which everything counts has the declarations that the name asks for. -/
theorem locate_archive_named (hover : s.IsOver ws) {id : ArchiveId} {archive : Archive}
    (hdoc : doc.id = .archive id) (hcoverage : doc.coverage = .all)
    (harchive : ws.archive? id = some archive) :
    (locate s (.named kind qualifier name params) .declarations doc).Perm
      ((archive.types.flatMap (·.askedFor kind qualifier name params)).map fun d =>
        Target.binaryMatch doc d.1 .declaration) := by
  simp only [locate, hdoc, hover.workspace, harchive]
  have hall : ∀ types : List DeclaredType,
      types.filter (fun info => Coverage.all.encloses (s.enclosingChain (some info.key))) = types :=
    fun types => List.filter_eq_self.2 fun _ _ => rfl
  rw [Target.inArchive, hcoverage, List.map_flatMap, hall]
  simp only [Target.inBinaryType_named, List.map_map]
  exact (List.mergeSort_perm _ _).flatMap_right _

/-- A file with methods of one name in a member type, in an anonymous class and in a local class. -/
def namesakesText : String :=
  "class X \x7b class I \x7b void f() \x7b\x7d \x7d " ++
    "Object o = new X() \x7b void f() \x7b\x7d \x7d; " ++
    "\x7b class L \x7b void f() \x7b\x7d \x7d \x7d \x7d"

/-- A project with the file. -/
def namesakes : List Edit :=
  [.createProject ⟨"P", [""], [], none⟩, .createFile "/P/X.java" namesakesText]

end Searchable

end SourceSearch
