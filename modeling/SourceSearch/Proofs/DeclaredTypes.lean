import SourceSearch.Proofs.Consistency

/-!
# The words of declared types

What a text declares is named by words of the text (`of_mem_collectTypes`), and the declaration of a
type is found again in its tree (`writtenIn_decl?`). An archive records more than its sources write,
since it qualifies the types that they name; still the segments of these have no dots
(`of_mem_ofUnits`).
-/

set_option autoImplicit false

namespace SourceSearch

variable {words : String → Prop}

/-- A declared type is of an origin, it and its members are named by words, and the supertypes in
its head are written in the words of heads. -/
structure DeclaredType.NamedIn (words headWords : String → Prop) (origin : Origin)
    (info : DeclaredType) : Prop where
  origin_eq : info.key.origin = origin
  name : words info.simpleName
  methods : ∀ m ∈ info.methods, words m.name
  fields : ∀ f ∈ info.fields, words f.name
  heads : ∀ ref ∈ info.superclass.toList ++ info.interfaces, ref.WrittenIn headWords

/-! ## Types of a tree -/

/-- The members of a type are among the nodes of the type. -/
theorem writtenIn_member {members : List Member} (h : WrittenIn words (Walk.members members))
    {m : Member} (hm : m ∈ members) : WrittenIn words (Walk.member m) := by
  rw [Walk.members_eq_flatMap, writtenIn_flatMap] at h
  exact h m hm

theorem TypeDecl.writtenIn_members {decl : TypeDecl} (h : WrittenIn words (Walk.typeDecl decl)) :
    WrittenIn words (Walk.members decl.members) := by
  obtain ⟨head, members⟩ := decl
  rw [Walk.typeDecl, List.cons_append, writtenIn_cons, writtenIn_append] at h
  exact h.2.2

/-- The nodes of the members of a type are nodes of the type, in their order. -/
theorem Walk.members_sublist (decl : TypeDecl) :
    (Walk.members decl.members).Sublist (Walk.typeDecl decl) := by
  obtain ⟨head, members⟩ := decl
  rw [Walk.typeDecl]
  exact List.sublist_append_right _ _

/-- The nodes of a member are nodes of its type, in their order. -/
theorem Walk.member_sublist {decl : TypeDecl} {m : Member} (hm : m ∈ decl.members) :
    (Walk.member m).Sublist (Walk.typeDecl decl) := by
  have hmember := (List.singleton_sublist.2 hm).flatMap Walk.member
  rw [List.flatMap_singleton, ← Walk.members_eq_flatMap] at hmember
  exact hmember.trans (members_sublist decl)

theorem Walk.member_subset {decl : TypeDecl} {m : Member} (hm : m ∈ decl.members) :
    Walk.member m ⊆ Walk.typeDecl decl :=
  (member_sublist hm).subset

/-- The nodes of a declaration that is inside another one are nodes of that one, in their order. -/
theorem TypeDecl.walk_sublist {decl inner : TypeDecl} {path : List Nat}
    (hat : decl.at? path = some inner) :
    (Walk.typeDecl inner).Sublist (Walk.typeDecl decl) := by
  induction path generalizing decl with
  | nil =>
    obtain rfl : decl = inner := by simpa [TypeDecl.at?] using hat
    exact List.Sublist.refl _
  | cons index path ih =>
    rw [TypeDecl.at?] at hat
    split at hat
    next member hmember =>
      exact (ih hat).trans (Walk.member_sublist (List.mem_of_getElem? hmember))
    next => cases hat

theorem TypeDecl.walk_subset {decl inner : TypeDecl} {path : List Nat}
    (hat : decl.at? path = some inner) : Walk.typeDecl inner ⊆ Walk.typeDecl decl :=
  (walk_sublist hat).subset

/-- The nodes of a declaration of a unit are nodes of the unit, in their order. -/
theorem DeclaredType.walk_sublist {unit : CompilationUnit} {info : DeclaredType} {decl : TypeDecl}
    (hdecl : info.decl? unit = some decl) :
    (Walk.typeDecl decl).Sublist (Walk.unit unit) := by
  unfold DeclaredType.decl? at hdecl
  split at hdecl
  next => cases hdecl
  next first path _ =>
    obtain ⟨top, htop, hat⟩ := Option.bind_eq_some_iff.1 hdecl
    have hunit := (List.singleton_sublist.2 (List.mem_of_getElem? htop)).flatMap Walk.typeDecl
    rw [List.flatMap_singleton] at hunit
    exact (TypeDecl.walk_sublist hat).trans hunit

theorem DeclaredType.walk_subset {unit : CompilationUnit} {info : DeclaredType} {decl : TypeDecl}
    (hdecl : info.decl? unit = some decl) : Walk.typeDecl decl ⊆ Walk.unit unit :=
  (walk_sublist hdecl).subset

/-- **The declaration of a type** is written in the words of its unit. -/
theorem DeclaredType.writtenIn_decl? {unit : CompilationUnit} {info : DeclaredType}
    {decl : TypeDecl} (h : unit.WrittenIn words) (hdecl : info.decl? unit = some decl) :
    WrittenIn words (Walk.typeDecl decl) :=
  fun node hnode => h.nodes node (walk_subset hdecl hnode)

namespace DeclaredType

/-- What the declared type of one tree writes. -/
theorem namedIn_ofDecl {origin : Origin} {package qualified : String} {outer : Option String}
    {path : List Nat} {decl : TypeDecl} (h : WrittenIn words (Walk.typeDecl decl))
    (hname : Text.lastSegment qualified = decl.head.name.text) :
    (ofDecl origin package outer qualified path decl).NamedIn words words origin := by
  obtain ⟨head, members⟩ := decl
  have hmembers := TypeDecl.writtenIn_members h
  rw [Walk.typeDecl, List.cons_append, writtenIn_cons, writtenIn_append,
    writtenIn_map_typeRef] at h
  refine ⟨rfl, ?_, ?_, ?_, h.2.1⟩
  · show words (Text.lastSegment qualified)
    rw [hname]
    exact h.1
  · intro m hm
    obtain ⟨⟨method, body⟩, hmethod, rfl⟩ := List.mem_map.1 hm
    obtain ⟨member, hmember, hsome⟩ := List.mem_filterMap.1 hmethod
    split at hsome <;> cases hsome
    exact (writtenIn_cons.1 (writtenIn_member hmembers hmember)).1
  · intro f hf
    obtain ⟨⟨field, init⟩, hfield, rfl⟩ := List.mem_map.1 hf
    obtain ⟨member, hmember, hsome⟩ := List.mem_filterMap.1 hfield
    split at hsome <;> cases hsome
    exact (writtenIn_cons.1 (writtenIn_member hmembers hmember)).1

variable {origin : Origin} {package : String}

mutual

theorem of_mem_collectDecl (hwords : ∀ word, words word → '.' ∉ word.toList) :
    ∀ (decl : TypeDecl) {outer : Option String} {qualified : String} {path : List Nat}
      {info : DeclaredType}, WrittenIn words (Walk.typeDecl decl) →
      Text.lastSegment qualified = decl.head.name.text →
      info ∈ collectDecl origin package outer qualified path decl → info.NamedIn words words origin
  | ⟨head, members⟩, outer, qualified, path, info, h, hname, hinfo => by
    rw [collectDecl] at hinfo
    rcases List.mem_cons.1 hinfo with rfl | hinfo
    · exact namedIn_ofDecl h hname
    · exact of_mem_collectMembers hwords members (TypeDecl.writtenIn_members h) hinfo

theorem of_mem_collectMembers (hwords : ∀ word, words word → '.' ∉ word.toList) :
    ∀ (members : List Member) {outer : String} {path : List Nat} {index : Nat}
      {info : DeclaredType}, WrittenIn words (Walk.members members) →
      info ∈ collectMembers origin package outer path index members →
      info.NamedIn words words origin
  | [], _, _, _, _, _, hinfo => by
    rw [collectMembers] at hinfo
    cases hinfo
  | .type ⟨head, inner⟩ :: rest, outer, path, index, info, h, hinfo => by
    obtain ⟨hfirst, hrest⟩ := writtenIn_append.1 h
    rw [collectMembers] at hinfo
    rcases List.mem_append.1 hinfo with hinfo | hinfo
    · refine of_mem_collectDecl hwords ⟨head, inner⟩ hfirst ?_ hinfo
      exact Text.lastSegment_append outer (hwords _ (writtenIn_cons.1 hfirst).1)
    · exact of_mem_collectMembers hwords rest hrest hinfo
  | .field _ _ :: rest, _, _, _, _, h, hinfo => by
    rw [collectMembers] at hinfo
    exact of_mem_collectMembers hwords rest (writtenIn_append.1 h).2 hinfo
  | .method _ _ :: rest, _, _, _, _, h, hinfo => by
    rw [collectMembers] at hinfo
    exact of_mem_collectMembers hwords rest (writtenIn_append.1 h).2 hinfo
  | .initializer _ _ _ :: rest, _, _, _, _, h, hinfo => by
    rw [collectMembers] at hinfo
    exact of_mem_collectMembers hwords rest (writtenIn_append.1 h).2 hinfo

end

end DeclaredType

/-- **What a unit declares** is written in its words. -/
theorem of_mem_collectTypes {unit : CompilationUnit} {origin : Origin} {info : DeclaredType}
    (hwords : ∀ word, words word → '.' ∉ word.toList) (h : unit.WrittenIn words)
    (hinfo : info ∈ collectTypes unit origin) : info.NamedIn words words origin := by
  unfold collectTypes at hinfo
  obtain ⟨infos, hinfos, hinfo⟩ := List.mem_flatten.1 hinfo
  obtain ⟨⟨decl, index⟩, hdecl, rfl⟩ := List.mem_map.1 hinfos
  have hnodes := h.nodes
  rw [Walk.unit, writtenIn_flatMap] at hnodes
  have hwritten := hnodes decl (List.fst_mem_of_mem_zipIdx hdecl)
  refine DeclaredType.of_mem_collectDecl hwords decl hwritten ?_ hinfo
  obtain ⟨head, members⟩ := decl
  exact Text.lastSegment_qualify _ (hwords _ (writtenIn_cons.1 hwritten).1)

/-! ## Declarations in their trees -/

namespace DeclaredType

variable {origin : Origin} {package : String}

/-- A place among the members is one further on when there is one more before them. -/
theorem exists_at?_behind {first : Member} {rest : List Member} {path : List Nat} {index : Nat}
    {info : DeclaredType}
    (h : ∃ i decl below inner, rest[i]? = some (.type decl) ∧
      info.path = path ++ (index + 1 + i) :: below ∧ decl.at? below = some inner ∧
      info = ofDecl origin package info.outer info.qualifiedName info.path inner) :
    ∃ i decl below inner, (first :: rest)[i]? = some (.type decl) ∧
      info.path = path ++ (index + i) :: below ∧ decl.at? below = some inner ∧
      info = ofDecl origin package info.outer info.qualifiedName info.path inner := by
  obtain ⟨i, decl, below, inner, hdecl, hpath, hat, heq⟩ := h
  refine ⟨i + 1, decl, below, inner, hdecl, ?_, hat, heq⟩
  rw [hpath, Nat.add_assoc, Nat.add_comm 1 i]

mutual

theorem exists_at?_of_mem_collectDecl :
    ∀ (decl : TypeDecl) {outer : Option String} {qualified : String} {path : List Nat}
      {info : DeclaredType}, info ∈ collectDecl origin package outer qualified path decl →
      ∃ below inner, info.path = path ++ below ∧ decl.at? below = some inner ∧
        info = ofDecl origin package info.outer info.qualifiedName info.path inner
  | ⟨head, members⟩, outer, qualified, path, info, hinfo => by
    rw [collectDecl] at hinfo
    rcases List.mem_cons.1 hinfo with rfl | hinfo
    · exact ⟨[], ⟨head, members⟩, (List.append_nil path).symm, by rw [TypeDecl.at?], rfl⟩
    · obtain ⟨i, decl, below, inner, hdecl, hpath, hat, heq⟩ :=
        exists_at?_of_mem_collectMembers members hinfo
      rw [Nat.zero_add] at hpath
      refine ⟨i :: below, inner, hpath, ?_, heq⟩
      rw [TypeDecl.at?, hdecl]
      exact hat

theorem exists_at?_of_mem_collectMembers :
    ∀ (members : List Member) {outer : String} {path : List Nat} {index : Nat}
      {info : DeclaredType}, info ∈ collectMembers origin package outer path index members →
      ∃ i decl below inner, members[i]? = some (.type decl) ∧
        info.path = path ++ (index + i) :: below ∧ decl.at? below = some inner ∧
        info = ofDecl origin package info.outer info.qualifiedName info.path inner
  | [], _, _, _, _, hinfo => by
    rw [collectMembers] at hinfo
    cases hinfo
  | .type ⟨head, inner⟩ :: rest, outer, path, index, info, hinfo => by
    rw [collectMembers] at hinfo
    rcases List.mem_append.1 hinfo with hinfo | hinfo
    · obtain ⟨below, found, hpath, hat, heq⟩ := exists_at?_of_mem_collectDecl ⟨head, inner⟩ hinfo
      refine ⟨0, ⟨head, inner⟩, below, found, rfl, ?_, hat, heq⟩
      rw [hpath, List.append_assoc, Nat.add_zero]
      rfl
    · exact exists_at?_behind (exists_at?_of_mem_collectMembers rest hinfo)
  | .field _ _ :: rest, _, _, _, _, hinfo => by
    rw [collectMembers] at hinfo
    exact exists_at?_behind (exists_at?_of_mem_collectMembers rest hinfo)
  | .method _ _ :: rest, _, _, _, _, hinfo => by
    rw [collectMembers] at hinfo
    exact exists_at?_behind (exists_at?_of_mem_collectMembers rest hinfo)
  | .initializer _ _ _ :: rest, _, _, _, _, hinfo => by
    rw [collectMembers] at hinfo
    exact exists_at?_behind (exists_at?_of_mem_collectMembers rest hinfo)

end

end DeclaredType

/-- **A declared type of a unit** is that of the declaration at its path. -/
theorem DeclaredType.exists_decl? {unit : CompilationUnit} {origin : Origin} {info : DeclaredType}
    (hinfo : info ∈ collectTypes unit origin) :
    ∃ decl, info.decl? unit = some decl ∧
      info = ofDecl origin info.package info.outer info.qualifiedName info.path decl := by
  unfold collectTypes at hinfo
  obtain ⟨infos, hinfos, hinfo⟩ := List.mem_flatten.1 hinfo
  obtain ⟨⟨top, index⟩, htop, rfl⟩ := List.mem_map.1 hinfos
  obtain ⟨below, inner, hpath, hat, heq⟩ := exists_at?_of_mem_collectDecl top hinfo
  have hget : unit.types[index]? = some top := by
    simpa using List.mem_zipIdx_iff_getElem?.1 htop
  refine ⟨inner, ?_, ?_⟩
  · rw [DeclaredType.decl?, hpath]
    show unit.types[index]?.bind _ = _
    rw [hget]
    exact hat
  · have hpackage : info.package = ".".intercalate unit.packageSegments := by
      rw [heq]
      rfl
    rw [hpackage]
    exact heq

/-! ## Types under another origin -/

namespace DeclaredType

/-- The same declaration in another place. -/
def withOrigin (origin : Origin) (info : DeclaredType) : DeclaredType :=
  { info with key := ⟨origin, info.qualifiedName⟩ }

mutual

theorem collectDecl_withOrigin (origin origin' : Origin) (package : String)
    (outer : Option String) (qualified : String) (path : List Nat) : ∀ decl : TypeDecl,
    collectDecl origin' package outer qualified path decl =
      (collectDecl origin package outer qualified path decl).map (·.withOrigin origin')
  | ⟨head, members⟩ => by
    rw [collectDecl, collectDecl, List.map_cons,
      collectMembers_withOrigin origin origin' package qualified path 0 members]
    rfl

theorem collectMembers_withOrigin (origin origin' : Origin) (package : String) (outer : String)
    (path : List Nat) (index : Nat) : ∀ members : List Member,
    collectMembers origin' package outer path index members =
      (collectMembers origin package outer path index members).map (·.withOrigin origin')
  | [] => rfl
  | .type ⟨head, members⟩ :: rest => by
    rw [collectMembers, collectMembers, List.map_append,
      collectDecl_withOrigin origin origin' package _ _ _ ⟨head, members⟩,
      collectMembers_withOrigin origin origin' package outer path (index + 1) rest]
  | .field _ _ :: rest =>
    collectMembers_withOrigin origin origin' package outer path (index + 1) rest
  | .method _ _ :: rest =>
    collectMembers_withOrigin origin origin' package outer path (index + 1) rest
  | .initializer _ _ _ :: rest =>
    collectMembers_withOrigin origin origin' package outer path (index + 1) rest

end

end DeclaredType

/-- **The types of a unit** differ in nothing but their origin wherever the unit stands. -/
theorem collectTypes_withOrigin (unit : CompilationUnit) (origin origin' : Origin) :
    collectTypes unit origin' = (collectTypes unit origin).map (·.withOrigin origin') := by
  simp only [collectTypes, List.map_flatten, List.map_map]
  congr 2
  funext decl
  exact DeclaredType.collectDecl_withOrigin origin origin' _ _ _ _ _

/-- A type of a unit is one of its types wherever the unit stands. -/
theorem mem_collectTypes_withOrigin {unit : CompilationUnit} {origin : Origin} (origin' : Origin)
    {info : DeclaredType} (hinfo : info ∈ collectTypes unit origin) :
    info.withOrigin origin' ∈ collectTypes unit origin' := by
  rw [collectTypes_withOrigin unit origin origin']
  exact List.mem_map_of_mem hinfo

theorem origin_of_mem_collectTypes {unit : CompilationUnit} {origin : Origin}
    {info : DeclaredType} (hinfo : info ∈ collectTypes unit origin) : info.key.origin = origin := by
  rw [collectTypes_withOrigin unit origin origin] at hinfo
  obtain ⟨plain, -, rfl⟩ := List.mem_map.1 hinfo
  rfl

/-! ## Types of an archive -/

namespace Qualification

/-- The segments of a qualified type have no dots if those of the written type have none. -/
theorem writtenIn_typeRef {site : Site} {ref : TypeRef}
    (h : ref.WrittenIn fun word => '.' ∉ word.toList) :
    (typeRef site ref).WrittenIn fun word => '.' ∉ word.toList := by
  unfold typeRef
  split
  · exact h
  next hprimitive =>
    split
    next => exact h
    next first rest hsegments =>
      split
      next qualified _ =>
        right
        refine ⟨?_, ?_⟩
        · have hne := Text.splitAtChar_ne_nil '.' qualified.toList
          simp [Text.split, hne]
        · intro segment hmem
          rcases List.mem_append.1 hmem with hmem | hmem
          · exact Text.not_mem_of_mem_split hmem
          · rcases h with ⟨p, hp⟩ | ⟨-, hall⟩
            · rw [hp, List.cons.injEq] at hsegments
              rw [← hsegments.2] at hmem
              cases hmem
            · exact hall segment (hsegments ▸ List.mem_cons_of_mem _ hmem)
      next => exact h

/-- Qualification changes no names of types and members. -/
theorem namedIn_declaredType {imports : List ImportDecl} {declared : List String}
    {origin : Origin} {info : DeclaredType}
    (h : info.NamedIn words (fun word => '.' ∉ word.toList) origin) :
    (declaredType imports declared info).NamedIn words (fun word => '.' ∉ word.toList) origin := by
  refine ⟨h.origin_eq, h.name, ?_, ?_, ?_⟩
  · intro m hm
    obtain ⟨plain, hplain, rfl⟩ := List.mem_map.1 hm
    exact h.methods plain hplain
  · intro f hf
    obtain ⟨plain, hplain, rfl⟩ := List.mem_map.1 hf
    exact h.fields plain hplain
  · intro ref href
    have hplain : ∃ plain ∈ info.superclass.toList ++ info.interfaces,
        ∃ site, typeRef site plain = ref := by
      rcases List.mem_append.1 href with href | href
      · obtain ⟨plain, hplain, rfl⟩ := Option.map_eq_some_iff.1 (Option.mem_toList.1 href)
        exact ⟨plain, List.mem_append_left _ (Option.mem_toList.2 hplain), _, rfl⟩
      · obtain ⟨plain, hplain, rfl⟩ := List.mem_map.1 href
        exact ⟨plain, List.mem_append_right _ hplain, _, rfl⟩
    obtain ⟨plain, hmem, site, rfl⟩ := hplain
    exact writtenIn_typeRef (h.heads plain hmem)

end Qualification

theorem DeclaredType.NamedIn.imp {headWords words' headWords' : String → Prop} {origin : Origin}
    {info : DeclaredType} (h : info.NamedIn words headWords origin)
    (himp : ∀ word, words word → words' word)
    (hheads : ∀ word, headWords word → headWords' word) : info.NamedIn words' headWords' origin :=
  ⟨h.origin_eq, himp _ h.name, fun m hm => himp _ (h.methods m hm),
    fun f hf => himp _ (h.fields f hf), fun ref href => (h.heads ref href).imp hheads⟩

/-- **What a text declares** is named by words of the text. -/
theorem of_mem_collectTypes_parse {text : String} {unit : CompilationUnit} {origin : Origin}
    {info : DeclaredType} (h : parse text = .ok unit) (hinfo : info ∈ collectTypes unit origin) :
    info.NamedIn (· ∈ WordIndex.wordsOfText text) (· ∈ WordIndex.wordsOfText text) origin :=
  of_mem_collectTypes (fun _ hword => (isWord_of_mem_wordsOfText hword).no_dot) (parse_written h)
    hinfo

/-- **What an archive declares** is named by words, and the segments of the supertypes that it
records have no dots. -/
theorem of_mem_ofUnits {id : ArchiveId} {path : String} {units : List CompilationUnit}
    {module : Option ModuleDescription} {info : DeclaredType}
    (hunits : ∀ unit ∈ units, ∃ text, parse text = .ok unit)
    (hinfo : info ∈ (Archive.ofUnits id path units module).types) :
    info.NamedIn IsWord (fun word => '.' ∉ word.toList) (.archive id) := by
  obtain ⟨⟨imports, infos⟩, hcollected, hinfo⟩ := List.mem_flatMap.1 hinfo
  obtain ⟨plain, hplain, rfl⟩ := List.mem_map.1 hinfo
  obtain ⟨unit, hunit, heq⟩ := List.mem_map.1 hcollected
  obtain ⟨rfl, rfl⟩ := Prod.mk.inj heq
  obtain ⟨text, hparse⟩ := hunits unit hunit
  apply Qualification.namedIn_declaredType
  exact (of_mem_collectTypes_parse hparse hplain).imp (fun _ => isWord_of_mem_wordsOfText)
    fun _ hword => (isWord_of_mem_wordsOfText hword).no_dot

/-! ## Types of a workspace -/

namespace Workspace

variable {ws : Workspace}

/-- A parsed file is made of its own text and has the number under which it is found. -/
theorem FilesInStep.source_eq (h : ws.FilesInStep) {file : FileId} {source : SourceFile}
    (hsource : ws.source? file = some source) :
    source = .ofText file source.project source.path source.text := by
  obtain ⟨name, path, text, -, -, -, rfl⟩ := h.source_iff.1 hsource
  rfl

theorem FilesInStep.source_id (h : ws.FilesInStep) {file : FileId} {source : SourceFile}
    (hsource : ws.source? file = some source) : source.id = file := by
  rw [h.source_eq hsource]
  rfl

/-- The project that a parsed file shows exists. -/
theorem FilesInStep.exists_project (h : ws.FilesInStep) {file : FileId} {source : SourceFile}
    (hsource : ws.source? file = some source) :
    ∃ project, ws.project? source.project = some project := by
  obtain ⟨name, path, text, hat, -, -, rfl⟩ := h.source_iff.1 hsource
  obtain ⟨project, hproject, -⟩ := Option.bind_eq_some_iff.1 hat
  exact ⟨project, hproject⟩

/-- A parsed file is a unit of the project that it shows. -/
theorem FilesInStep.exists_mem_parsedUnits (h : ws.FilesInStep) {file : FileId}
    {source : SourceFile} (hsource : ws.source? file = some source) :
    ∃ project, ws.project? source.project = some project ∧
      source ∈ project.parsedUnits ws.sources := by
  obtain ⟨project, hproject⟩ := h.exists_project hsource
  refine ⟨project, hproject, (h.mem_parsedUnits_iff hproject).2 ⟨?_, rfl⟩⟩
  rw [h.source_id hsource]
  exact hsource

/-- The tree of a parsed file was read from its text. -/
theorem FilesInStep.unit_readIn (h : ws.FilesInStep) {file : FileId} {source : SourceFile}
    (hsource : ws.source? file = some source) {unit : CompilationUnit}
    (hunit : source.unit? = some unit) :
    ∃ border hi, unit.ReadIn source.text border hi := by
  rw [h.source_eq hsource] at hunit
  exact parse_readIn (SourceFile.parse_of_unit? hunit)

/-- The tree of a parsed file is written in the words of its text. -/
theorem FilesInStep.unit_written (h : ws.FilesInStep) {file : FileId} {source : SourceFile}
    (hsource : ws.source? file = some source) {unit : CompilationUnit}
    (hunit : source.unit? = some unit) :
    unit.WrittenIn (· ∈ WordIndex.wordsOfText source.text) := by
  obtain ⟨border, hi, hread⟩ := h.unit_readIn hsource hunit
  exact hread.writtenIn

/-- The types of a parsed file are those of its tree. -/
theorem FilesInStep.types_eq (h : ws.FilesInStep) {file : FileId} {source : SourceFile}
    (hsource : ws.source? file = some source) {unit : CompilationUnit}
    (hunit : source.unit? = some unit) : source.types = collectTypes unit (.source file) := by
  rw [h.source_eq hsource] at hunit ⊢
  simp only [SourceFile.ofText, SourceFile.parse_of_unit? hunit]

/-- What a parsed file declares is named by words of its text. -/
theorem FilesInStep.namedIn_source (h : ws.FilesInStep) {file : FileId} {source : SourceFile}
    (hsource : ws.source? file = some source) {info : DeclaredType} (hinfo : info ∈ source.types) :
    info.NamedIn (· ∈ WordIndex.wordsOfText source.text) (· ∈ WordIndex.wordsOfText source.text)
      (.source file) := by
  have heq := congrArg SourceFile.types (h.source_eq hsource)
  rw [heq] at hinfo
  simp only [SourceFile.ofText] at hinfo
  split at hinfo
  next unit hparse => exact of_mem_collectTypes_parse hparse hinfo
  next => cases hinfo

/-- A file that declares a type has a tree. -/
theorem FilesInStep.exists_unit (h : ws.FilesInStep) {file : FileId} {source : SourceFile}
    (hsource : ws.source? file = some source) {info : DeclaredType} (hinfo : info ∈ source.types) :
    ∃ unit, source.unit? = some unit := by
  rw [h.source_eq hsource] at hinfo ⊢
  simp only [SourceFile.ofText] at hinfo
  split at hinfo
  next unit hparse => exact ⟨unit, by rw [SourceFile.unit?, SourceFile.ofText, hparse]⟩
  next => cases hinfo

/-- What a parsed file declares is declared in its tree. -/
theorem FilesInStep.exists_decl? (h : ws.FilesInStep) {file : FileId} {source : SourceFile}
    (hsource : ws.source? file = some source) {unit : CompilationUnit}
    (hunit : source.unit? = some unit) {info : DeclaredType} (hinfo : info ∈ source.types) :
    ∃ decl, info.decl? unit = some decl ∧
      info = .ofDecl (.source file) info.package info.outer info.qualifiedName info.path decl := by
  rw [h.types_eq hsource hunit] at hinfo
  exact DeclaredType.exists_decl? hinfo

theorem mem_entries_of_archive? {id : ArchiveId} {archive : Archive}
    (harchive : ws.archive? id = some archive) :
    archive.id = id ∧ ∃ path, (path, archive) ∈ ws.archives.entries := by
  refine ⟨by simpa using List.find?_some harchive, ?_⟩
  obtain ⟨⟨path, found⟩, hmem, rfl⟩ := List.mem_map.1 (List.mem_of_find?_eq_some harchive)
  exact ⟨path, hmem⟩

/-- What a registered archive declares is named by words. -/
theorem ArchivesInStep.namedIn_archive (h : ws.ArchivesInStep) {path : String} {archive : Archive}
    (hmem : (path, archive) ∈ ws.archives.entries) {info : DeclaredType}
    (hinfo : info ∈ archive.types) :
    info.NamedIn IsWord (fun word => '.' ∉ word.toList) (.archive archive.id) := by
  obtain ⟨units, hunits, heq⟩ := h.archive_compiled hmem
  rw [heq] at hinfo
  exact of_mem_ofUnits hunits hinfo

/-- **A declared type** is the one that was asked for, and it is named by words. -/
theorem InStep.of_declared? (h : ws.InStep) {key : TypeKey} {info : DeclaredType}
    (hinfo : ws.declared? key = some info) :
    info.key = key ∧ info.NamedIn IsWord (fun word => '.' ∉ word.toList) key.origin := by
  obtain ⟨origin, qualifiedName⟩ := key
  cases origin with
  | source file =>
    obtain ⟨source, hsource, hfound⟩ := Option.bind_eq_some_iff.1 hinfo
    have hnamed := h.files.namedIn_source hsource (List.mem_of_find?_eq_some hfound)
    have hname : info.key.qualifiedName = qualifiedName := by
      simpa using List.find?_some hfound
    refine ⟨?_, hnamed.imp (fun _ => isWord_of_mem_wordsOfText)
      fun _ hword => (isWord_of_mem_wordsOfText hword).no_dot⟩
    rw [← hname, ← hnamed.origin_eq]
  | archive id =>
    obtain ⟨archive, harchive, hfound⟩ := Option.bind_eq_some_iff.1 hinfo
    obtain ⟨rfl, path, hmem⟩ := mem_entries_of_archive? harchive
    have hnamed := h.archives.namedIn_archive hmem (List.mem_of_find?_eq_some hfound)
    have hname : info.key.qualifiedName = qualifiedName := by
      simpa using List.find?_some hfound
    refine ⟨?_, hnamed⟩
    rw [← hname, ← hnamed.origin_eq]

end Workspace

end SourceSearch
