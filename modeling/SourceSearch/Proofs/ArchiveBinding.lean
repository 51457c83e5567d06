import SourceSearch.Proofs.QualifiedNames

/-!
# Types that an archive binds

The same units can be compiled into an archive (`Workspace.HasCompiled`) and be stored in a project
(`Workspace.HoldsAlone`). The types that they write are then bound twice: by the archive, through
the qualified names that it records, and by the project, where they stand.

The archive binds a type like the project iff the type's name is what it reads as by names alone in
the body of its declaration (`typeOfPartRef?_stub_iff_readByNames`). So an inherited member type makes
a difference, and so does a supertype that is named like a member of the class
(`archive_reads_head_in_body`): the project binds it where the head stands, the archive in the body.
-/

set_option autoImplicit false

namespace SourceSearch

/-! ## Parts of a declaration -/

/-- The parts of a declaration that write types. -/
inductive DeclPart
  | head
  | members
  deriving DecidableEq, Repr

/-- The types that a part of a declaration writes: the supertypes, or the parameters, results and
fields. -/
def DeclaredType.refs (info : DeclaredType) : DeclPart → List TypeRef
  | .head => info.superclass.toList ++ info.interfaces
  | .members =>
    (info.methods.flatMap fun m => m.params ++ m.returnType.toList) ++ info.fields.map (·.type)

/-- The type that is named in a part of a declaration. -/
def BoundWorkspace.typeOfPartRef? (s : BoundWorkspace) (info : DeclaredType) (part : DeclPart)
    (ref : TypeRef) : Option TypeKey :=
  match part with
  | .head => s.typeOfHeadRef? info info.key ref
  | .members => s.typeOfMemberRef? info.key ref

namespace Archive

/-- The names of the types. -/
def names (archive : Archive) : List String := archive.types.map (·.key.qualifiedName)

/-- Where a declaration of a unit stands when the archive is compiled. -/
def siteOf (archive : Archive) (unit : CompilationUnit) (info : DeclaredType) :
    Qualification.Site :=
  ⟨unit.imports, archive.names, info.qualifiedName, info.package⟩

/-- What the archive records of a declaration of a unit. -/
def stubOf (archive : Archive) (unit : CompilationUnit) (info : DeclaredType) : DeclaredType :=
  Qualification.declaredType unit.imports archive.names (info.withOrigin (.archive archive.id))

/-- The archive records the types of a declaration one by one. -/
theorem refs_stubOf (archive : Archive) (unit : CompilationUnit) (info : DeclaredType)
    (part : DeclPart) : (archive.stubOf unit info).refs part =
      (info.refs part).map (Qualification.typeRef (archive.siteOf unit info)) := by
  have hoption : ∀ ref : Option TypeRef,
      (ref.map (Qualification.typeRef (archive.siteOf unit info))).toList =
        ref.toList.map (Qualification.typeRef (archive.siteOf unit info)) := by
    intro ref
    cases ref <;> rfl
  cases part with
  | head =>
    simp only [DeclaredType.refs, List.map_append, ← hoption]
    rfl
  | members =>
    simp only [DeclaredType.refs, List.map_append, List.map_flatMap, ← hoption, List.map_map]
    show (info.methods.map (Qualification.method (archive.siteOf unit info))).flatMap _ ++
      (info.fields.map fun f =>
        { f with type := Qualification.typeRef (archive.siteOf unit info) f.type }).map (·.type) = _
    rw [List.flatMap_map, List.map_map]
    rfl

/-- What a compiled archive records of its units. -/
theorem stubOf_mem {archive : Archive} {units : List CompilationUnit}
    (hcompiled : archive = .ofUnits archive.id archive.path units archive.module)
    {unit : CompilationUnit} (hunit : unit ∈ units) {origin : Origin} {info : DeclaredType}
    (hinfo : info ∈ collectTypes unit origin) : archive.stubOf unit info ∈ archive.types := by
  have htypes := congrArg types hcompiled
  rw [htypes]
  refine List.mem_flatMap.2 ⟨_, List.mem_map_of_mem hunit, ?_⟩
  have hnames : archive.names = ((units.map fun unit =>
      (unit.imports, collectTypes unit (.archive archive.id))).flatMap (·.2)).map
        (·.key.qualifiedName) := by
    rw [names, htypes, ofUnits, List.map_flatMap, List.map_flatMap]
    simp only [List.map_map]
    rfl
  rw [stubOf, hnames]
  exact List.mem_map_of_mem (mem_collectTypes_withOrigin _ hinfo)

/-- **The names of a compiled archive** are those of the types of its units. -/
theorem mem_names_iff {archive : Archive} {units : List CompilationUnit}
    (hcompiled : archive = .ofUnits archive.id archive.path units archive.module)
    {name : String} : name ∈ archive.names ↔ ∃ unit ∈ units,
      ∃ info ∈ collectTypes unit (.archive archive.id), info.qualifiedName = name := by
  constructor
  · intro hname
    obtain ⟨info, hinfo, rfl⟩ := List.mem_map.1 hname
    rw [hcompiled] at hinfo
    obtain ⟨unit, hunit, plain, hplain, hkey, -⟩ := exists_unit_of_mem_ofUnits hinfo
    exact ⟨unit, hunit, plain, hplain, congrArg TypeKey.qualifiedName hkey⟩
  · rintro ⟨unit, hunit, info, hinfo, rfl⟩
    exact List.mem_map.2 ⟨_, stubOf_mem hcompiled hunit hinfo, rfl⟩

end Archive

/-! ## The same units in an archive and in a project -/

variable {ws : Workspace} {s : BoundWorkspace}

/-- A project that is in no module and has nothing on its classpath holds the units and no
others. -/
structure Workspace.HoldsAlone (ws : Workspace) (project : Project)
    (units : List CompilationUnit) : Prop where
  project_eq : ws.project? project.name = some project
  classpath_eq : project.classpath = []
  module_eq : project.module = none
  mem_units_iff : ∀ unit, unit ∈ units ↔
    ∃ file ∈ project.parsedUnits ws.sources, file.unit? = some unit

/-- A registered archive was compiled from the units. -/
structure Workspace.HasCompiled (ws : Workspace) (archive : Archive)
    (units : List CompilationUnit) : Prop where
  registered : archive ∈ ws.archives.values
  compiled : archive = .ofUnits archive.id archive.path units archive.module

/-- The project declares the types that the archive declares. -/
theorem Workspace.HoldsAlone.declaresAlone {project : Project} {units : List CompilationUnit}
    {archive : Archive} (h : ws.HoldsAlone project units) (hws : ws.InStep)
    (hcompiled : archive = .ofUnits archive.id archive.path units archive.module) :
    ws.DeclaresAlone project archive.names where
  project_eq := h.project_eq
  classpath_eq := h.classpath_eq
  module_eq := h.module_eq
  mem_names_iff := by
    have hsource : ∀ {file : SourceFile}, file ∈ project.parsedUnits ws.sources →
        ws.source? file.id = some file :=
      fun hfile => ((hws.files.mem_parsedUnits_iff h.project_eq).1 hfile).1
    intro name
    rw [Archive.mem_names_iff hcompiled]
    constructor
    · rintro ⟨unit, hunit, info, hinfo, rfl⟩
      obtain ⟨file, hfile, hparsed⟩ := (h.mem_units_iff unit).1 hunit
      refine ⟨file, hfile, info.withOrigin (.source file.id), ?_, rfl⟩
      rw [hws.files.types_eq (hsource hfile) hparsed]
      exact mem_collectTypes_withOrigin _ hinfo
    · rintro ⟨file, hfile, info, hinfo, rfl⟩
      obtain ⟨unit, hunit⟩ := hws.files.exists_unit (hsource hfile) hinfo
      rw [hws.files.types_eq (hsource hfile) hunit] at hinfo
      exact ⟨unit, (h.mem_units_iff unit).2 ⟨file, hfile, hunit⟩,
        info.withOrigin (.archive archive.id), mem_collectTypes_withOrigin _ hinfo, rfl⟩

/-- **Units that parse** are compiled into an archive at a path that is not taken. -/
theorem Workspace.hasCompiled_after_registerArchive {path : String}
    {sources : List (String × String)} {units : List CompilationUnit}
    {module : Option ModuleDescription} (hnew : ws.archives.contains path = false)
    (hparse : List.Forall₂ (fun source unit => parse source.2 = .ok unit) sources units) :
    (ws.after (.registerArchive path sources module)).HasCompiled
      (.ofUnits ⟨ws.ids.nextArchive⟩ path units module) units := by
  have hsources : Archive.ofSources ⟨ws.ids.nextArchive⟩ path sources module =
      .ok (.ofUnits ⟨ws.ids.nextArchive⟩ path units module) := by
    unfold Archive.ofSources
    refine bind_eq_ok_iff.2 ⟨units, ?_, rfl⟩
    induction hparse with
    | nil => rfl
    | cons hfirst _ ih =>
      rw [List.mapM_cons, ih]
      simp only [hfirst]
      rfl
  refine ⟨?_, rfl⟩
  have hafter : (ws.after (.registerArchive path sources module)).archives =
      ws.archives.insert path (.ofUnits ⟨ws.ids.nextArchive⟩ path units module) := by
    simp only [Workspace.after, Workspace.apply, Workspace.registerArchive, hnew, IdSupply.archive,
      hsources]
    rfl
  rw [hafter, Register.values, Register.entries_insert_of_not_contains hnew]
  simp

/-- The word of a primitive type is no other word. -/
theorem TypeRef.not_isWord_of_isPrimitive {ref : TypeRef} (h : ref.isPrimitive = true) :
    ¬IsWord (Text.lastSegment ref.dotted) := by
  intro hword
  unfold isPrimitive at h
  split at h
  next name hsegments =>
    obtain ⟨p, hp⟩ := Option.isSome_iff_exists.1 h
    have hspelling : p.spelling = name := by
      have hfound := List.find?_some hp
      exact beq_iff_eq.1 hfound
    have hlast : Text.lastSegment p.spelling = p.spelling := by
      cases p <;> decide
    rw [dotted, hsegments, String.intercalate_singleton, ← hspelling, hlast] at hword
    have hreserved := hword.not_reserved
    rw [p.ofReserved?_spelling] at hreserved
    cases hreserved
  next => cases h

section Bound

variable {archive : Archive} (hover : s.IsOver ws) (hws : ws.InStep)
  (hregistered : archive ∈ ws.archives.values) {qualifiedName : String}
  (hqualified : qualifiedName ∈ archive.names)

include hws hregistered hqualified

/-- A name of an archive ends in a word. -/
theorem Archive.isWord_of_mem_names : IsWord (Text.lastSegment qualifiedName) := by
  obtain ⟨⟨path, archive⟩, hentry, rfl⟩ := List.mem_map.1 hregistered
  obtain ⟨info, hinfo, rfl⟩ := List.mem_map.1 hqualified
  exact (hws.archives.namedIn_archive hentry hinfo).name

include hover

/-- An archive binds a name of its own to its own type, and no other name. -/
theorem binaryType?_eq_iff {name : String} :
    s.binaryType? archive.id name = some ⟨.archive archive.id, qualifiedName⟩ ↔
      name = qualifiedName := by
  constructor
  · intro hbound
    exact (BoundWorkspace.qualifiedName_of_binaryType? hbound).symm
  · rintro rfl
    obtain ⟨⟨path, archive⟩, hentry, rfl⟩ := List.mem_map.1 hregistered
    obtain ⟨info, hinfo, rfl⟩ := List.mem_map.1 hqualified
    have hlisted : (archive.declared? info.key.qualifiedName).isSome :=
      List.find?_isSome.2 ⟨info, hinfo, beq_self_eq_true _⟩
    obtain ⟨found, hfound⟩ := Option.isSome_iff_exists.1 hlisted
    have hkey : found.key = ⟨.archive archive.id, info.key.qualifiedName⟩ := by
      have hname := List.find?_some hfound
      rw [← beq_iff_eq.1 hname, ← (hws.archives.namedIn_archive hentry
        (List.mem_of_find?_eq_some hfound)).origin_eq]
    rw [BoundWorkspace.binaryType?, hover.workspace, hws.archives.archive?_id hregistered,
      Option.bind_some, Archive.lookup?, hfound, Option.map_some, hkey]
    rfl

/-- **What an archive binds** in either part of a declaration: a written type stands for a type of
the archive iff it is written by its qualified name. -/
theorem typeOfPartRef?_stubOf_eq_iff {unit : CompilationUnit} {info : DeclaredType}
    {part : DeclPart} {ref : TypeRef} :
    s.typeOfPartRef? (archive.stubOf unit info) part ref =
        some ⟨.archive archive.id, qualifiedName⟩ ↔ ref.dotted = qualifiedName := by
  rw [← binaryType?_eq_iff hover hws hregistered hqualified]
  cases part with
  | head => rfl
  | members =>
    show (if ref.isPrimitive then none else s.binaryType? archive.id ref.dotted) = _ ↔ _
    split
    next hprimitive =>
      have hword := Archive.isWord_of_mem_names hws hregistered hqualified
      rw [binaryType?_eq_iff hover hws hregistered hqualified]
      constructor
      · intro hnone
        cases hnone
      · intro hname
        exact absurd (hname ▸ hword) (TypeRef.not_isWord_of_isPrimitive hprimitive)
    next => rfl

end Bound

namespace BoundWorkspace

/-- A written type that is bound where a declaration of a file stands is not primitive. -/
theorem isPrimitive_eq_false_of_typeOfPartRef? {info : DeclaredType} {file : FileId}
    (horigin : info.key.origin = .source file) {part : DeclPart} {ref : TypeRef} {key : TypeKey}
    (hkey : s.typeOfPartRef? info part ref = some key) : ref.isPrimitive = false := by
  have hplace : ∀ scope : NameScope, s.typeOfRef? scope ref = some key →
      ref.isPrimitive = false := by
    intro scope hbound
    unfold typeOfRef? at hbound
    split at hbound
    next => cases hbound
    next hprimitive => simpa using hprimitive
  cases part with
  | head =>
    have hbound : s.typeOfHeadRef? info info.key ref = some key := hkey
    unfold typeOfHeadRef? at hbound
    rw [horigin] at hbound
    obtain ⟨source, -, hbound⟩ := Option.bind_eq_some_iff.1 hbound
    obtain ⟨scope, -, hbound⟩ := Option.bind_eq_some_iff.1 hbound
    exact hplace scope hbound
  | members =>
    have hbound : s.typeOfMemberRef? info.key ref = some key := hkey
    unfold typeOfMemberRef? at hbound
    split at hbound
    next => cases hbound
    next hprimitive => simpa using hprimitive

end BoundWorkspace

open Workspace BoundWorkspace in
/-- **An archive binds a written type like the project** that holds the same units iff the type's
name is what it reads as by names alone in the body of the declaration. Where nothing is obscured,
that is what it reads as there if types do not inherit. So what an inherited member type or the place
of the head decides in the project goes another way in the archive. -/
theorem typeOfPartRef?_stub_iff_readByNames (edits edits' : List Edit) {project : Project}
    {units : List CompilationUnit} {archive : Archive}
    (hholds : (initial.afterAll edits).HoldsAlone project units)
    (harchive : (initial.afterAll edits').HasCompiled archive units) {file : SourceFile}
    (hfile : file ∈ project.parsedUnits (initial.afterAll edits).sources) {unit : CompilationUnit}
    (hunit : file.unit? = some unit) {info : DeclaredType} (hinfo : info ∈ file.types)
    {part : DeclPart} {ref : TypeRef} (href : ref ∈ info.refs part) {key : TypeKey}
    (hkey : (ofWorkspace (initial.afterAll edits)).typeOfPartRef? info part ref = some key)
    (hname : key.qualifiedName ∈ archive.names) :
    ∃ scope, (ofWorkspace (initial.afterAll edits)).declarationScope? info.key = some scope ∧
      archive.stubOf unit info ∈ archive.types ∧
      Qualification.typeRef (archive.siteOf unit info) ref ∈ (archive.stubOf unit info).refs part ∧
      ((ofWorkspace (initial.afterAll edits')).typeOfPartRef? (archive.stubOf unit info) part
          (Qualification.typeRef (archive.siteOf unit info) ref) =
            some ⟨.archive archive.id, key.qualifiedName⟩ ↔
        (ofWorkspace (initial.afterAll edits)).readByNames scope ref = key.qualifiedName) ∧
      ((∀ name ∈ ref.segments.head?,
          ∀ around ∈ (ofWorkspace (initial.afterAll edits)).enclosingChain (some info.key),
            (ofWorkspace (initial.afterAll edits)).Unobscured archive.names name around) →
        (ofWorkspace (initial.afterAll edits)).readByNames scope ref =
          (ofWorkspace (initial.afterAll edits)).withoutInheritance.readName scope ref) := by
  have hws := inStep_afterAll edits
  have hover := isOver_ofWorkspace (initial.afterAll edits)
  have halone := hholds.declaresAlone hws harchive.compiled
  have hsource := source?_of_mem_parsedUnits hws halone hfile
  have hsame := key_eq_of_mem_types hws halone hfile hinfo
  refine ⟨⟨file, unit, .ofProject (initial.afterAll edits) project, some info.key⟩,
    ?_, ?_, ?_, ?_, ?_⟩
  · exact declarationScope?_eq hover hws halone hfile hunit hinfo
  · have hlisted := hws.files.types_eq hsource hunit ▸ hinfo
    exact Archive.stubOf_mem harchive.compiled
      ((hholds.mem_units_iff unit).2 ⟨file, hfile, hunit⟩) hlisted
  · rw [Archive.refs_stubOf]
    exact List.mem_map_of_mem href
  · have hprimitive := isPrimitive_eq_false_of_typeOfPartRef? (congrArg TypeKey.origin hsame) hkey
    rw [typeOfPartRef?_stubOf_eq_iff (isOver_ofWorkspace _) (inStep_afterAll edits')
      harchive.registered hname]
    rw [Archive.siteOf, dotted_typeRef hover hws halone hfile hunit hinfo hprimitive]
  · exact readByNames_eq hover hws halone hfile hunit hinfo (chainLimit_pos _)

/-- A class whose supertype is named like a member of the class. -/
def shadowedHeadText : String := "class I \x7b\x7d class A extends I \x7b class I \x7b\x7d \x7d"

/-- A project with the class. -/
def shadowedHeadProject : List Edit :=
  [.createProject ⟨"P", [""], [], none⟩, .createFile "/P/X.java" shadowedHeadText]

/-- An archive with the class. -/
def shadowedHeadArchive : List Edit :=
  [.registerArchive "/x.jar" [("X.java", shadowedHeadText)] none]

open Workspace BoundWorkspace in
/-- **A supertype that is named like a member** of the class is bound where the head stands in the
project, and to the member in the archive. -/
theorem archive_reads_head_in_body :
    ∃ project units archive file unit info ref,
      (initial.afterAll shadowedHeadProject).HoldsAlone project units ∧
      (initial.afterAll shadowedHeadArchive).HasCompiled archive units ∧
      file ∈ project.parsedUnits (initial.afterAll shadowedHeadProject).sources ∧
      file.unit? = some unit ∧ info ∈ file.types ∧ ref ∈ info.refs .head ∧
      (ofWorkspace (initial.afterAll shadowedHeadProject)).typeOfPartRef? info .head ref =
        some ⟨.source ⟨0⟩, "I"⟩ ∧
      "I" ∈ archive.names ∧
      (ofWorkspace (initial.afterAll shadowedHeadArchive)).typeOfPartRef?
        (archive.stubOf unit info) .head (Qualification.typeRef (archive.siteOf unit info) ref) ≠
          some ⟨.archive archive.id, "I"⟩ := by
  have h := inStep_afterAll shadowedHeadProject
  -- what the text comes to is computed; how the archive binds is told by the theorem
  have hfacts : (parse shadowedHeadText).toOption.any (fun unit =>
      (Archive.ofUnits ⟨1⟩ "/x.jar" [unit] none).names == ["I", "A", "A.I"] &&
      (collectTypes unit (.source ⟨0⟩)).any fun info => info.superclass.any fun ref =>
        info.key == ⟨.source ⟨0⟩, "A"⟩ && ref.segments == ["I"] &&
        (ofWorkspace (initial.afterAll shadowedHeadProject)).typeOfPartRef? info .head ref ==
          some ⟨.source ⟨0⟩, "I"⟩) = true := by
    decide +kernel
  have hdeclared : ((ofWorkspace (initial.afterAll shadowedHeadProject)).declared?
      ⟨.source ⟨0⟩, "A.I"⟩).isSome = true := by
    decide +kernel
  have hchain : (ofWorkspace (initial.afterAll shadowedHeadProject)).enclosingChain
      (some ⟨.source ⟨0⟩, "A"⟩) = [⟨.source ⟨0⟩, "A"⟩] := by
    decide +kernel
  obtain ⟨project, hproject, hview⟩ : ∃ project,
      (initial.afterAll shadowedHeadProject).project? "P" = some project ∧
      (project.name == "P" && project.classpath == [] && project.module == none &&
        (project.parsedUnits (initial.afterAll shadowedHeadProject).sources).map (fun file =>
          (file.id, file.text)) == [(⟨0⟩, shadowedHeadText)]) = true :=
    (Option.any_eq_true _ _).1 (by decide +kernel)
  generalize hws : initial.afterAll shadowedHeadProject = ws at *
  simp only [Bool.and_eq_true, beq_iff_eq] at hview
  obtain ⟨⟨⟨hname, hclasspath⟩, hmodule⟩, hunits⟩ := hview
  obtain ⟨file, hfiles, hview⟩ := List.map_eq_singleton_iff.1 hunits
  obtain ⟨hid, htext⟩ := Prod.mk.inj hview
  have hfile : file ∈ project.parsedUnits ws.sources := hfiles ▸ List.mem_singleton_self file
  have hsource : ws.source? ⟨0⟩ = some file := by
    have hmem := (h.files.mem_parsedUnits_iff hproject).1 hfile
    rw [hid] at hmem
    exact hmem.1
  obtain ⟨unit, hunit, hfacts⟩ := (Option.any_eq_true _ _).1 hfacts
  have hparse : parse shadowedHeadText = .ok unit := by
    cases hresult : parse shadowedHeadText with
    | error e =>
      rw [hresult] at hunit
      cases hunit
    | ok other =>
      rw [hresult] at hunit
      exact congrArg Except.ok (Option.some.inj hunit)
  simp only [Bool.and_eq_true, beq_iff_eq, List.any_eq_true, Option.any_eq_true] at hfacts
  obtain ⟨hnames, info, hinfo, ref, hsuper, ⟨hkey, hsegments⟩, hbound⟩ := hfacts
  obtain ⟨archive, harchive, hnames⟩ : ∃ archive,
      (initial.afterAll shadowedHeadArchive).HasCompiled archive [unit] ∧
      archive.names = ["I", "A", "A.I"] := by
    have hnew : Workspace.initial.archives.contains "/x.jar" = false := by decide +kernel
    have hfirst : Workspace.initial.ids.nextArchive = 1 := rfl
    have hsources : List.Forall₂ (fun source unit => parse source.2 = .ok unit)
      [("X.java", shadowedHeadText)] [unit] := .cons hparse .nil
    have hcompiled := @hasCompiled_after_registerArchive _ _ _ _ none hnew hsources
    rw [hfirst] at hcompiled
    refine ⟨_, ?_, hnames⟩
    rw [shadowedHeadArchive, afterAll, List.foldl_cons, List.foldl_nil]
    exact hcompiled
  have hunit : file.unit? = some unit := by
    rw [h.files.source_eq hsource, htext, SourceFile.unit?, SourceFile.ofText, hparse]
  have hlisted := h.files.types_eq hsource hunit ▸ hinfo
  have hholds : ws.HoldsAlone project [unit] := by
    refine ⟨hname ▸ hproject, hclasspath, hmodule, fun other => ?_⟩
    rw [hfiles]
    simp [hunit, eq_comm]
  have href : ref ∈ info.refs .head := List.mem_append_left _ (Option.mem_toList.2 hsuper)
  have hname : "I" ∈ archive.names := by simp [hnames]
  have hclear : ∀ name ∈ ref.segments.head?,
      ∀ around ∈ (ofWorkspace ws).enclosingChain (some info.key),
        (ofWorkspace ws).Unobscured archive.names name around := by
    rw [hsegments, hkey, hchain]
    rintro name ⟨⟩ around hmem
    rw [List.mem_singleton.1 hmem]
    exact fun _ => ⟨by decide, hdeclared⟩
  have hread : ∀ scope, (ofWorkspace ws).declarationScope? info.key = some scope →
      (ofWorkspace ws).withoutInheritance.readName scope ref = "A.I" := by
    intro scope hscope
    obtain ⟨file', -, hscope⟩ := Option.bind_eq_some_iff.1 hscope
    obtain ⟨source, -, hscope⟩ := Option.bind_eq_some_iff.1 hscope
    have henclosing := ((isOver_ofWorkspace ws).of_scope? hscope).2.2.1
    rw [hkey] at henclosing
    have hother : TypeKey.simpleName ⟨.source ⟨0⟩, "A"⟩ ≠ "I" := by decide
    exact readName_of_own (chainLimit_pos ws) henclosing hother hdeclared hsegments
  subst hws
  obtain ⟨scope, hscope, -, -, hiff, hsame⟩ := typeOfPartRef?_stub_iff_readByNames
    shadowedHeadProject shadowedHeadArchive hholds harchive hfile hunit hlisted href hbound hname
  refine ⟨project, [unit], archive, file, unit, info, ref, hholds, harchive, hfile, hunit,
    hlisted, href, hbound, hname, fun hstub => ?_⟩
  have hother : "A.I" ≠ "I" := by decide
  exact hother ((hread scope hscope).symm.trans ((hsame hclear).symm.trans (hiff.1 hstub)))

end SourceSearch
