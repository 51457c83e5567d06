import SourceSearch.Proofs.DeclaredNames

/-!
# Written types and their qualified names

When an archive is compiled, each type that a declaration writes is replaced by a qualified name. It
is found by names alone (`Qualification.resolve?`): a candidate counts if a type of that name is
declared anywhere in the archive.

Here this is compared with how a project binds the same types where it declares them alone
(`Workspace.DeclaresAlone`). What the archive puts down is the name as which the type reads in the
project by names alone (`BoundWorkspace.readByNames`, `dotted_typeRef`). The comparison goes through
the three places that a simple name is looked for in: the types around (`inOuterTypes?_eq`), the
imports, and the packages (`map_topLevelType?`).

By names alone, a type around gives the members that any file declares for it, but none that it
inherits. Where no such member is obscured, the type reads as in the body of its declaration if types
have their own members only (`withoutInheritance`, `readByNames_eq`).
-/

set_option autoImplicit false

namespace SourceSearch

/-! ## Names of nested types -/

/-- A name inside another one is longer. -/
theorem Text.length_lt_length_qualify (outer : String) {name : String} (h : name ≠ "") :
    outer.length < (qualify outer name).length := by
  unfold qualify
  split
  next hempty =>
    rw [hempty]
    exact Nat.pos_of_ne_zero fun hzero => h (String.length_eq_zero_iff.1 hzero)
  next =>
    simp only [String.length_append]
    exact Nat.lt_of_lt_of_le (Nat.lt_succ_self _) (Nat.le_add_right _ _)

/-- A type of a package has a name inside the type around it, or inside the package. -/
structure DeclaredType.NamedInside (package : String) (info : DeclaredType) : Prop where
  package_eq : info.package = package
  package_lt : package.length < info.qualifiedName.length
  name : ∃ name, '.' ∉ name.toList ∧ info.qualifiedName =
    match info.outer with
    | some outer => outer ++ "." ++ name
    | none => Text.qualify package name

namespace DeclaredType

variable {origin : Origin} {package : String}

mutual

theorem namedInside_of_mem_collectDecl :
    ∀ (decl : TypeDecl) {outer : Option String} {qualified : String} {path : List Nat}
      {info : DeclaredType}, WrittenIn IsWord (Walk.typeDecl decl) →
      package.length < qualified.length →
      (qualified = match outer with
        | some outer => outer ++ "." ++ decl.head.name.text
        | none => Text.qualify package decl.head.name.text) →
      info ∈ collectDecl origin package outer qualified path decl → info.NamedInside package
  | ⟨head, members⟩, outer, qualified, path, info, h, hlength, hname, hinfo => by
    rw [collectDecl] at hinfo
    rcases List.mem_cons.1 hinfo with rfl | hinfo
    · rw [Walk.typeDecl, List.cons_append, writtenIn_cons] at h
      exact ⟨rfl, hlength, head.name.text, IsWord.no_dot h.1, hname⟩
    · exact namedInside_of_mem_collectMembers members (TypeDecl.writtenIn_members h) hlength hinfo

theorem namedInside_of_mem_collectMembers :
    ∀ (members : List Member) {outer : String} {path : List Nat} {index : Nat}
      {info : DeclaredType}, WrittenIn IsWord (Walk.members members) →
      package.length < outer.length →
      info ∈ collectMembers origin package outer path index members → info.NamedInside package
  | [], _, _, _, _, _, _, hinfo => by
    rw [collectMembers] at hinfo
    cases hinfo
  | .type ⟨head, inner⟩ :: rest, outer, path, index, info, h, hlength, hinfo => by
    obtain ⟨hfirst, hrest⟩ := writtenIn_append.1 h
    rw [collectMembers] at hinfo
    rcases List.mem_append.1 hinfo with hinfo | hinfo
    · refine namedInside_of_mem_collectDecl ⟨head, inner⟩ hfirst ?_ rfl hinfo
      simp only [String.length_append]
      omega
    · exact namedInside_of_mem_collectMembers rest hrest hlength hinfo
  | .field _ _ :: rest, _, _, _, _, h, hlength, hinfo => by
    rw [collectMembers] at hinfo
    exact namedInside_of_mem_collectMembers rest (writtenIn_append.1 h).2 hlength hinfo
  | .method _ _ :: rest, _, _, _, _, h, hlength, hinfo => by
    rw [collectMembers] at hinfo
    exact namedInside_of_mem_collectMembers rest (writtenIn_append.1 h).2 hlength hinfo
  | .initializer _ _ _ :: rest, _, _, _, _, h, hlength, hinfo => by
    rw [collectMembers] at hinfo
    exact namedInside_of_mem_collectMembers rest (writtenIn_append.1 h).2 hlength hinfo

end

end DeclaredType

/-- **The name of a declared type** continues that of the type around it, or of the package. -/
theorem namedInside_of_mem_collectTypes {unit : CompilationUnit} {origin : Origin}
    {info : DeclaredType} (h : unit.WrittenIn IsWord) (hinfo : info ∈ collectTypes unit origin) :
    info.NamedInside (".".intercalate unit.packageSegments) := by
  unfold collectTypes at hinfo
  obtain ⟨infos, hinfos, hinfo⟩ := List.mem_flatten.1 hinfo
  obtain ⟨⟨decl, index⟩, hdecl, rfl⟩ := List.mem_map.1 hinfos
  have hnodes := h.nodes
  rw [Walk.unit, writtenIn_flatMap] at hnodes
  have hwritten := hnodes decl (List.fst_mem_of_mem_zipIdx hdecl)
  refine DeclaredType.namedInside_of_mem_collectDecl decl hwritten ?_ rfl hinfo
  obtain ⟨head, members⟩ := decl
  exact Text.length_lt_length_qualify _ (IsWord.ne_empty (writtenIn_cons.1 hwritten).1)

/-- The types of a parsed file are named inside the package of its tree. -/
theorem Workspace.FilesInStep.namedInside_source {ws : Workspace} (h : ws.FilesInStep)
    {file : FileId} {source : SourceFile} (hsource : ws.source? file = some source)
    {unit : CompilationUnit} (hunit : source.unit? = some unit) {info : DeclaredType}
    (hinfo : info ∈ source.types) : info.NamedInside (".".intercalate unit.packageSegments) := by
  have hwritten := (h.unit_written hsource hunit).imp fun _ => isWord_of_mem_wordsOfText
  rw [h.types_eq hsource hunit] at hinfo
  exact namedInside_of_mem_collectTypes hwritten hinfo

/-- A type of an archive is named inside the package of one of the units. -/
theorem namedInside_of_mem_ofUnits {id : ArchiveId} {path : String} {units : List CompilationUnit}
    {module : Option ModuleDescription} {info : DeclaredType}
    (hunits : ∀ unit ∈ units, ∃ text, parse text = .ok unit)
    (hinfo : info ∈ (Archive.ofUnits id path units module).types) :
    ∃ unit ∈ units, info.NamedInside (".".intercalate unit.packageSegments) := by
  obtain ⟨⟨imports, infos⟩, hcollected, hinfo⟩ := List.mem_flatMap.1 hinfo
  obtain ⟨plain, hplain, rfl⟩ := List.mem_map.1 hinfo
  obtain ⟨unit, hunit, heq⟩ := List.mem_map.1 hcollected
  obtain ⟨rfl, rfl⟩ := Prod.mk.inj heq
  obtain ⟨text, hparse⟩ := hunits unit hunit
  have hwritten := (parse_written hparse).imp fun _ => isWord_of_mem_wordsOfText
  -- only what the type writes is qualified, its own names stay
  obtain ⟨hpackage, hlength, hname⟩ := namedInside_of_mem_collectTypes hwritten hplain
  exact ⟨unit, hunit, hpackage, hlength, hname⟩

/-! ## Units alone in a project -/

/-- A project that is in no module and has nothing on its classpath declares the types of the
names. -/
structure Workspace.DeclaresAlone (ws : Workspace) (project : Project) (names : List String) :
    Prop where
  project_eq : ws.project? project.name = some project
  classpath_eq : project.classpath = []
  module_eq : project.module = none
  mem_names_iff : ∀ name, name ∈ names ↔
    ∃ file ∈ project.parsedUnits ws.sources, ∃ info ∈ file.types, info.qualifiedName = name

variable {ws : Workspace} {s : BoundWorkspace} {project : Project} {names : List String}

namespace Workspace.DeclaresAlone

/-- The project sees its own types only. -/
theorem lookup?_eq (h : ws.DeclaresAlone project names) (name : String) :
    (Environment.ofProject ws project).lookup? name = project.lookup? name := by
  have hproviders : (Environment.ofProject ws project).providers = [.sources project] := by
    simp [Environment.ofProject, Environment.expand, h.classpath_eq]
  have hsees : ∀ package, (Environment.ofProject ws project).reader.sees none package = true := by
    intro package
    simp [Environment.reader, Environment.ofProject, Reader.ofModule, h.module_eq, Reader.sees,
      Reader.moduleName?]
  unfold Environment.lookup? Environment.lookupFor?
  rw [hproviders]
  cases hfound : project.lookup? name with
  | none => simp [Provider.lookup?, hfound]
  | some key => simp [Provider.lookup?, Provider.module, hfound, h.module_eq, hsees]

/-- **A look-up** finds the declared names. -/
theorem map_lookup? (h : ws.DeclaresAlone project names) (hws : ws.InStep)
    {site : Qualification.Site} (hsite : site.declared = names) (name : String) :
    ((Environment.ofProject ws project).lookup? name).map (·.qualifiedName) =
      Qualification.ifDeclared site name := by
  rw [h.lookup?_eq, Project.lookup?, hws.consistent.types_eq h.project_eq, Qualification.ifDeclared,
    hsite]
  by_cases hname : name ∈ names
  · rw [if_pos (List.contains_iff_mem.2 hname)]
    obtain ⟨file, hfile, info, hinfo, rfl⟩ := (h.mem_names_iff name).1 hname
    have hlisted : ((project.parsedUnits ws.sources).flatMap (·.types)).find?
        (fun other => other.qualifiedName == info.qualifiedName) |>.isSome := List.find?_isSome.2
      ⟨info, List.mem_flatMap.2 ⟨file, hfile, hinfo⟩, beq_self_eq_true info.qualifiedName⟩
    obtain ⟨found, hfound⟩ := Option.isSome_iff_exists.1 hlisted
    rw [hfound]
    have hsame := List.find?_some hfound
    exact congrArg some (beq_iff_eq.1 hsame)
  · have hnone : ((project.parsedUnits ws.sources).flatMap (·.types)).find?
        (fun info => info.qualifiedName == name) = none := by
      rw [List.find?_eq_none]
      intro info hinfo hsame
      obtain ⟨file, hfile, hinfo⟩ := List.mem_flatMap.1 hinfo
      exact hname ((h.mem_names_iff name).2 ⟨file, hfile, info, hinfo, beq_iff_eq.1 hsame⟩)
    rw [hnone, if_neg fun hmem => hname (List.contains_iff_mem.1 hmem)]
    rfl

end Workspace.DeclaresAlone

/-! ## Names without inheritance -/

namespace BoundWorkspace

/-- The same workspace in which types do not inherit. -/
def withoutInheritance (s : BoundWorkspace) : BoundWorkspace :=
  { s with supertypes := fun _ => {} }

/-- A type that does not inherit has its own members only. -/
theorem memberType?_withoutInheritance (hlimit : 0 < s.chainLimit) (key : TypeKey)
    (name : String) : s.withoutInheritance.memberType? key name =
      (s.declared? ⟨key.origin, key.qualifiedName ++ "." ++ name⟩).map fun _ =>
        ⟨key.origin, key.qualifiedName ++ "." ++ name⟩ := by
  have horder : s.withoutInheritance.lookupOrder key = [key] := by
    obtain ⟨fuel, hfuel⟩ := Nat.exists_eq_add_of_lt hlimit
    have hlimit' : s.withoutInheritance.chainLimit = fuel + 1 := by
      rw [← Nat.zero_add fuel, ← hfuel]
      rfl
    rw [lookupOrder, hlimit', superclassChain]
    simp [withoutInheritance, addInterfaces]
  rw [memberType?, horder, List.findSome?_singleton]
  rfl

/-- What a type around a place contributes to a simple name, if types do not inherit. -/
def ofTypeAround? (s : BoundWorkspace) (name : String) (key : TypeKey) : Option TypeKey :=
  if key.simpleName = name then some key else s.memberType? key name

/-- Where a type around the place has a member of the name, it is declared in the file of the place,
and the type itself has another name. -/
def Unobscured (s : BoundWorkspace) (names : List String) (name : String) (around : TypeKey) :
    Prop :=
  around.qualifiedName ++ "." ++ name ∈ names →
    around.simpleName ≠ name ∧
      (s.declared? ⟨around.origin, around.qualifiedName ++ "." ++ name⟩).isSome

end BoundWorkspace

/-! ## Names alone -/

/-- The qualified name that a type around a place gives to a simple name if names alone are asked
for: a member of that name comes before the type itself, wherever it is declared. -/
def NameScope.nameAround? (scope : NameScope) (name : String) (around : TypeKey) : Option String :=
  (scope.env.lookup? (around.qualifiedName ++ "." ++ name)).map (·.qualifiedName) <|>
    if around.simpleName = name then some around.qualifiedName else none

/-- The qualified name as which a written type reads by names alone. Its first name stands for what
the types around give to it, for the import of a single type, which is taken at its word, or for a
type of the packages; the others follow. -/
def BoundWorkspace.readByNames (s : BoundWorkspace) (scope : NameScope) (ref : TypeRef) : String :=
  match ref.segments with
  | [] => ""
  | first :: rest =>
    let outermost := (s.enclosingChain scope.enclosing).findSome? (scope.nameAround? first) <|>
      (scope.importOf? first).map (fun i => ".".intercalate i.segments) <|>
      (scope.topLevelType? first).map (·.qualifiedName)
    ".".intercalate (outermost.getD first :: rest)

section Around

variable (hover : s.IsOver ws) (hws : ws.InStep) (h : ws.DeclaresAlone project names)
  {file : SourceFile} (hfile : file ∈ project.parsedUnits ws.sources) {unit : CompilationUnit}
  (hunit : file.unit? = some unit)

include hws h hfile

/-- A file of the project is found by its number. -/
theorem source?_of_mem_parsedUnits : ws.source? file.id = some file :=
  ((hws.files.mem_parsedUnits_iff h.project_eq).1 hfile).1

/-- A type of a file is in the file. -/
theorem key_eq_of_mem_types {info : DeclaredType} (hinfo : info ∈ file.types) :
    info.key = ⟨.source file.id, info.qualifiedName⟩ := by
  have hsource := source?_of_mem_parsedUnits hws h hfile
  rw [← (hws.files.namedIn_source hsource hinfo).origin_eq]
  rfl

include hover

/-- What a file declares under a name. -/
theorem declared?_eq_declared? (name : String) :
    s.declared? ⟨.source file.id, name⟩ = file.declared? name := by
  have hsource := source?_of_mem_parsedUnits hws h hfile
  rw [BoundWorkspace.declared?, hover.workspace]
  simp only [Workspace.declared?, hsource, Option.bind_some]

/-- Where nothing is obscured, a type of a file gives by names alone what it gives where it stands. -/
theorem nameAround?_eq (hlimit : 0 < s.chainLimit) {scope : NameScope}
    (henv : scope.env = .ofProject ws project) {name : String} {info : DeclaredType}
    (hinfo : info ∈ file.types) (hclear : s.Unobscured names name info.key) :
    scope.nameAround? name info.key =
      (s.withoutInheritance.ofTypeAround? name info.key).map (·.qualifiedName) := by
  have hkey := key_eq_of_mem_types hws h hfile hinfo
  have hmember := BoundWorkspace.memberType?_withoutInheritance hlimit info.key name
  have hfound : (scope.env.lookup? (info.key.qualifiedName ++ "." ++ name)).map (·.qualifiedName) =
      Qualification.ifDeclared ⟨[], names, "", ""⟩ (info.key.qualifiedName ++ "." ++ name) :=
    henv ▸ h.map_lookup? hws rfl _
  rw [NameScope.nameAround?, hfound, Qualification.ifDeclared, BoundWorkspace.ofTypeAround?]
  by_cases hmem : info.key.qualifiedName ++ "." ++ name ∈ names
  · -- by names the member comes first, by places the type itself
    obtain ⟨hother, hown⟩ := hclear hmem
    obtain ⟨inner, hinner⟩ := Option.isSome_iff_exists.1 hown
    rw [if_pos (List.contains_iff_mem.2 hmem), if_neg hother, if_neg hother, hmember, hinner]
    rfl
  · have hnone : s.withoutInheritance.memberType? info.key name = none := by
      rw [hmember, Option.map_eq_none_iff, hkey, declared?_eq_declared? hover hws h hfile]
      refine List.find?_eq_none.2 fun inner hinner hsame => hmem ?_
      exact (h.mem_names_iff _).2 ⟨file, hfile, inner, hinner, beq_iff_eq.1 hsame⟩
    rw [if_neg fun hcontains => hmem (List.contains_iff_mem.1 hcontains), hnone]
    by_cases hself : info.key.simpleName = name
    · rw [if_pos hself, if_pos hself]
      rfl
    · rw [if_neg hself, if_neg hself]
      rfl

include hunit

/-- **The type around a type** of a file is named by the qualifier. A type without one around it is
qualified by the package, if it is qualified. -/
theorem outer?_cases {info : DeclaredType} (hinfo : info ∈ file.types) :
    (∃ other ∈ file.types, s.outer? info.key = some other.key ∧
      '.' ∈ info.qualifiedName.toList ∧ Text.qualifier info.qualifiedName = other.qualifiedName) ∨
    (s.outer? info.key = none ∧ ('.' ∈ info.qualifiedName.toList →
      Text.qualifier info.qualifiedName = ".".intercalate unit.packageSegments)) := by
  have hsource := source?_of_mem_parsedUnits hws h hfile
  have htypes := hws.files.types_eq hsource hunit
  have hlisted : (file.declared? info.qualifiedName).isSome :=
    List.find?_isSome.2 ⟨info, hinfo, beq_self_eq_true _⟩
  obtain ⟨found, hfound⟩ := Option.isSome_iff_exists.1 hlisted
  have hmem : found ∈ file.types := List.mem_of_find?_eq_some hfound
  have hsame : found.qualifiedName = info.qualifiedName := by
    have hname := List.find?_some hfound
    exact beq_iff_eq.1 hname
  have houter : s.outer? info.key = found.outer.map fun name => ⟨.source file.id, name⟩ := by
    rw [BoundWorkspace.outer?, key_eq_of_mem_types hws h hfile hinfo,
      declared?_eq_declared? hover hws h hfile, hfound]
    rfl
  obtain ⟨-, -, name, hname, hqualified⟩ := hws.files.namedInside_source hsource hunit hmem
  rw [hsame] at hqualified
  cases hcase : found.outer with
  | some outer =>
    obtain ⟨other, hother, rfl⟩ := exists_outer_of_mem_collectTypes (htypes ▸ hmem) hcase
    rw [← htypes] at hother
    rw [hcase] at hqualified houter
    refine Or.inl ⟨other, hother, ?_, ?_, ?_⟩
    · rw [houter, key_eq_of_mem_types hws h hfile hother]
      rfl
    · rw [hqualified]
      simp [String.toList_append]
    · rw [hqualified]
      exact Text.qualifier_append _ hname
  | none =>
    rw [hcase] at hqualified houter
    refine Or.inr ⟨houter, fun hdot => ?_⟩
    have hqualify : info.qualifiedName =
        Text.qualify (".".intercalate unit.packageSegments) name := hqualified
    unfold Text.qualify at hqualify
    split at hqualify
    next =>
      rw [hqualify] at hdot
      exact absurd hdot hname
    next =>
      rw [hqualify]
      exact Text.qualifier_append _ hname

/-- The body of a declaration of a file. -/
theorem declarationScope?_eq {info : DeclaredType} (hinfo : info ∈ file.types) :
    s.declarationScope? info.key =
      some ⟨file, unit, .ofProject ws project, some info.key⟩ := by
  have hsource := source?_of_mem_parsedUnits hws h hfile
  have hproject := ((hws.files.mem_parsedUnits_iff h.project_eq).1 hfile).2
  have horigin : info.key.origin.file? = some file.id := by
    rw [key_eq_of_mem_types hws h hfile hinfo]
    rfl
  have henv : s.environments.get? file.project = some (.ofProject ws project) := by
    rw [hover.environments, BoundWorkspace.get?_environmentsOf, hproject, h.project_eq]
    rfl
  simp only [BoundWorkspace.declarationScope?, BoundWorkspace.scope?, hover.workspace, horigin,
    hsource, hunit, henv, Option.bind_eq_bind, Option.bind_some]
  rfl

/-- The types around a type of a file are in the file. -/
theorem exists_of_mem_outerChain {fuel : Nat} {info : DeclaredType} (hinfo : info ∈ file.types)
    {around : TypeKey} (haround : around ∈ s.outerChain fuel info.key) :
    ∃ other ∈ file.types, around = other.key := by
  induction fuel generalizing info with
  | zero => cases haround
  | succ fuel ih =>
    rw [BoundWorkspace.outerChain] at haround
    rcases List.mem_cons.1 haround with rfl | haround
    · exact ⟨info, hinfo, rfl⟩
    · rcases outer?_cases hover hws h hfile hunit hinfo with ⟨other, hother, houter, -⟩ | ⟨houter, -⟩
      · rw [houter] at haround
        exact ih hother haround
      · rw [houter] at haround
        cases haround

variable {scope : NameScope} (henv : scope.env = .ofProject ws project)

include henv

/-- **The types around a place** are the same for the archive and for the project, if names alone
are asked for. -/
theorem inOuterTypes?_eq {site : Qualification.Site} (hdeclared : site.declared = names)
    (hpackage : site.package = ".".intercalate unit.packageSegments) {name : String} {fuel : Nat}
    {info : DeclaredType} (hinfo : info ∈ file.types) :
    Qualification.inOuterTypes? site name fuel info.qualifiedName =
      (s.outerChain fuel info.key).findSome? (scope.nameAround? name) := by
  have hsource := source?_of_mem_parsedUnits hws h hfile
  induction fuel generalizing info with
  | zero => rfl
  | succ fuel ih =>
    have hlonger := (hws.files.namedInside_source hsource hunit hinfo).package_lt
    have hinside : info.qualifiedName ≠ site.package := by
      rw [hpackage]
      exact fun heq => absurd (congrArg String.length heq) (Nat.ne_of_gt hlonger)
    have hmember : (scope.env.lookup? (info.key.qualifiedName ++ "." ++ name)).map
        (·.qualifiedName) = Qualification.ifDeclared site (info.qualifiedName ++ "." ++ name) :=
      henv ▸ h.map_lookup? hws hdeclared _
    have hlast : Text.lastSegment info.qualifiedName = info.key.simpleName := rfl
    rw [BoundWorkspace.outerChain, Qualification.inOuterTypes?, if_neg hinside,
      List.findSome?_cons, NameScope.nameAround?, hmember, Qualification.ifDeclared, hlast]
    by_cases hmem : site.declared.contains (info.qualifiedName ++ "." ++ name) = true
    · rw [if_pos hmem, if_pos hmem]
      rfl
    · rw [if_neg hmem, if_neg hmem]
      by_cases hself : info.key.simpleName = name
      · rw [if_pos hself, if_pos hself]
        rfl
      · rw [if_neg hself, if_neg hself]
        rcases outer?_cases hover hws h hfile hunit hinfo with
          ⟨other, hother, houter, hdot, hname⟩ | ⟨houter, hname⟩
        · rw [houter, if_pos hdot, hname]
          exact ih hother
        · rw [houter]
          by_cases hdot : '.' ∈ info.qualifiedName.toList
          · rw [if_pos hdot, hname hdot, ← hpackage]
            cases fuel with
            | zero => rfl
            | succ fuel =>
              rw [Qualification.inOuterTypes?, if_pos rfl]
              rfl
          · rw [if_neg hdot]
            rfl

end Around

/-! ## What an archive records -/

namespace BoundWorkspace

/-- The qualified name as which a written type reads: the first name stands for a type or is
imported, and the others follow. -/
def readName (s : BoundWorkspace) (scope : NameScope) (ref : TypeRef) : String :=
  match ref.segments with
  | [] => ""
  | first :: rest =>
    let outermost := (s.simpleType? scope first).map (·.qualifiedName) <|>
      (scope.importOf? first).map fun i => ".".intercalate i.segments
    ".".intercalate (outermost.getD first :: rest)

/-- If types do not inherit, the name of a member that the type around a place declares reads as the
member. -/
theorem readName_of_own (hlimit : 0 < s.chainLimit)
    {scope : NameScope} {key : TypeKey} (henclosing : scope.enclosing = some key) {name : String}
    (hname : key.simpleName ≠ name)
    (hown : (s.declared? ⟨key.origin, key.qualifiedName ++ "." ++ name⟩).isSome) {ref : TypeRef}
    (href : ref.segments = [name]) :
    s.withoutInheritance.readName scope ref = key.qualifiedName ++ "." ++ name := by
  obtain ⟨inner, hinner⟩ := Option.isSome_iff_exists.1 hown
  have hmember := memberType?_withoutInheritance hlimit key name
  rw [hinner] at hmember
  have haround : s.withoutInheritance.typeAround? scope name =
      some ⟨key.origin, key.qualifiedName ++ "." ++ name⟩ := by
    rw [typeAround?, henclosing, enclosingChain, outerChain, List.findSome?_cons, if_neg hname,
      hmember]
    rfl
  rw [readName, href]
  dsimp only
  rw [simpleType?, haround]
  exact String.intercalate_singleton

/-- The types around a place do not hang on inheritance. -/
theorem enclosingChain_withoutInheritance (enclosing : Option TypeKey) :
    s.withoutInheritance.enclosingChain enclosing = s.enclosingChain enclosing := by
  have hchain : ∀ (fuel : Nat) (key : TypeKey),
      s.withoutInheritance.outerChain fuel key = s.outerChain fuel key := by
    intro fuel
    induction fuel with
    | zero => exact fun _ => rfl
    | succ fuel ih =>
      intro key
      have houter : s.withoutInheritance.outer? key = s.outer? key := rfl
      rw [outerChain, outerChain, houter]
      cases s.outer? key with
      | none => rfl
      | some outer => exact congrArg (key :: ·) (ih outer)
  cases enclosing with
  | none => rfl
  | some key => exact hchain _ key

end BoundWorkspace

/-- The names outside the types of a file are the same for the archive and for the project. -/
theorem map_topLevelType? (hws : ws.InStep) (h : ws.DeclaresAlone project names)
    {scope : NameScope} (henv : scope.env = .ofProject ws project) {site : Qualification.Site}
    (hdeclared : site.declared = names) (himports : site.imports = scope.unit.imports)
    (hpackage : site.package = ".".intercalate scope.unit.packageSegments) {name : String}
    (hname : scope.importOf? name = none) :
    (scope.topLevelType? name).map (·.qualifiedName) =
      (Qualification.ifDeclared site (Text.qualify site.package name) <|>
        Qualification.onDemandName? site name <|>
        Qualification.ifDeclared site ("java.lang." ++ name)) := by
  have hlookup : ∀ qualifiedName, (scope.env.lookup? qualifiedName).map (·.qualifiedName) =
      Qualification.ifDeclared site qualifiedName := henv ▸ h.map_lookup? hws hdeclared
  have hondemand : (scope.onDemand? name).map (·.qualifiedName) =
      Qualification.onDemandName? site name := by
    rw [NameScope.onDemand?, Qualification.onDemandName?, himports, List.map_findSome?]
    congr 1
    funext i
    exact hlookup _
  unfold NameScope.topLevelType?
  rw [hname]
  simp only [Option.orElse_eq_orElse, Option.orElse_eq_or, Option.map_or, hlookup, hondemand,
    hpackage]

section Recorded

variable (hover : s.IsOver ws) (hws : ws.InStep) (h : ws.DeclaresAlone project names)
  {file : SourceFile} (hfile : file ∈ project.parsedUnits ws.sources) {unit : CompilationUnit}
  (hunit : file.unit? = some unit) {info : DeclaredType} (hinfo : info ∈ file.types)

include hover hws h hfile hunit hinfo

/-- The archive takes a simple name for what it stands for in the body of the declaration by names
alone. -/
theorem resolve?_eq {scope : NameScope}
    (hscope : scope = ⟨file, unit, .ofProject ws project, some info.key⟩) (name : String) :
    Qualification.resolve? ⟨unit.imports, names, info.qualifiedName, info.package⟩ name =
      ((s.enclosingChain scope.enclosing).findSome? (scope.nameAround? name) <|>
        (scope.importOf? name).map (fun i => ".".intercalate i.segments) <|>
        (scope.topLevelType? name).map (·.qualifiedName)) := by
  have hsource := source?_of_mem_parsedUnits hws h hfile
  generalize hsite : (⟨unit.imports, names, info.qualifiedName, info.package⟩ :
    Qualification.Site) = site
  have henv : scope.env = .ofProject ws project := by rw [hscope]
  have himports : site.imports = scope.unit.imports := by rw [← hsite, hscope]
  have hdeclared : site.declared = names := by rw [← hsite]
  have hpackage : site.package = ".".intercalate scope.unit.packageSegments := by
    rw [← hsite, hscope]
    exact (hws.files.namedInside_source hsource hunit hinfo).package_eq
  have haround : Qualification.inOuterTypes? site name (site.scope.length + 1) site.scope =
      (s.enclosingChain scope.enclosing).findSome? (scope.nameAround? name) := by
    rw [show site.scope = info.qualifiedName by rw [← hsite],
      show scope.enclosing = some info.key by rw [hscope]]
    exact inOuterTypes?_eq hover hws h hfile hunit henv hdeclared
      (hpackage.trans (by rw [hscope])) hinfo
  have hnamed : Qualification.importedName? site name =
      (scope.importOf? name).map fun i => ".".intercalate i.segments := by
    rw [Qualification.importedName?, himports]
    rfl
  unfold Qualification.resolve?
  rw [haround, hnamed]
  simp only [Option.orElse_eq_orElse, Option.orElse_eq_or]
  cases himport : scope.importOf? name with
  | none =>
    rw [map_topLevelType? hws h henv hdeclared himports hpackage himport]
    simp only [Option.orElse_eq_orElse, Option.orElse_eq_or]
  | some i => rfl

/-- **What an archive records** for a written type of a declaration is what the type reads as by
names alone in the body of the declaration. -/
theorem dotted_typeRef {ref : TypeRef} (hprimitive : ref.isPrimitive = false) :
    (Qualification.typeRef ⟨unit.imports, names, info.qualifiedName, info.package⟩ ref).dotted =
      s.readByNames ⟨file, unit, .ofProject ws project, some info.key⟩ ref := by
  rw [Qualification.typeRef, if_neg (by simp [hprimitive]), BoundWorkspace.readByNames]
  cases hsegments : ref.segments with
  | nil => rw [TypeRef.dotted, hsegments]; rfl
  | cons first rest =>
    have hgoal : ∀ outermost : Option String,
        (match outermost with
          | some qualified => { ref with segments := Text.split '.' qualified ++ rest }
          | none => ref).dotted = ".".intercalate (outermost.getD first :: rest) := by
      intro outermost
      cases outermost with
      | none => rw [TypeRef.dotted, hsegments]; rfl
      | some qualified => exact Text.intercalate_split_append qualified rest
    dsimp only
    rw [resolve?_eq hover hws h hfile hunit hinfo rfl first]
    exact hgoal _

/-- **Where nothing is obscured**, a written type of a declaration reads by names alone as it does in
the body of the declaration if types do not inherit. -/
theorem readByNames_eq (hlimit : 0 < s.chainLimit) {ref : TypeRef}
    (hclear : ∀ name ∈ ref.segments.head?, ∀ around ∈ s.enclosingChain (some info.key),
      s.Unobscured names name around) :
    s.readByNames ⟨file, unit, .ofProject ws project, some info.key⟩ ref =
      s.withoutInheritance.readName ⟨file, unit, .ofProject ws project, some info.key⟩ ref := by
  rw [BoundWorkspace.readByNames, BoundWorkspace.readName]
  cases hsegments : ref.segments with
  | nil => rfl
  | cons first rest =>
    generalize hscope : (⟨file, unit, .ofProject ws project, some info.key⟩ : NameScope) = scope
    have henv : scope.env = .ofProject ws project := by rw [← hscope]
    have haround : (s.enclosingChain scope.enclosing).findSome? (scope.nameAround? first) =
        (s.withoutInheritance.typeAround? scope first).map (·.qualifiedName) := by
      rw [BoundWorkspace.typeAround?, BoundWorkspace.enclosingChain_withoutInheritance,
        List.map_findSome?, ← List.head?_filterMap, ← List.head?_filterMap]
      refine congrArg List.head? (List.filterMap_congr fun around hmem => ?_)
      rw [← hscope] at hmem
      obtain ⟨other, hother, rfl⟩ := exists_of_mem_outerChain hover hws h hfile hunit hinfo hmem
      exact nameAround?_eq hover hws h hfile hlimit henv hother
        (hclear first (by rw [hsegments]; rfl) _ hmem)
    have houtside : ((scope.importOf? first).map (fun i => ".".intercalate i.segments)).or
        ((scope.topLevelType? first).map (·.qualifiedName)) =
          ((scope.topLevelType? first).map (·.qualifiedName)).or
            ((scope.importOf? first).map fun i => ".".intercalate i.segments) := by
      cases himport : scope.importOf? first with
      | none => simp
      | some i =>
        -- the import is taken at its word, whether or not its type is declared
        have hlookup : (scope.env.lookup? (".".intercalate i.segments)).map (·.qualifiedName) =
            Qualification.ifDeclared ⟨[], names, "", ""⟩ (".".intercalate i.segments) :=
          henv ▸ h.map_lookup? hws rfl _
        rw [NameScope.topLevelType?, himport, hlookup, Qualification.ifDeclared]
        split <;> rfl
    simp only [haround, BoundWorkspace.simpleType?, Option.orElse_eq_orElse, Option.orElse_eq_or,
      Option.map_or, houtside, Option.or_assoc]

end Recorded

end SourceSearch
