import SourceSearch.Proofs.QualifiedNames

/-!
# Types and their packages

Two rules say what a reader sees of a provider, one for types (`Reader.sees`) and one for packages
(`Reader.seesPackage`), and each provider answers the two kinds of questions from tables of their
own. Still they agree: **who finds a type finds its package, and the packages around it**
(`lookupFor?_packages`).

Packages are handled by the segments of their names. A package that is seen lets all packages around
it be seen (`Reader.seesPackage_of_sees`), and a provider that declares a type has its package with
those around it (`Provider.IsIn.of_lookup?_packages`).
-/

set_option autoImplicit false

namespace SourceSearch

/-! ## Packages by their segments -/

/-- The name of a package is made of the segments, of which none is blank or has a dot. -/
structure IsSegmented (package : String) (segments : List String) : Prop where
  name_eq : package = ".".intercalate segments
  parts : ∀ segment ∈ segments, segment ≠ "" ∧ '.' ∉ segment.toList

variable {package : String} {segments : List String}

/-- The package of a text that parses is made of the segments that are written there. -/
theorem isSegmented_of_parse {text : String} {unit : CompilationUnit} (h : parse text = .ok unit) :
    IsSegmented (".".intercalate unit.packageSegments) unit.packageSegments where
  name_eq := rfl
  parts segment hmem := by
    have hword := isWord_of_mem_wordsOfText ((parse_written h).package segment hmem)
    exact ⟨hword.ne_empty, hword.no_dot⟩

theorem IsSegmented.mem_packagePath (h : IsSegmented package segments) {n : Nat}
    (hn : n < segments.length) :
    ".".intercalate (segments.take (n + 1)) ∈ packagePath package := by
  rw [h.name_eq, packagePath_intercalate h.parts]
  exact List.mem_map.2 ⟨n, List.mem_range.2 hn, rfl⟩

/-- The name of a package has no other segments than those between its dots. -/
theorem IsSegmented.eq_split (h : IsSegmented package segments) (hnamed : package ≠ "") :
    segments = Text.split '.' package := by
  have hne : segments ≠ [] := by
    rintro rfl
    exact hnamed h.name_eq
  rw [h.name_eq, Text.split_intercalate hne fun segment hmem => (h.parts segment hmem).2]

/-- A package around another one is that one, or its name with a dot begins the other name. -/
theorem intercalate_take_eq_or_isPrefixOf {n : Nat} (hn : n < segments.length) :
    ".".intercalate segments = ".".intercalate (segments.take (n + 1)) ∨
      (".".intercalate (segments.take (n + 1)) ++ ".").toList.isPrefixOf
        (".".intercalate segments).toList = true := by
  by_cases hrest : segments.drop (n + 1) = []
  · refine Or.inl ?_
    rw [List.take_of_length_le (List.drop_eq_nil_iff.1 hrest)]
  · refine Or.inr (List.isPrefixOf_iff_prefix.2
      ⟨(".".intercalate (segments.drop (n + 1))).toList, ?_⟩)
    have hfirst : segments.take (n + 1) ≠ [] := by
      rw [Ne, List.take_eq_nil_iff]
      rintro (hzero | rfl)
      · cases hzero
      · cases hn
    rw [← String.toList_append, ← String.intercalate_append_of_ne_nil hfirst hrest,
      List.take_append_drop]

/-- The name of a segment in the package of those before it. -/
theorem Environment.inPackage_take {n : Nat} (hn : n < segments.length) :
    inPackage (segments.take n) segments[n] = ".".intercalate (segments.take (n + 1)) := by
  rw [List.take_succ_eq_append_getElem hn]
  unfold inPackage
  by_cases hnil : segments.take n = []
  · rw [hnil, if_pos List.isEmpty_nil, List.nil_append, String.intercalate_singleton]
  · rw [if_neg (by simpa using hnil), Text.intercalate_concat hnil]

/-- **A reader who sees a package** sees the packages around it. -/
theorem Reader.seesPackage_of_sees {reader : Reader} {module : Option ModuleDescription}
    (h : reader.sees module (".".intercalate segments) = true) {n : Nat}
    (hn : n < segments.length) :
    reader.seesPackage module (".".intercalate (segments.take (n + 1))) = true := by
  cases module with
  | none => exact h
  | some module =>
    simp only [sees, seesPackage, Bool.or_eq_true, Bool.and_eq_true] at h ⊢
    rcases h with hown | ⟨hexported, hreads⟩
    · exact Or.inl hown
    · -- the exported package itself vouches for those around it
      refine Or.inr ⟨hreads, List.any_eq_true.2 ⟨_, List.contains_iff_mem.1 hexported, ?_⟩⟩
      rw [Bool.or_eq_true, beq_iff_eq]
      exact intercalate_take_eq_or_isPrefixOf hn

/-! ## The packages of a provider -/

/-- A type of an archive is in the package of one of its units. -/
theorem exists_package_of_mem_ofUnits {id : ArchiveId} {path : String}
    {units : List CompilationUnit} {module : Option ModuleDescription} {info : DeclaredType}
    (hunits : ∀ unit ∈ units, ∃ text, parse text = .ok unit)
    (hinfo : info ∈ (Archive.ofUnits id path units module).types) :
    ∃ segments, IsSegmented info.package segments := by
  obtain ⟨unit, hunit, hnamed⟩ := namedInside_of_mem_ofUnits hunits hinfo
  obtain ⟨text, hparse⟩ := hunits unit hunit
  refine ⟨unit.packageSegments, ?_⟩
  rw [hnamed.package_eq]
  exact isSegmented_of_parse hparse

variable {ws : Workspace}

/-- The type is declared in a package that is had, and so are the packages around it. -/
def Workspace.HasPackagesOf (ws : Workspace) (hasPackage : String → Bool) (key : TypeKey) : Prop :=
  ∃ info segments, ws.declared? key = some info ∧ IsSegmented info.package segments ∧
    ∀ n < segments.length, hasPackage (".".intercalate (segments.take (n + 1))) = true

/-- A project has the packages of the types that it declares. -/
theorem Workspace.InStep.of_lookup?_packages (h : ws.InStep) {name : String} {project : Project}
    (hproject : ws.project? name = some project) {qualifiedName : String} {key : TypeKey}
    (hkey : project.lookup? qualifiedName = some key) :
    ws.HasPackagesOf project.hasPackage key := by
  obtain ⟨source, other, hsource, hother, rfl, -⟩ := h.of_lookup? hproject hkey
  obtain ⟨hget, -⟩ := (h.files.mem_parsedUnits_iff hproject).1 hsource
  have hget : ws.source? source.id = some source := hget
  obtain ⟨info, hinfo⟩ := h.mem_typeKeys_iff.1 (Workspace.mem_typeKeys hget hother)
  -- the type of that name in the file is the first one, which need not be `other`
  have hmem : info ∈ source.types := by
    rw [declared?, (h.files.namedIn_source hget hother).origin_eq] at hinfo
    obtain ⟨found, hfound, hfirst⟩ := Option.bind_eq_some_iff.1 hinfo
    obtain rfl := Option.some.inj (hget.symm.trans hfound)
    exact List.mem_of_find?_eq_some hfirst
  obtain ⟨unit, hunit⟩ := h.files.exists_unit hget hmem
  have hpackage := (h.files.namedInside_source hget hunit hmem).package_eq
  refine ⟨info, unit.packageSegments, hinfo, ?_, fun n hn => ?_⟩
  · rw [h.files.source_eq hget] at hunit
    rw [hpackage]
    exact isSegmented_of_parse (SourceFile.parse_of_unit? hunit)
  · exact List.contains_iff_mem.2 ((h.consistent.mem_packages_iff hproject).2
      ⟨source, hsource, unit, hunit, n, hn, rfl⟩)

/-- An archive has the packages of the types that it declares. -/
theorem Workspace.InStep.of_archive_lookup?_packages (h : ws.InStep) {path : String}
    {archive : Archive} (harchive : (path, archive) ∈ ws.archives.entries) {qualifiedName : String}
    {key : TypeKey} (hkey : archive.lookup? qualifiedName = some key) :
    ws.HasPackagesOf archive.hasPackage key := by
  obtain ⟨info, hfound, rfl⟩ := Option.map_eq_some_iff.1 hkey
  have hmem := List.mem_of_find?_eq_some hfound
  obtain ⟨units, hunits, heq⟩ := h.archives.archive_compiled harchive
  obtain ⟨segments, hsegments⟩ := exists_package_of_mem_ofUnits hunits (heq ▸ hmem)
  refine ⟨info, segments, ?_, hsegments, fun n hn => ?_⟩
  · have hname : info.key.qualifiedName = qualifiedName := by
      simpa using List.find?_some hfound
    rw [declared?, (h.archives.namedIn_archive harchive hmem).origin_eq, hname]
    exact Option.bind_eq_some_iff.2
      ⟨archive, h.archives.archive?_id (List.mem_map_of_mem harchive), hfound⟩
  · exact List.any_eq_true.2 ⟨info, hmem, List.contains_iff_mem.2 (hsegments.mem_packagePath hn)⟩

/-- **A provider** has the packages of the types that it declares. -/
theorem Provider.IsIn.of_lookup?_packages (h : ws.InStep) {name : String} {provider : Provider}
    (hprovider : provider.IsIn ws name) {qualifiedName : String} {key : TypeKey}
    (hkey : provider.lookup? qualifiedName = some key) :
    ws.HasPackagesOf provider.hasPackage key := by
  cases provider with
  | sources project => exact h.of_lookup?_packages hprovider.1 hkey
  | archive archive =>
    obtain ⟨path, harchive⟩ := hprovider
    exact h.of_archive_lookup?_packages harchive hkey

/-! ## What an environment finds -/

namespace Environment

/-- **Who finds a type** finds its package, and the packages around it. -/
theorem lookupFor?_packages (h : ws.InStep) {project : Project}
    (hproject : ws.project? project.name = some project) {reader : Reader} {qualifiedName : String}
    {key : TypeKey} (hkey : (ofProject ws project).lookupFor? reader qualifiedName = some key) :
    ∃ info segments, ws.declared? key = some info ∧ IsSegmented info.package segments ∧
      ∀ n (hn : n < segments.length),
        (ofProject ws project).isPackage reader (segments.take n) segments[n] = true := by
  obtain ⟨provider, hmem, hfound⟩ := List.exists_of_findSome?_eq_some hkey
  obtain ⟨hlookup, hsees⟩ := Option.filter_eq_some_iff.1 hfound
  obtain ⟨info, segments, hinfo, hsegments, hhas⟩ :=
    (isIn_of_mem_providers h.files hproject provider hmem).of_lookup?_packages h hlookup
  refine ⟨info, segments, hinfo, hsegments, fun n hn => ?_⟩
  have hpackage : packageOf ws key = ".".intercalate segments := by
    rw [packageOf, hinfo, ← hsegments.name_eq]
  have hsees : reader.sees provider.module (packageOf ws key) = true := hsees
  rw [hpackage] at hsees
  have hnamed : segments[n] ≠ "" := (hsegments.parts _ (List.getElem_mem hn)).1
  rw [isPackage, inPackage_take hn, hasPackageFor, decide_eq_true hnamed, Bool.true_and]
  exact List.any_eq_true.2
    ⟨provider, hmem, by rw [hhas n hn, Reader.seesPackage_of_sees hsees hn]; rfl⟩

end Environment

@[simp] theorem NameAnswer.key?_ofKey? (key? : Option TypeKey) : (ofKey? key?).key? = key? := by
  cases key? with
  | none => rfl
  | some key =>
    obtain ⟨origin, name⟩ := key
    cases origin <;> rfl

/-- What a name of a type finds is found under a qualified name. -/
theorem Environment.lookupFor?_of_findType {env : Environment} {reader : Reader}
    {segments : List String} {key : TypeKey} (h : (env.findType reader segments).key? = some key) :
    env.lookupFor? reader (".".intercalate segments) = some key := by
  unfold findType at h
  split at h
  · cases h
  · rwa [NameAnswer.key?_ofKey?] at h

theorem Environment.lookupFor?_of_findTypeInPackage {env : Environment} {reader : Reader}
    {name : String} {package : List String} {key : TypeKey}
    (h : (env.findTypeInPackage reader name package).key? = some key) :
    env.lookupFor? reader (inPackage package name) = some key := by
  unfold findTypeInPackage at h
  split at h
  · cases h
  · rwa [NameAnswer.key?_ofKey?] at h

namespace Workspace

/-- **Types and packages agree in every context.** Whatever edits were made, whoever asks the
environment of a project for a type and is answered with one, by its name or by its package, is told
that its package is a package, and so are all that lead to it. -/
theorem isPackage_of_found_afterAll (edits : List Edit) {name : String} {env : Environment}
    (henv : (initial.afterAll edits).environment? name = some env) (reader : Reader) {key : TypeKey}
    (hfound : (∃ written, (env.findType reader written).key? = some key) ∨
      ∃ typeName package, (env.findTypeInPackage reader typeName package).key? = some key) :
    ∃ info segments, (initial.afterAll edits).declared? key = some info ∧
      IsSegmented info.package segments ∧
      ∀ n (hn : n < segments.length),
        env.isPackage reader (segments.take n) segments[n] = true := by
  have h := inStep_afterAll edits
  obtain ⟨project, hproject, rfl⟩ := Option.map_eq_some_iff.1 henv
  rw [← (h.files.project_name hproject).1] at hproject
  have hlookup : ∃ qualifiedName,
      (Environment.ofProject (initial.afterAll edits) project).lookupFor? reader qualifiedName =
        some key := by
    rcases hfound with ⟨written, hwritten⟩ | ⟨typeName, package, hin⟩
    · exact ⟨_, Environment.lookupFor?_of_findType hwritten⟩
    · exact ⟨_, Environment.lookupFor?_of_findTypeInPackage hin⟩
  obtain ⟨qualifiedName, hkey⟩ := hlookup
  exact Environment.lookupFor?_packages h hproject hkey

/-- A module that exports one of its two packages, and a module that requires it. -/
def exportsOnePackage : List Edit :=
  [.createProject ⟨"lib", [""], [], some ⟨"lib", [], ["lib.api"]⟩⟩,
    .createFile "/lib/Outer.java" "package lib.api; class Outer \x7b class Member \x7b\x7d \x7d",
    .createFile "/lib/Hidden.java" "package lib.inner; class Hidden \x7b\x7d",
    .createProject ⟨"app", [""], [.project "lib" false], some ⟨"app", ["lib"], []⟩⟩]

/-- The module that requires the other one finds a member type of the exported package, so it finds
that package and the one around it. The package that is not exported stays hidden. -/
theorem isPackage_exportsOnePackage :
    ∃ env, (initial.afterAll exportsOnePackage).environment? "app" = some env ∧
      env.findType env.reader ["lib", "api", "Outer", "Member"] =
        .source ⟨.source ⟨0⟩, "lib.api.Outer.Member"⟩ ∧
      env.isPackage env.reader [] "lib" = true ∧
      env.isPackage env.reader ["lib"] "api" = true ∧
      env.isPackage env.reader ["lib"] "inner" = false := by
  have hanswers : ((initial.afterAll exportsOnePackage).environment? "app").map (fun env =>
        (env.findType env.reader ["lib", "api", "Outer", "Member"],
          env.isPackage env.reader ["lib"] "inner")) =
      some (.source ⟨.source ⟨0⟩, "lib.api.Outer.Member"⟩, false) := by
    decide +kernel
  obtain ⟨env, henv, hanswers⟩ := Option.map_eq_some_iff.1 hanswers
  obtain ⟨hfound, hhidden⟩ := Prod.mk.inj hanswers
  obtain ⟨info, segments, hinfo, hsegments, hpackages⟩ :=
    isPackage_of_found_afterAll exportsOnePackage henv env.reader
      (Or.inl ⟨_, congrArg NameAnswer.key? hfound⟩)
  have hpackage : ((initial.afterAll exportsOnePackage).declared?
      ⟨.source ⟨0⟩, "lib.api.Outer.Member"⟩).map (·.package) = some "lib.api" := by
    decide +kernel
  rw [hinfo] at hpackage
  have hpackage : info.package = "lib.api" := Option.some.inj hpackage
  rw [hpackage] at hsegments
  obtain rfl : segments = ["lib", "api"] := by
    rw [hsegments.eq_split (by decide)]
    decide +kernel
  exact ⟨env, henv, hfound, hpackages 0 (by decide), hpackages 1 (by decide), hhidden⟩

end Workspace

end SourceSearch
