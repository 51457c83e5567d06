import SourceSearch.Proofs.DottedNames
import SourceSearch.Proofs.DeclarationReaders
import SourceSearch.Proofs.Reachable

/-!
# Reachable workspaces are consistent

`Workspace.Consistent` says what the tables of a workspace hold in terms of each other, so that a
search that starts from any of them sees the same files, types and packages. It follows from
`Workspace.InStep`, which edits keep; what is added here is what the tables of a project that is up
to date hold (`get?_typesOf`, `mem_packagesOf_iff`), and that a file is found under the path it
shows.
-/

set_option autoImplicit false

namespace SourceSearch

/-! ## The tables of a project -/

namespace Project

/-- Declarations that are recorded one after the other do not replace each other. -/
theorem get?_foldl_insertIfNew (infos : List DeclaredType) (table : Table String TypeKey)
    (name : String) :
    (infos.foldl (fun types info => types.insertIfNew info.key.qualifiedName info.key) table).get?
        name =
      (table.get? name).or
        ((infos.find? fun info => info.qualifiedName == name).map (·.key)) := by
  induction infos generalizing table with
  | nil => simp
  | cons info infos ih =>
    rw [List.foldl_cons, ih, Table.get?_insertIfNew, Option.or_assoc]
    by_cases hname : name = info.key.qualifiedName
    · subst hname
      have hfirst : (info :: infos).find? (fun other =>
          other.qualifiedName == info.key.qualifiedName) = some info :=
        List.find?_cons_of_pos (beq_self_eq_true _)
      rw [if_pos rfl, hfirst]
      rfl
    · have hother : (info :: infos).find? (fun other => other.qualifiedName == name) =
          infos.find? fun other => other.qualifiedName == name := by
        refine List.find?_cons_of_neg ?_
        rw [beq_iff_eq]
        exact fun heq => hname heq.symm
      rw [if_neg hname, hother, Option.none_or]

/-- **The type of a qualified name** is its first declaration. -/
theorem get?_typesOf (files : List SourceFile) (name : String) :
    (typesOf files).get? name =
      ((files.flatMap (·.types)).find? fun info => info.qualifiedName == name).map (·.key) := by
  unfold typesOf
  rw [get?_foldl_insertIfNew, Table.get?_empty, Option.none_or]

/-- **The packages** are those of the files that parse and the packages around them. -/
theorem mem_packagesOf_iff {files : List SourceFile} {package : String} :
    package ∈ packagesOf files ↔ ∃ file ∈ files, ∃ unit, file.unit? = some unit ∧
      package ∈ packagePath (".".intercalate unit.packageSegments) := by
  unfold packagesOf
  simp only [List.mem_eraseDups, List.mem_flatMap, List.mem_filter]
  constructor
  · rintro ⟨file, ⟨hfile, hparsed⟩, hpackage⟩
    obtain ⟨unit, hunit⟩ := Option.isSome_iff_exists.1 hparsed
    refine ⟨file, hfile, unit, hunit, ?_⟩
    rw [SourceFile.package, hunit] at hpackage
    exact hpackage
  · rintro ⟨file, hfile, unit, hunit, hpackage⟩
    refine ⟨file, ⟨hfile, by rw [hunit]; rfl⟩, ?_⟩
    rw [SourceFile.package, hunit]
    exact hpackage

end Project

/-- The tree of a file that is made of a text is the tree of the text. -/
theorem SourceFile.parse_of_unit? {id : FileId} {project path text : String}
    {unit : CompilationUnit} (h : (SourceFile.ofText id project path text).unit? = some unit) :
    parse text = .ok unit := by
  unfold SourceFile.unit? at h
  split at h
  next found hfound =>
    obtain rfl := Option.some.inj h
    exact hfound
  next => cases h

/-- The packages around the package of a text are named by its first segments. -/
theorem packagePath_of_parse {text : String} {unit : CompilationUnit} (h : parse text = .ok unit) :
    packagePath (".".intercalate unit.packageSegments) =
      (List.range unit.packageSegments.length).map fun n =>
        ".".intercalate (unit.packageSegments.take (n + 1)) := by
  apply packagePath_intercalate
  intro segment hmem
  have hword := isWord_of_mem_wordsOfText ((parse_written h).package segment hmem)
  exact ⟨hword.ne_empty, hword.no_dot⟩

namespace Workspace

/-- The tables of a workspace hold the same files, types and packages. -/
structure Consistent (ws : Workspace) : Prop where
  file_unique : ∀ {name name' path path' file}, ws.fileAt? name path = some file →
    ws.fileAt? name' path' = some file → name = name' ∧ path = path'
  contents_iff : ∀ {index}, (∃ text, ws.contents.get? index = some text) ↔
    ∃ name path, ws.fileAt? name path = some ⟨index⟩
  source_iff : ∀ {index source}, ws.sources.get? index = some source ↔
    ∃ name path text, ws.fileAt? name path = some ⟨index⟩ ∧ ws.isUnitAt name path = true ∧
      ws.contents.get? index = some text ∧ source = .ofText ⟨index⟩ name path text
  mem_units_iff : ∀ {name project}, ws.project? name = some project → ∀ {source},
    source ∈ project.parsedUnits ws.sources ↔
      ws.sources.get? source.id.index = some source ∧ source.project = name
  units_ordered : ∀ {name project}, ws.project? name = some project →
    (project.parsedUnits ws.sources).Pairwise fun a b => a.path < b.path
  types_eq : ∀ {name project}, ws.project? name = some project → ∀ {qualifiedName},
    project.types.get? qualifiedName =
      (((project.parsedUnits ws.sources).flatMap (·.types)).find? fun info =>
        info.qualifiedName == qualifiedName).map (·.key)
  mem_packages_iff : ∀ {name project}, ws.project? name = some project → ∀ {package},
    package ∈ project.packages ↔ ∃ source ∈ project.parsedUnits ws.sources, ∃ unit,
      source.unit? = some unit ∧ ∃ n < unit.packageSegments.length,
        package = ".".intercalate (unit.packageSegments.take (n + 1))
  archive_path : ∀ {path archive}, (path, archive) ∈ ws.archives.entries → archive.path = path
  archives_distinct : ws.archives.entries.Pairwise fun a b => a.1 ≠ b.1 ∧ a.2.id ≠ b.2.id
  var_registered : ∀ {name path}, ws.vars.get? name = some path →
    ∃ archive, ws.archives.get? path = some archive
  unit_at_path : ∀ {index source}, ws.sources.get? index = some source →
    ws.compilationUnit source.workspacePath = .ok source.id

variable {ws : Workspace}

/-- A parsed unit of a project is a parsed file that shows the project. -/
theorem FilesInStep.mem_parsedUnits_iff (h : ws.FilesInStep) {name : String} {project : Project}
    (hproject : ws.project? name = some project) {source : SourceFile} :
    source ∈ project.parsedUnits ws.sources ↔
      ws.sources.get? source.id.index = some source ∧ source.project = name := by
  rw [Project.mem_parsedUnits_iff]
  constructor
  · rintro ⟨path, file, hfile, hunit, hsource⟩
    obtain ⟨other, at', text, hat, -, -, rfl⟩ := h.source_iff.1 hsource
    have hhere : ws.fileAt? name path = some ⟨file.index⟩ := by
      rw [fileAt?_of_project hproject, hfile]
    exact ⟨hsource, (h.file_unique hat hhere).1⟩
  · rintro ⟨hsource, hname⟩
    obtain ⟨other, path, text, hat, hunit, -, heq⟩ := h.source_iff.1 hsource
    obtain rfl : other = name := by
      rw [heq] at hname
      exact hname
    rw [fileAt?_of_project hproject] at hat
    rw [isUnitAt_of_project hproject] at hunit
    exact ⟨path, _, hat, hunit, hsource⟩

/-- The parsed units of a project are listed by path. -/
theorem FilesInStep.parsedUnits_ordered (h : ws.FilesInStep) {name : String} {project : Project}
    (hproject : ws.project? name = some project) :
    (project.parsedUnits ws.sources).Pairwise fun a b => a.path < b.path := by
  -- a parsed unit shows the path under which its file is listed
  have hpath : ∀ {path : String} {file : FileId} {source : SourceFile},
      (path, file) ∈ project.files.entries → ws.sources.get? file.index = some source →
      source.path = path := by
    intro path file source hmem hsource
    obtain ⟨other, at', text, hat, -, -, rfl⟩ := h.source_iff.1 hsource
    have hhere : ws.fileAt? name path = some ⟨file.index⟩ := by
      rw [fileAt?_of_project hproject]
      exact Table.mem_entries_iff.1 hmem
    exact (h.file_unique hat hhere).2
  unfold Project.parsedUnits Project.compilationUnits
  rw [List.pairwise_filterMap]
  refine (project.files.ascending.filter _).imp_of_mem ?_
  rintro ⟨path, file⟩ ⟨path', file'⟩ hmem hmem' hlt source hsource source' hsource'
  rw [hpath (List.mem_filter.1 hmem).1 hsource, hpath (List.mem_filter.1 hmem').1 hsource']
  exact hlt

/-- A parsed unit is found under the path that it shows. -/
theorem FilesInStep.compilationUnit_eq (h : ws.FilesInStep) {index : Nat} {source : SourceFile}
    (hsource : ws.sources.get? index = some source) :
    ws.compilationUnit source.workspacePath = .ok source.id := by
  obtain ⟨name, path, text, hat, -, -, rfl⟩ := h.source_iff.1 hsource
  cases hp : ws.project? name with
  | none => simp [fileAt?, hp] at hat
  | some project =>
    have hfile : project.file? path = some ⟨index⟩ := by
      rw [← fileAt?_of_project hp, hat]
    have hsplit : splitPath (SourceFile.ofText ⟨index⟩ name path text).workspacePath =
        .ok (name, path) := splitPath_join (h.project_name hp).2 (h.file_path hat)
    unfold compilationUnit requireProject source?
    rw [hsplit]
    simp only [bind, Except.bind, hp, hfile, hsource]
    rfl

/-- **Tables that are in step** are consistent. -/
theorem InStep.consistent (h : ws.InStep) : ws.Consistent where
  file_unique := h.files.file_unique
  contents_iff := h.files.contents_iff
  source_iff := h.files.source_iff
  mem_units_iff := h.files.mem_parsedUnits_iff
  units_ordered := h.files.parsedUnits_ordered
  types_eq := by
    intro name project hp qualifiedName
    have hfresh := congrArg Project.types (h.files.upToDate hp)
    rw [← hfresh]
    exact Project.get?_typesOf _ _
  mem_packages_iff := by
    intro name project hp package
    have hfresh := congrArg Project.packages (h.files.upToDate hp)
    rw [← hfresh]
    show package ∈ Project.packagesOf _ ↔ _
    rw [Project.mem_packagesOf_iff]
    refine exists_congr fun source => and_congr_right fun hsource => exists_congr fun unit =>
      and_congr_right fun hunit => ?_
    obtain ⟨other, path, text, -, -, -, heq⟩ :=
      h.files.source_iff.1 ((h.files.mem_parsedUnits_iff hp).1 hsource).1
    rw [heq] at hunit
    rw [packagePath_of_parse (SourceFile.parse_of_unit? hunit)]
    simp only [List.mem_map, List.mem_range, eq_comm]
  archive_path := h.archives.archive_path
  archives_distinct := h.archives.archive_nodup
  var_registered := h.archives.var_registered
  unit_at_path := h.files.compilationUnit_eq

/-- **Whatever edits are made, and whichever of them fail,** the tables of a workspace are
consistent. -/
theorem consistent_afterAll (edits : List Edit) : (initial.afterAll edits).Consistent :=
  (inStep_afterAll edits).consistent

end Workspace

end SourceSearch
