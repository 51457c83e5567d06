import SourceSearch.Proofs.AlikeWorkspaces
import SourceSearch.Proofs.Consistency
import SourceSearch.Proofs.DeclaredNames

/-!
# Copies of projects

A copy of a project is made file by file, and after each file the tables of types and packages are
made anew. What a run of such steps does is `Workspace.Filled`: it gives one project the texts of the
files that were copied and leaves all else as it is. So the copy shows the same texts at the same
paths, and since parsed forms depend on text and path only, its units are those of the original under
other numbers (`parsedUnits_relocate`). Types and packages are made of the units, so they are those of
the original as well, with each file at the same path (`copies_of_texts`).

Numbers of files are given out once, so a copy shares no file and no type with what was there before
(`copyProject_afterAll`).
-/

set_option autoImplicit false

namespace SourceSearch

/-- The first results of related searches are related. -/
theorem rel_findSome? {α β γ : Type} {R : β → γ → Prop} {f : α → Option β} {g : α → Option γ}
    {as : List α} (h : ∀ a ∈ as, Option.Rel R (f a) (g a)) :
    Option.Rel R (as.findSome? f) (as.findSome? g) := by
  induction as with
  | nil => exact .none
  | cons a as ih =>
    rw [List.findSome?_cons, List.findSome?_cons]
    have hfirst := h a List.mem_cons_self
    cases hf : f a with
    | none =>
      rw [hf] at hfirst
      cases hg : g a with
      | none => exact ih fun b hb => h b (List.mem_cons_of_mem _ hb)
      | some c => rw [hg] at hfirst; cases hfirst
    | some b =>
      rw [hf] at hfirst
      cases hg : g a with
      | none => rw [hg] at hfirst; cases hfirst
      | some c => rw [hg] at hfirst; exact hfirst

/-! ## Units under other numbers -/

namespace Project

/-- The parsed form of the file at a path with a text. -/
def unitAt? (project : Project) (path : String) (text? : Option String) : Option SourceFile :=
  if project.isCompilationUnit path then
    (project.file? path).bind fun file => text?.map (.ofText file project.name path)
  else none

/-- The same text at the same path of another project. -/
def relocate (made : Project) (source : SourceFile) : SourceFile :=
  .ofText ((made.file? source.path).getD source.id) made.name source.path source.text

/-- The texts of the files by path. -/
def texts (project : Project) (contents : Table Nat String) : Table String (Option String) :=
  project.files.mapValues fun file => contents.get? file.index

/-- Two keys name the same type of files at the same path, each in its own project. -/
def SamePlace (old made : Project) (key key' : TypeKey) : Prop :=
  key'.qualifiedName = key.qualifiedName ∧ ∃ path file file', old.file? path = some file ∧
    made.file? path = some file' ∧ key.origin = .source file ∧ key'.origin = .source file'

end Project

namespace Workspace

variable {ws mid next : Workspace} {source target name : String} {old made project : Project}

/-- **The units of a project** depend on its paths, its texts and its numbers only. -/
theorem FilesInStep.parsedUnits_eq (h : ws.FilesInStep) (hproject : ws.project? name = some project) :
    project.parsedUnits ws.sources =
      (project.texts ws.contents).entries.filterMap fun e => project.unitAt? e.1 e.2 := by
  rw [Project.parsedUnits, Project.compilationUnits, List.filterMap_filter, Project.texts,
    Table.mapValues, List.filterMap_map]
  refine List.filterMap_congr ?_
  rintro ⟨path, file⟩ hmem
  have hfile : project.file? path = some file := Table.mem_entries_iff.1 hmem
  have hsource := h.source?_of_fileAt? ((fileAt?_of_project hproject path).trans hfile)
  rw [isUnitAt_of_project hproject] at hsource
  simp only [Function.comp, Project.unitAt?, hfile, Option.bind_some,
    (h.project_name hproject).1]
  split
  next hunit => rw [← Workspace.source?, hsource, if_pos hunit]
  next => rfl

/-- Projects with the same texts have files at the same paths. -/
theorem exists_file?_of_texts {contents contents' : Table Nat String}
    (htexts : made.texts contents' = old.texts contents) {path : String} {file : FileId}
    (hfile : old.file? path = some file) : ∃ file', made.file? path = some file' ∧
      contents'.get? file'.index = contents.get? file.index := by
  have htext := congrArg (Table.get? · path) htexts
  simp only [Project.texts, Table.get?_mapValues] at htext
  rw [show old.files.get? path = some file from hfile, Option.map_some,
    Option.map_eq_some_iff] at htext
  exact htext

/-- What `relocate` does to a file that is made of a text. -/
theorem relocate_ofText (made : Project) (file : FileId) (name path text : String) :
    made.relocate (.ofText file name path text) =
      .ofText ((made.file? path).getD file) made.name path text := rfl

/-- **Projects with the same texts** have the same units but for numbers. -/
theorem parsedUnits_relocate (h : ws.FilesInStep) (h' : next.FilesInStep)
    (hold : ws.project? source = some old) (hmade : next.project? target = some made)
    (hfolders : made.sourceFolders = old.sourceFolders)
    (htexts : made.texts next.contents = old.texts ws.contents) :
    made.parsedUnits next.sources = (old.parsedUnits ws.sources).map made.relocate := by
  rw [h'.parsedUnits_eq hmade, h.parsedUnits_eq hold, htexts, List.map_filterMap]
  refine List.filterMap_congr fun ⟨path, text?⟩ hmem => ?_
  obtain ⟨file, hfile⟩ : ∃ file, old.file? path = some file := by
    obtain ⟨e, he, heq⟩ := List.mem_map.1 hmem
    exact ⟨e.2, (Prod.mk.inj heq).1 ▸ Table.mem_entries_iff.1 he⟩
  obtain ⟨file', hfile', -⟩ := exists_file?_of_texts htexts hfile
  have hunit : made.isCompilationUnit path = old.isCompilationUnit path := by
    rw [Project.isCompilationUnit, Project.isCompilationUnit, hfolders]
  simp only [Project.unitAt?, hfile, hfile', hunit, Option.bind_some]
  split
  · rw [Option.map_map]
    congr 1
    funext text
    rw [Function.comp, relocate_ofText, hfile', Option.getD_some]
  · rfl

/-- A unit has the same tree under another number. -/
theorem unit?_relocate (h : ws.FilesInStep) {file : FileId} {unit : SourceFile}
    (hunit : ws.source? file = some unit) : (made.relocate unit).unit? = unit.unit? := by
  rw [h.source_eq hunit]
  rfl

/-- A unit declares the same types under another number. -/
theorem types_relocate (h : ws.FilesInStep) {file : FileId} {unit : SourceFile}
    (hunit : ws.source? file = some unit) :
    (made.relocate unit).types = unit.types.map
      (·.withOrigin (.source ((made.file? unit.path).getD unit.id))) := by
  rw [h.source_eq hunit]
  simp only [Project.relocate, SourceFile.ofText]
  split
  · exact collectTypes_withOrigin _ _ _
  · rfl

/-- A unit of a project is at the path that it shows. -/
theorem FilesInStep.file?_of_mem_parsedUnits (h : ws.FilesInStep)
    (hproject : ws.project? name = some project) {unit : SourceFile}
    (hunit : unit ∈ project.parsedUnits ws.sources) :
    ws.source? unit.id = some unit ∧ project.file? unit.path = some unit.id := by
  obtain ⟨hsource, rfl⟩ := (h.mem_parsedUnits_iff hproject).1 hunit
  obtain ⟨other, path, text, hat, -, -, heq⟩ := h.source_iff.1 hsource
  refine ⟨hsource, ?_⟩
  rw [heq] at hproject ⊢
  rw [← fileAt?_of_project hproject]
  exact hat

/-- The type of a qualified name is the first one in the first unit that declares one. -/
theorem FilesInStep.lookup?_eq (h : ws.FilesInStep) (hproject : ws.project? name = some project)
    (qualifiedName : String) : project.lookup? qualifiedName =
      (project.parsedUnits ws.sources).findSome? fun unit =>
        (unit.types.find? fun info => info.qualifiedName == qualifiedName).map (·.key) := by
  have htypes : Project.typesOf (project.parsedUnits ws.sources) = project.types :=
    congrArg Project.types (h.upToDate hproject)
  rw [Project.lookup?, ← htypes, Project.get?_typesOf, List.find?_flatMap, List.map_findSome?]
  rfl

/-- In the later workspace, a project is a copy of an earlier one. -/
structure Copies (ws next : Workspace) (old made : Project) : Prop where
  sourceFolders : made.sourceFolders = old.sourceFolders
  classpath : made.classpath = old.classpath
  module : made.module = old.module
  texts : made.texts next.contents = old.texts ws.contents
  sources : ∀ {path file file'}, old.file? path = some file → made.file? path = some file' →
    next.source? file' = (ws.source? file).map fun unit => .ofText file' made.name path unit.text
  packages : made.packages = old.packages
  types : ∀ name, Option.Rel (old.SamePlace made) (old.lookup? name) (made.lookup? name)

/-- **Projects with the same configuration and texts** are copies of each other, with their tables of
types and packages. -/
theorem copies_of_texts (h : ws.FilesInStep) (h' : next.FilesInStep)
    (hold : ws.project? source = some old) (hmade : next.project? target = some made)
    (hconfig : made.configAs target = old.configAs target)
    (htexts : made.texts next.contents = old.texts ws.contents) : Copies ws next old made := by
  obtain ⟨-, hfolders, hclasspath, hmodule⟩ := ProjectConfig.mk.inj hconfig
  have hunits := parsedUnits_relocate h h' hold hmade hfolders htexts
  have hsame : ∀ unit ∈ old.parsedUnits ws.sources, (made.relocate unit).unit? = unit.unit? :=
    fun unit hunit => unit?_relocate h (h.file?_of_mem_parsedUnits hold hunit).1
  refine ⟨hfolders, hclasspath, hmodule, htexts, ?_, ?_, fun name => ?_⟩
  · intro path file file' hfile hfile'
    obtain ⟨found, hfound, htext⟩ := exists_file?_of_texts htexts hfile
    obtain rfl := Option.some.inj (hfile'.symm.trans hfound)
    have hunit : made.isCompilationUnit path = old.isCompilationUnit path := by
      rw [Project.isCompilationUnit, Project.isCompilationUnit, hfolders]
    rw [h'.source?_of_fileAt? ((fileAt?_of_project hmade path).trans hfile'),
      h.source?_of_fileAt? ((fileAt?_of_project hold path).trans hfile), htext,
      isUnitAt_of_project hmade, isUnitAt_of_project hold, hunit, (h'.project_name hmade).1]
    split
    · rw [Option.map_map]
      rfl
    · rfl
  · have hpackages : Project.packagesOf (made.parsedUnits next.sources) = made.packages :=
      congrArg Project.packages (h'.upToDate hmade)
    have hpackages' : Project.packagesOf (old.parsedUnits ws.sources) = old.packages :=
      congrArg Project.packages (h.upToDate hold)
    rw [← hpackages, ← hpackages', hunits, Project.packagesOf, Project.packagesOf, List.filter_map,
      List.flatMap_map, List.filter_congr fun unit hunit => by rw [Function.comp, hsame unit hunit]]
    refine congrArg List.eraseDups (List.flatMap_congr fun unit hunit => ?_)
    rw [SourceFile.package, hsame unit (List.mem_filter.1 hunit).1, SourceFile.package]
  · rw [h.lookup?_eq hold, h'.lookup?_eq hmade, hunits, List.findSome?_map]
    -- the first unit that declares the type is the same in both projects
    refine rel_findSome? fun unit hunit => ?_
    obtain ⟨hsource, hfile⟩ := h.file?_of_mem_parsedUnits hold hunit
    obtain ⟨file', hfile', -⟩ := exists_file?_of_texts htexts hfile
    rw [Function.comp, types_relocate h hsource, List.find?_map, hfile', Option.getD_some]
    have hfind : unit.types.find? ((fun info => info.qualifiedName == name) ∘
        DeclaredType.withOrigin (.source file')) =
          unit.types.find? fun info => info.qualifiedName == name := rfl
    rw [hfind]
    cases hinfo : unit.types.find? fun info => info.qualifiedName == name with
    | none => exact .none
    | some info =>
      have horigin := (h.namedIn_source hsource (List.mem_of_find?_eq_some hinfo)).origin_eq
      exact .some ⟨rfl, unit.path, unit.id, file', hfile, hfile', horigin, rfl⟩

/-! ## The files of a copy -/

/-- The text of the file at a path of a project, if there is a file. -/
def textAt? (ws : Workspace) (name path : String) : Option (Option String) :=
  (ws.fileAt? name path).map fun file => ws.contents.get? file.index

/-- What copying files into a project does: these files are there with their texts, and projects and
files that were there before are as they were. -/
structure Filled (ws next : Workspace) (target : String) (entries : List (String × FileId)) :
    Prop where
  others : ∀ name, name ≠ target → next.project? name = ws.project? name
  config : ∀ {project}, ws.project? target = some project → ∃ made,
    next.project? target = some made ∧ made.id = project.id ∧
      made.configAs target = project.configAs target
  next_le : ws.ids.nextFile ≤ next.ids.nextFile
  contents : ∀ index < ws.ids.nextFile, next.contents.get? index = ws.contents.get? index
  sources : ∀ index < ws.ids.nextFile, next.sources.get? index = ws.sources.get? index
  texts : ∀ path, next.textAt? target path = match entries.find? fun e => e.1 = path with
    | some e => some (ws.contents.get? e.2.index)
    | none => ws.textAt? target path

theorem Filled.nil (ws : Workspace) (target : String) : Filled ws ws target [] where
  others _ _ := rfl
  config hproject := ⟨_, hproject, rfl, rfl⟩
  next_le := Nat.le_refl _
  contents _ _ := rfl
  sources _ _ := rfl
  texts _ := rfl

/-- The texts of a project after a new file. -/
theorem Touches.textAt? {rel text : String}
    (t : Touches ws next project rel ⟨ws.ids.nextFile⟩ (some text)) (path : String) :
    next.textAt? project.name path =
      if path = rel then some (some text) else ws.textAt? project.name path := by
  rw [Workspace.textAt?, t.fileAt?]
  by_cases hpath : path = rel
  · rw [if_pos ⟨rfl, hpath⟩, if_pos hpath, Option.map_some, Option.map_some, t.contents, if_pos rfl]
  · rw [if_neg fun heq => hpath heq.2, if_neg hpath, Workspace.textAt?]
    cases hfile : ws.fileAt? project.name path with
    | none => rfl
    | some file =>
      have hne : file.index ≠ ws.ids.nextFile := t.index_ne hfile fun heq => hpath heq.2
      rw [Option.map_some, Option.map_some, t.contents, if_neg hne]

/-- **One file more** is copied before the others. -/
theorem Filled.cons {rel text : String} {file : FileId} {rest : List (String × FileId)}
    (t : Touches ws mid project rel ⟨ws.ids.nextFile⟩ (some text))
    (htext : ws.contents.get? file.index = some text)
    (hrest : ∀ e ∈ rest, rel ≠ e.1 ∧ e.2.index < ws.ids.nextFile)
    (hfilled : Filled mid next project.name rest) :
    Filled ws next project.name ((rel, file) :: rest) where
  others name hne := by
    rw [hfilled.others name hne, t.projects, if_neg hne]
  config := by
    intro found hfound
    obtain rfl := Option.some.inj (t.project_eq.symm.trans hfound)
    have hmid := t.projects project.name
    rw [if_pos rfl] at hmid
    obtain ⟨made, hmade, hid, hconfig⟩ := hfilled.config hmid
    exact ⟨made, hmade, hid, hconfig⟩
  next_le := t.next_le.trans hfilled.next_le
  contents index hindex := by
    rw [hfilled.contents index (hindex.trans_le t.next_le), t.contents, if_neg hindex.ne]
  sources index hindex := by
    rw [hfilled.sources index (hindex.trans_le t.next_le), t.sources, if_neg hindex.ne]
  texts path := by
    rw [hfilled.texts, List.find?_cons]
    by_cases hpath : rel = path
    · have hnone : rest.find? (fun e => e.1 = path) = none := by
        rw [List.find?_eq_none]
        intro e he
        rw [decide_eq_true_eq, ← hpath]
        exact fun heq => (hrest e he).1 heq.symm
      rw [hnone, decide_eq_true hpath]
      dsimp only
      rw [t.textAt?, if_pos hpath.symm, htext]
    · rw [decide_eq_false hpath]
      cases hfind : rest.find? fun e => e.1 = path with
      | none =>
        dsimp only
        rw [t.textAt?, if_neg (Ne.symm hpath)]
      | some e =>
        have hindex := (hrest e (List.mem_of_find?_eq_some hfind)).2
        dsimp only
        rw [t.contents, if_neg hindex.ne]

/-- **Files are copied** if they are there and their paths are free, by induction on the list of
them. -/
theorem exists_copyFiles (source : String) (h : ws.FilesInStep)
    (hproject : ws.project? target = some project)
    {entries : List (String × FileId)} (hnodup : entries.Pairwise fun a b => a.1 ≠ b.1)
    (hold : ∀ e ∈ entries, ws.HasFile e.2) (hnew : ∀ e ∈ entries, ws.fileAt? target e.1 = none)
    (hpath : ∀ e ∈ entries, IsFilePath e.1) :
    ∃ next, copyFiles source target entries ws = .ok next ∧ next.FilesInStep ∧
      Filled ws next target entries := by
  induction entries generalizing ws project with
  | nil => exact ⟨ws, rfl, h, .nil ws target⟩
  | cons entry rest ih =>
    obtain ⟨rel, file⟩ := entry
    obtain rfl := (h.project_name hproject).1
    obtain ⟨hfirst, hnodup⟩ := List.pairwise_cons.1 hnodup
    obtain ⟨text, htext⟩ := h.contents_iff.2 (hold _ List.mem_cons_self)
    have hfree : project.file? rel = none := by
      rw [← fileAt?_of_project hproject]
      exact hnew _ List.mem_cons_self
    have t : Touches ws (ws.addFile project rel text).2 project rel _ (some text) :=
      touches_addFile h hproject hfree (hpath _ List.mem_cons_self)
    have hproject' := t.projects project.name
    rw [if_pos rfl] at hproject'
    have hlt : ∀ e ∈ rest, e.2.index < ws.ids.nextFile := fun e he => by
      obtain ⟨name, path, hfile⟩ := hold e (List.mem_cons_of_mem _ he)
      exact h.file_lt hfile
    have hold' : ∀ e ∈ rest, (ws.addFile project rel text).2.HasFile e.2 := fun e he => by
      obtain ⟨name, path, hfile⟩ := hold e (List.mem_cons_of_mem _ he)
      refine ⟨name, path, ?_⟩
      rw [t.fileAt?, if_neg, hfile]
      rintro ⟨rfl, rfl⟩
      rw [fileAt?_of_project hproject, hfree] at hfile
      cases hfile
    have hnew' : ∀ e ∈ rest, (ws.addFile project rel text).2.fileAt? project.name e.1 = none :=
      fun e he => by
        rw [t.fileAt?, if_neg fun heq => hfirst e he heq.2.symm]
        exact hnew e (List.mem_cons_of_mem _ he)
    obtain ⟨next, hcopy, hnext, hfilled⟩ := ih (t.filesInStep h) hproject' hnodup hold' hnew'
      fun e he => hpath e (List.mem_cons_of_mem _ he)
    refine ⟨next, ?_, hnext, .cons t htext (fun e he => ⟨hfirst e he, hlt e he⟩) hfilled⟩
    rw [copyFiles, htext]
    simp only [requireProject_eq_ok_iff.2 hproject, bind, Except.bind]
    exact hcopy

/-! ## The copy of a project -/

/-- A new project has the next number. -/
theorem id_of_createProject {config : ProjectConfig} {id : ProjectId}
    (hc : ws.createProject config = .ok (id, next)) : id = ws.ids.project.1 := by
  unfold createProject at hc
  split at hc
  · cases hc
  · split at hc
    · cases hc
    · exact (Prod.mk.inj (Except.ok.inj hc)).1.symm

/-- The texts of a project are found by name and path. -/
theorem get?_texts (hproject : ws.project? name = some project) (path : String) :
    (project.texts ws.contents).get? path = ws.textAt? name path := by
  rw [Project.texts, Table.get?_mapValues, textAt?, fileAt?_of_project hproject]
  rfl

/-- What the copy of a project is, and that there is no other change. -/
structure CopyMade (ws next : Workspace) (old : Project) (target : String) (id : ProjectId) :
    Prop where
  others : ∀ name, name ≠ target → next.project? name = ws.project? name
  contents : ∀ index < ws.ids.nextFile, next.contents.get? index = ws.contents.get? index
  sources : ∀ index < ws.ids.nextFile, next.sources.get? index = ws.sources.get? index
  made : ∃ made, next.project? target = some made ∧ made.id = id ∧
    made.configAs target = old.configAs target ∧ made.texts next.contents = old.texts ws.contents

/-- **A project is copied** whenever a project of the new name can be made. -/
theorem exists_copyProject (h : ws.FilesInStep) (hold : ws.project? source = some old)
    {id : ProjectId} {created : Workspace}
    (hc : ws.createProject (old.configAs target) = .ok (id, created)) :
    ∃ next, ws.copyProject source target = .ok (id, next) ∧ next.FilesInStep ∧
      CopyMade ws next old target id := by
  obtain ⟨made, folders, hget, hmade, -, hcopy⟩ := copyProject_of_createProject hold hc
  obtain ⟨-, hnew, hcreated⟩ := createProject_ok hc
  set filled : Workspace := { created with
    projects := created.projects.insert target { made with folders := folders } } with hfilled
  have hself : filled.project? target = some { made with folders := folders } :=
    Table.get?_insert_self _ _ _
  have hothers : ∀ name, name ≠ target → filled.project? name = ws.project? name := by
    intro name hne
    have hne' : name ≠ (old.configAs target).name := hne
    simp only [hfilled, hcreated, project?, Table.get?_insert]
    rw [if_neg hne, if_neg hne']
  have hempty : ∀ path, filled.fileAt? target path = none := fun path => by
    rw [fileAt?_of_project hself, hmade]
    rfl
  have hplace : ∀ e ∈ old.files.entries, ws.fileAt? source e.1 = some e.2 := fun e he =>
    (fileAt?_of_project hold e.1).trans (Table.mem_entries_iff.1 he)
  have hsource : source ≠ target := by
    rintro rfl
    exact absurd (hnew.symm.trans hold) (by simp)
  obtain ⟨next, hfiles, hnext, hfill⟩ := exists_copyFiles source
    ((h.createProject hc).setFolders hget folders) hself old.files.entries_nodup
    (fun e he => ⟨source, e.1, by rw [fileAt?, hothers source hsource]; exact hplace e he⟩)
    (fun e _ => hempty e.1) (fun e he => h.file_path (hplace e he))
  have hids : filled.ids.nextFile = ws.ids.nextFile := by rw [hfilled, hcreated]; rfl
  have hcontents : filled.contents = ws.contents := by rw [hfilled, hcreated]
  have hsources : filled.sources = ws.sources := by rw [hfilled, hcreated]
  refine ⟨next, by rw [hcopy, hfiles]; rfl, hnext, ⟨fun name hne => ?_, fun index hindex => ?_,
    fun index hindex => ?_, ?_⟩⟩
  · rw [hfill.others name hne, hothers name hne]
  · rw [hfill.contents index (hids ▸ hindex), hcontents]
  · rw [hfill.sources index (hids ▸ hindex), hsources]
  · obtain ⟨copy, hproject, hid, hconfig⟩ := hfill.config hself
    refine ⟨copy, hproject, ?_, hconfig.trans ?_, Table.ext_get? fun path => ?_⟩
    · rw [hid, id_of_createProject hc, hmade]
      rfl
    · rw [hmade]
      rfl
    · have htext : (old.texts ws.contents).get? path =
          (old.files.entries.find? fun e => e.1 = path).map fun e =>
            filled.contents.get? e.2.index := by
        rw [Project.texts, Table.get?_mapValues, Table.get?, Option.map_map, hcontents]
        rfl
      rw [get?_texts hproject, hfill.texts, htext]
      cases old.files.entries.find? fun e => e.1 = path with
      | none => exact congrArg (Option.map _) (hempty path)
      | some e => rfl

/-- A copy that succeeds is the copy that is described. -/
theorem copyMade_of_copyProject (h : ws.FilesInStep) {id : ProjectId}
    (hok : ws.copyProject source target = .ok (id, next)) :
    ∃ old, ws.project? source = some old ∧ next.FilesInStep ∧ CopyMade ws next old target id := by
  obtain ⟨old, created, made, folders, hold, hc, -⟩ := copyProject_ok hok
  obtain ⟨next', hok', hnext, hmade⟩ := exists_copyProject h hold hc
  obtain ⟨-, rfl⟩ := Prod.mk.inj (Except.ok.inj (hok.symm.trans hok'))
  exact ⟨old, hold, hnext, hmade⟩

/-- **A copy fails** only when there is nothing to copy or no project of the new name can be made. -/
theorem copyProject_error (h : ws.FilesInStep) {e : Error}
    (herror : ws.copyProject source target = .error e) :
    e = .projectNotFound source ∧ ws.project? source = none ∨
      (∃ old, ws.project? source = some old) ∧
        (e = .invalidPath target ∧ (target = "" ∨ '/' ∈ target.toList) ∨
          e = .projectExists target ∧ ∃ other, ws.project? target = some other) := by
  cases hold : ws.project? source with
  | none =>
    left
    rw [copyProject, requireProject, hold] at herror
    exact ⟨(Except.error.inj herror).symm, rfl⟩
  | some old =>
    right
    refine ⟨⟨old, rfl⟩, ?_⟩
    cases hc : ws.createProject (old.configAs target) with
    | ok made =>
      obtain ⟨next, hok, -⟩ := exists_copyProject h hold hc
      rw [hok] at herror
      cases herror
    | error e' =>
      have heq : e' = e := by
        rw [copyProject, requireProject_eq_ok_iff.2 hold] at herror
        simp only [bind, Except.bind, hc] at herror
        exact Except.error.inj herror
      subst heq
      unfold createProject at hc
      split at hc
      next hname => exact Or.inl ⟨(Except.error.inj hc).symm, hname⟩
      next =>
        split at hc
        next hexists =>
          exact Or.inr ⟨(Except.error.inj hc).symm, Table.contains_iff.1 hexists⟩
        next => cases hc

/-! ## After any edits -/

/-- The types that a project's table holds are types of its units. -/
theorem FilesInStep.mem_projectTypes_of_lookup? (h : ws.FilesInStep)
    (hproject : ws.project? name = some project) {qualifiedName : String} {key : TypeKey}
    (hkey : project.lookup? qualifiedName = some key) : key ∈ ws.projectTypes name := by
  rw [h.lookup?_eq hproject] at hkey
  obtain ⟨unit, hunit, hfound⟩ := List.exists_of_findSome?_eq_some hkey
  obtain ⟨info, hinfo, rfl⟩ := Option.map_eq_some_iff.1 hfound
  rw [projectTypes, hproject]
  exact List.mem_flatMap.2 ⟨unit, hunit, List.mem_map_of_mem (List.mem_of_find?_eq_some hinfo)⟩

/-- The types of a project are declared in its files. -/
theorem FilesInStep.file?_of_mem_projectTypes (h : ws.FilesInStep)
    (hproject : ws.project? name = some project) {key : TypeKey}
    (hkey : key ∈ ws.projectTypes name) :
    ∃ path file, project.file? path = some file ∧ key.origin = .source file := by
  rw [projectTypes, hproject] at hkey
  obtain ⟨unit, hunit, hkey⟩ := List.mem_flatMap.1 hkey
  obtain ⟨info, hinfo, rfl⟩ := List.mem_map.1 hkey
  obtain ⟨hsource, hfile⟩ := h.file?_of_mem_parsedUnits hproject hunit
  exact ⟨unit.path, unit.id, hfile, (h.namedIn_source hsource hinfo).origin_eq⟩

/-- **Files outside of the copy** are as they were. -/
theorem CopyMade.same_file (h : ws.FilesInStep) (h' : next.FilesInStep) {id : ProjectId}
    (hcopy : CopyMade ws next old target id) (hmade : next.project? target = some made)
    {file : FileId} (hfile : ∀ path, made.file? path ≠ some file) :
    next.contents.get? file.index = ws.contents.get? file.index ∧
      next.source? file = ws.source? file := by
  by_cases hlt : file.index < ws.ids.nextFile
  · exact ⟨hcopy.contents _ hlt, hcopy.sources _ hlt⟩
  · -- a number that had not been given out belongs to the copy
    have hgone : ¬ws.HasFile file := by
      rintro ⟨name, path, hat⟩
      exact hlt (h.file_lt hat)
    have hgone' : ¬next.HasFile file := by
      rintro ⟨name, path, hat⟩
      by_cases hname : name = target
      · subst hname
        rw [fileAt?_of_project hmade] at hat
        exact hfile path hat
      · rw [fileAt?, hcopy.others name hname] at hat
        exact hgone ⟨name, path, hat⟩
    have hnone : ∀ {ws : Workspace}, ws.FilesInStep → ¬ws.HasFile file →
        ws.contents.get? file.index = none := fun h hgone => by
      by_contra hsome
      exact hgone (h.contents_iff.1 (Option.ne_none_iff_exists'.1 hsome))
    rw [hnone h hgone, hnone h' hgone', h.source?_of_not_hasFile hgone,
      h'.source?_of_not_hasFile hgone']
    exact ⟨rfl, rfl⟩

/-- **The copy of a project** in a reachable workspace. If it succeeds, the new project has the
configuration, the texts, the parsed forms, the packages and the types of the original, each type at
the same path; its files and types are none of the files and types that were there; and the other
projects, all other files, the archives and the variables are as they were. It fails only when there
is no project to copy, or the new name is bad or taken. -/
theorem copyProject_afterAll (edits : List Edit) (source target : String) :
    let ws := initial.afterAll edits
    (∀ id next, ws.copyProject source target = .ok (id, next) →
      ∃ old made, ws.project? source = some old ∧ next.project? target = some made ∧
        made.id = id ∧ Copies ws next old made ∧
        (∀ path file, made.file? path = some file → ¬ws.HasFile file) ∧
        (∀ name key, made.lookup? name = some key → key ∈ next.projectTypes target) ∧
        (∀ key ∈ next.projectTypes target, key ∉ ws.typeKeys) ∧
        (∀ name, name ≠ target → next.project? name = ws.project? name) ∧
        (∀ file, (∀ path, made.file? path ≠ some file) →
          next.contents.get? file.index = ws.contents.get? file.index ∧
            next.source? file = ws.source? file) ∧
        next.archives = ws.archives ∧ next.vars = ws.vars) ∧
    ∀ e, ws.copyProject source target = .error e →
      e = .projectNotFound source ∧ ws.project? source = none ∨
        (∃ old, ws.project? source = some old) ∧
          (e = .invalidPath target ∧ (target = "" ∨ '/' ∈ target.toList) ∨
            e = .projectExists target ∧ ∃ other, ws.project? target = some other) := by
  intro ws
  have h : ws.InStep := inStep_afterAll edits
  refine ⟨fun id next hok => ?_, fun e herror => copyProject_error h.files herror⟩
  obtain ⟨old, hold, h', hcopy⟩ := copyMade_of_copyProject h.files hok
  obtain ⟨made, hmade, hid, hconfig, htexts⟩ := hcopy.made
  have hnew : ∀ path file, made.file? path = some file → ¬ws.HasFile file := by
    intro path file hfile
    have hat : next.fileAt? target path = some file :=
      (fileAt?_of_project hmade path).trans hfile
    obtain ⟨copied, created, -, -, -, hc, -⟩ := copyProject_ok hok
    have hfree : ws.project? target = none := (createProject_ok hc).2.1
    rcases (KeepsFiles.copyProject h.files hok).old_or_new hat with hbefore | hlater
    · rw [fileAt?, hfree] at hbefore
      cases hbefore
    · exact (KeepsFiles.refl ws).not_hasFile h.files hlater
  have hsame := SameArchives.copyProject hok
  refine ⟨old, made, hold, hmade, hid, copies_of_texts h.files h' hold hmade hconfig htexts, hnew,
    fun name key hkey => h'.mem_projectTypes_of_lookup? hmade hkey, fun key hkey hlisted => ?_,
    hcopy.others, fun file hfile => hcopy.same_file h.files h' hmade hfile, hsame.archives,
    hsame.vars⟩
  obtain ⟨path, file, hfile, horigin⟩ := h'.file?_of_mem_projectTypes hmade hkey
  obtain ⟨info, hinfo⟩ := h.mem_typeKeys_iff.1 hlisted
  rw [h.files.declared?_eq_none (hnew path file hfile) horigin] at hinfo
  cases hinfo

/-- A project with two units that declare a type of one name, and with a file that is no unit. -/
def copiedNamesakes : List Edit :=
  [.createProject ⟨"P", ["src"], [.project "Q" true], none⟩,
    .createFile "/P/src/A.java" "package p; class A \x7b\x7d",
    .createFile "/P/src/B.java" "package p; class A \x7b\x7d",
    .createFile "/P/notes.txt" "class A"]

/-- The type of the copy is declared in its first unit, as that of the original is. -/
theorem copyProject_copiedNamesakes :
    ∃ id next made, (initial.afterAll copiedNamesakes).copyProject "P" "R" = .ok (id, next) ∧
      next.project? "R" = some made ∧ made.classpath = [.project "Q" true] ∧
      made.lookup? "p.A" = some ⟨.source ⟨4⟩, "p.A"⟩ ∧
      made.file? "src/A.java" = some ⟨4⟩ ∧ ¬(initial.afterAll copiedNamesakes).HasFile ⟨4⟩ := by
  have hcopied : (((initial.afterAll copiedNamesakes).copyProject "P" "R").toOption.bind fun copy =>
      copy.2.project? "R").map (fun made => (made.lookup? "p.A", made.file? "src/A.java")) =
        some (some ⟨.source ⟨4⟩, "p.A"⟩, some ⟨4⟩) := by
    decide +kernel
  have hclasspath : ((initial.afterAll copiedNamesakes).project? "P").map (·.classpath) =
      some [.project "Q" true] := by
    decide +kernel
  cases hok : (initial.afterAll copiedNamesakes).copyProject "P" "R" with
  | error e =>
    rw [hok] at hcopied
    cases hcopied
  | ok copy =>
    obtain ⟨id, next⟩ := copy
    obtain ⟨old, made, hold, hmade, -, hcopies, hnew, -⟩ :=
      (copyProject_afterAll copiedNamesakes "P" "R").1 id next hok
    rw [hok] at hcopied
    have hfound : ((next.project? "R").map fun made =>
        (made.lookup? "p.A", made.file? "src/A.java")) =
          some (some ⟨.source ⟨4⟩, "p.A"⟩, some ⟨4⟩) := hcopied
    rw [hmade, Option.map_some, Option.some.injEq, Prod.mk.injEq] at hfound
    rw [hold, Option.map_some, Option.some.injEq] at hclasspath
    exact ⟨id, next, made, rfl, hmade, hcopies.classpath.trans hclasspath, hfound.1, hfound.2,
      hnew _ _ hfound.2⟩

end Workspace

end SourceSearch
