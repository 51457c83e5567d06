import SourceSearch.Proofs.Dependents
import SourceSearch.Proofs.Providers

/-!
# What an edit leaves alone

An edit concerns the projects that it makes, takes away or changes (`Edit.Concerns`). Every other
project is left alone (`sameArchives_and_leavesAlone`): its record stays, and so do the texts and
the parsed forms of its files, since no other project has a file of the same number.

The environment of a project looks into other projects too, but only into those that its
requirements lead to. So if they do not lead to a project that the edit concerns, not even to its
name, the providers stay (`Environment.providers_eq`), and with them every answer that the
environment gives to anybody (`Environment.lookupFor?_eq`).
-/

set_option autoImplicit false

namespace SourceSearch

/-- The edit makes the project of the name, takes it away, or changes a file or a folder of it. -/
def Edit.Concerns (ws : Workspace) (name : String) : Edit → Prop
  | .createProject config => config.name = name
  | .deleteProject gone => gone = name
  | .deleteProjects names => name ∈ names ∧ ∃ project, ws.project? name = some project
  | .copyProject _ target => target = name
  | .createFolder path | .createFile path _ | .setFile path _ | .deleteFile path =>
    ∃ rel, Workspace.splitPath path = .ok (name, rel)
  | .registerArchive _ _ _ | .setVariable _ _ => False

namespace Workspace

variable {ws next : Workspace} {name : String}

/-- The project of the name is as it was, if it was there, and so are its files. -/
structure LeavesAlone (ws next : Workspace) (name : String) : Prop where
  project_eq : next.project? name = ws.project? name
  contents_eq : ∀ {path file}, ws.fileAt? name path = some file →
    next.contents.get? file.index = ws.contents.get? file.index
  source_eq : ∀ {path file}, ws.fileAt? name path = some file → next.source? file = ws.source? file

namespace LeavesAlone

theorem refl (ws : Workspace) (name : String) : LeavesAlone ws ws name :=
  ⟨rfl, fun _ => rfl, fun _ => rfl⟩

theorem fileAt?_eq (h : LeavesAlone ws next name) (path : String) :
    next.fileAt? name path = ws.fileAt? name path := by
  rw [fileAt?, h.project_eq, fileAt?]

theorem trans {mid : Workspace} (h : LeavesAlone ws mid name) (h' : LeavesAlone mid next name) :
    LeavesAlone ws next name where
  project_eq := h'.project_eq.trans h.project_eq
  contents_eq hf := (h'.contents_eq (by rw [h.fileAt?_eq, hf])).trans (h.contents_eq hf)
  source_eq hf := (h'.source_eq (by rw [h.fileAt?_eq, hf])).trans (h.source_eq hf)

/-- Where no file changes, only the record of the project matters. -/
theorem of_sameFiles (hproject : next.project? name = ws.project? name)
    (hcontents : next.contents = ws.contents) (hsources : next.sources = ws.sources) :
    LeavesAlone ws next name :=
  ⟨hproject, fun _ => by rw [hcontents], fun _ => by rw [source?, source?, hsources]⟩

/-! ## One edit -/

/-- Another record under another name. -/
theorem insert {other : String} {project : Project} (ids : IdSupply) (hne : name ≠ other) :
    LeavesAlone ws { ws with ids := ids, projects := ws.projects.insert other project } name := by
  refine of_sameFiles ?_ rfl rfl
  rw [project?, Table.get?_insert, if_neg hne, project?]

/-- **A change of one file** leaves alone all projects but that of the file. -/
theorem of_touches {project : Project} {rel : String} {file : FileId} {text? : Option String}
    (t : Touches ws next project rel file text?) (hne : name ≠ project.name) :
    LeavesAlone ws next name where
  project_eq := by rw [t.projects, if_neg hne]
  contents_eq hf := by rw [t.contents, if_neg (t.index_ne hf fun heq => hne heq.1)]
  source_eq hf := by rw [source?, t.sources, if_neg (t.index_ne hf fun heq => hne heq.1), source?]

theorem createProject {config : ProjectConfig} {id : ProjectId} (hne : config.name ≠ name)
    (hok : ws.createProject config = .ok (id, next)) : LeavesAlone ws next name := by
  obtain ⟨-, -, rfl⟩ := createProject_ok hok
  exact insert _ hne.symm

/-- The files that go with a project are files of no other one. -/
theorem deleteProject (h : ws.FilesInStep) {gone : String} (hne : gone ≠ name)
    (hok : ws.deleteProject gone = .ok next) : LeavesAlone ws next name := by
  obtain ⟨project, hproject, rfl⟩ := deleteProject_ok hok
  have hstays : ∀ {path file}, ws.fileAt? name path = some file →
      file.index ∉ project.files.values.map (·.index) := by
    rintro path ⟨index⟩ hf hmem
    obtain ⟨⟨other⟩, hother, rfl⟩ := List.mem_map.1 hmem
    obtain ⟨path', hlisted⟩ := Table.mem_values_iff.1 hother
    have hf' : ws.fileAt? gone path' = some ⟨other⟩ := by
      rw [fileAt?_of_project hproject]
      exact hlisted
    exact hne (h.file_unique hf' hf).1
  exact {
    project_eq := by rw [project?, Table.get?_erase, if_neg hne.symm, project?]
    contents_eq := fun hf => by rw [Table.get?_foldl_erase, if_neg (hstays hf)]
    source_eq := fun hf => by rw [source?, Table.get?_foldl_erase, if_neg (hstays hf), source?] }

/-- A project is left alone if it is not among those to be taken away, or is not there. -/
theorem deleteProjects (h : ws.FilesInStep) {names : List String}
    (hnot : ¬(name ∈ names ∧ ∃ project, ws.project? name = some project))
    (hok : ws.deleteProjects names = .ok next) : LeavesAlone ws next name := by
  refine (deleteProjects_induction (P := fun mid => mid.FilesInStep ∧ LeavesAlone ws mid name)
    ⟨h, refl ws name⟩ ?_ hok).2
  rintro mid after gone ⟨hmid, halone⟩ hgone hone
  refine ⟨hmid.deleteProject hone, halone.trans (deleteProject hmid ?_ hone)⟩
  rintro rfl
  obtain ⟨project, hproject, -⟩ := deleteProject_ok hone
  exact hnot ⟨hgone, project, halone.project_eq ▸ hproject⟩

theorem copyProject (h : ws.FilesInStep) {source target : String} {id : ProjectId}
    (hne : target ≠ name) (hok : ws.copyProject source target = .ok (id, next)) :
    LeavesAlone ws next name := by
  refine (copyProject_induction (P := fun mid => LeavesAlone ws mid name) h ?_ ?_ ?_ hok).2
  · intro config made mid hname hcreate
    exact createProject (hname ▸ hne) hcreate
  · intro mid project folders hmid _
    exact hmid.trans (insert _ hne.symm)
  · intro mid after project rel text hmid hname t
    exact hmid.trans (of_touches t (hname ▸ hne.symm))

/-- A path names one project. -/
theorem ne_of_splitPath {path other rel : String}
    (hne : ¬∃ rel, splitPath path = .ok (name, rel)) (hsplit : splitPath path = .ok (other, rel)) :
    name ≠ other := by
  rintro rfl
  exact hne ⟨rel, hsplit⟩

theorem createFolder {path : String} (hne : ¬∃ rel, splitPath path = .ok (name, rel))
    (hok : ws.createFolder path = .ok next) : LeavesAlone ws next name := by
  obtain ⟨other, rel, project, hsplit, -, -, -, -, rfl⟩ := createFolder_ok hok
  exact insert _ (ne_of_splitPath hne hsplit)

theorem createFile (h : ws.FilesInStep) {path text : String} {id : FileId}
    (hne : ¬∃ rel, splitPath path = .ok (name, rel))
    (hok : ws.createFile path text = .ok (id, next)) : LeavesAlone ws next name := by
  obtain ⟨other, rel, project, hsplit, hrel, hp, hfree, -, -, heq⟩ := createFile_ok hok
  obtain rfl : next = (ws.addFile project rel text).2 := congrArg Prod.snd heq
  obtain rfl := (h.project_name hp).1
  exact of_touches (touches_addFile h hp hfree ((of_splitPath hsplit).2 hrel))
    (ne_of_splitPath hne hsplit)

theorem setFile (h : ws.FilesInStep) {path text : String}
    (hne : ¬∃ rel, splitPath path = .ok (name, rel))
    (hok : ws.setFile path text = .ok next) : LeavesAlone ws next name := by
  obtain ⟨other, rel, project, file, hsplit, hp, hfile, rfl⟩ := setFile_ok hok
  obtain rfl := (h.project_name hp).1
  exact of_touches (touches_setFile h hp hfile) (ne_of_splitPath hne hsplit)

theorem deleteFile (h : ws.FilesInStep) {path : String}
    (hne : ¬∃ rel, splitPath path = .ok (name, rel))
    (hok : ws.deleteFile path = .ok next) : LeavesAlone ws next name := by
  obtain ⟨other, rel, project, file, hsplit, hp, hfile, rfl⟩ := deleteFile_ok hok
  obtain rfl := (h.project_name hp).1
  exact of_touches (touches_deleteFile h hp hfile) (ne_of_splitPath hne hsplit)

end LeavesAlone

/-- **An edit of projects or files** that succeeds touches no archive and no variable, and leaves
alone the projects that it does not concern. -/
theorem sameArchives_and_leavesAlone (h : ws.FilesInStep) {edit : Edit} {made : Edit.Made}
    {edited : String} (hok : ws.apply edit = .ok (made, next))
    (hconcerns : edit.Concerns ws edited) :
    SameArchives ws next ∧ ∀ {name}, ¬edit.Concerns ws name → LeavesAlone ws next name := by
  cases edit with
  | createProject config =>
    obtain ⟨⟨id, after⟩, hedit, hok⟩ := bind_eq_ok_iff.1 hok
    cases hok
    exact ⟨.createProject hedit, fun hnot => .createProject hnot hedit⟩
  | deleteProject gone =>
    obtain ⟨after, hedit, hok⟩ := bind_eq_ok_iff.1 hok
    cases hok
    exact ⟨.deleteProject hedit, fun hnot => .deleteProject h hnot hedit⟩
  | deleteProjects names =>
    obtain ⟨after, hedit, hok⟩ := bind_eq_ok_iff.1 hok
    cases hok
    exact ⟨.deleteProjects hedit, fun hnot => .deleteProjects h hnot hedit⟩
  | copyProject source target =>
    obtain ⟨⟨id, after⟩, hedit, hok⟩ := bind_eq_ok_iff.1 hok
    cases hok
    exact ⟨.copyProject hedit, fun hnot => .copyProject h hnot hedit⟩
  | createFolder path =>
    obtain ⟨after, hedit, hok⟩ := bind_eq_ok_iff.1 hok
    cases hok
    exact ⟨.createFolder hedit, fun hnot => .createFolder hnot hedit⟩
  | createFile path text =>
    obtain ⟨⟨id, after⟩, hedit, hok⟩ := bind_eq_ok_iff.1 hok
    cases hok
    exact ⟨.createFile hedit, fun hnot => .createFile h hnot hedit⟩
  | setFile path text =>
    obtain ⟨after, hedit, hok⟩ := bind_eq_ok_iff.1 hok
    cases hok
    exact ⟨.setFile hedit, fun hnot => .setFile h hnot hedit⟩
  | deleteFile path =>
    obtain ⟨after, hedit, hok⟩ := bind_eq_ok_iff.1 hok
    cases hok
    exact ⟨.deleteFile hedit, fun hnot => .deleteFile h hnot hedit⟩
  | registerArchive path sources module => exact hconcerns.elim
  | setVariable variableName path => exact hconcerns.elim

/-! ## What a project can see -/

/-- A project mentions the names on its classpath only. -/
theorem mem_of_mentions {names : List String} {required : String}
    (hnames : (ws.project? name).map (·.requiredProjects) = some names)
    (h : ws.Mentions name required) : required ∈ names := by
  obtain ⟨project, hproject, hmem⟩ := h
  rw [hproject] at hnames
  exact Option.some.inj hnames ▸ hmem

theorem SameArchives.library? (h : SameArchives ws next) (entry : ClasspathEntry) :
    next.library? entry = ws.library? entry := by
  cases entry with
  | library path => rw [Workspace.library?, archiveAt?, h.archives, Workspace.library?, archiveAt?]
  | «variable» name =>
    simp only [Workspace.library?, h.vars]
    refine congrArg _ (funext fun path => ?_)
    rw [archiveAt?, h.archives, archiveAt?]
  | project name exported => rfl

theorem SameArchives.archive? (h : SameArchives ws next) (id : ArchiveId) :
    next.archive? id = ws.archive? id := by
  rw [Workspace.archive?, h.archives, Workspace.archive?]

/-- What a project can see is the same in both workspaces: the archives, and the projects to which
its requirements lead, even if there is no project of the name. -/
structure SameView (ws next : Workspace) (name : String) : Prop where
  archives : SameArchives ws next
  alone : ∀ {other}, Relation.ReflTransGen ws.Mentions name other → LeavesAlone ws next other

/-- The projects that are required see no more than the project that requires them. -/
theorem SameView.of_mentions {required : String} (h : SameView ws next name)
    (hmentions : ws.Mentions name required) : SameView ws next required :=
  ⟨h.archives, fun hchain => h.alone (.head hmentions hchain)⟩

theorem Sees.mentions {other : String} (h : ws.Sees name other) :
    Relation.ReflTransGen ws.Mentions name other :=
  Relation.ReflTransGen.mono (fun _ _ => Requires.mentions) _ _ h

end Workspace

open Workspace

variable {ws next : Workspace}

/-- A provider finds types of which both workspaces know the same. -/
theorem Provider.IsIn.packageOf_eq (h : ws.InStep) {name : String} {provider : Provider}
    (hview : SameView ws next name) (hprovider : provider.IsIn ws name) {qualifiedName : String}
    {key : TypeKey} (hkey : provider.lookup? qualifiedName = some key) :
    Environment.packageOf next key = Environment.packageOf ws key := by
  have hdeclared : next.declared? key = ws.declared? key := by
    cases provider with
    | sources project =>
      obtain ⟨source, info, hsource, hinfo, rfl, -⟩ := h.of_lookup? hprovider.1 hkey
      obtain ⟨hget, hproject⟩ := (h.files.mem_parsedUnits_iff hprovider.1).1 hsource
      obtain ⟨other, path, text, hfile, -, -, heq⟩ := h.files.source_iff.1 hget
      obtain rfl : other = project.name := by
        rw [heq] at hproject
        exact hproject
      rw [declared?, declared?, (h.files.namedIn_source hget hinfo).origin_eq]
      dsimp only
      rw [(hview.alone hprovider.2.mentions).source_eq hfile]
    | archive archive =>
      obtain ⟨path, hpath⟩ := hprovider
      obtain ⟨info, hinfo, rfl⟩ := Option.map_eq_some_iff.1 hkey
      rw [declared?, declared?,
        (h.archives.namedIn_archive hpath (List.mem_of_find?_eq_some hinfo)).origin_eq]
      dsimp only
      rw [hview.archives.archive?]
  rw [Environment.packageOf, hdeclared, Environment.packageOf]

namespace Environment

/-- **Expansion** runs alike in both workspaces from a project whose view is the same. -/
theorem expand_eq {fuel : Nat} {isRoot : Bool} {name : String} {project : Project}
    {providers : List Provider} (hview : SameView ws next name)
    (hproject : ws.project? name = some project) :
    expand next fuel isRoot project providers = expand ws fuel isRoot project providers := by
  induction fuel generalizing isRoot name project providers with
  | zero => rfl
  | succ fuel ih =>
    rw [expand_succ, expand_succ]
    refine if_congr Iff.rfl rfl (List.foldl_ext _ _ _ fun found entry hentry => ?_)
    cases entry with
    | project required exported =>
      have hmentions : ws.Mentions name required :=
        ⟨project, hproject, List.mem_filterMap.2 ⟨_, hentry, rfl⟩⟩
      have hrequired := hview.of_mentions hmentions
      rw [addEntry, addEntry, (hrequired.alone .refl).project_eq]
      cases hfound : ws.project? required with
      | none => rfl
      | some other =>
        dsimp only
        rw [ih hrequired hfound]
    | library path => simp only [addEntry, hview.archives.library?]
    | «variable» variableName => simp only [addEntry, hview.archives.library?]

/-- **The providers** of a project are the same if its view is. -/
theorem providers_eq (h : ws.FilesInStep) (h' : next.FilesInStep) {project : Project}
    (hview : SameView ws next project.name) (hproject : ws.project? project.name = some project) :
    (ofProject next project).providers = (ofProject ws project).providers := by
  have hproject' : next.project? project.name = some project := by
    rw [(hview.alone .refl).project_eq, hproject]
  -- the two workspaces may have different numbers of projects, so the fuel is made the same first
  rw [← expand_eq_providers h' hproject' (Nat.le_max_right ws.projects.entries.length _),
    ← expand_eq_providers h hproject (Nat.le_max_left _ next.projects.entries.length)]
  exact expand_eq hview hproject

/-- **Each answer** to a look-up of a type is the same if the view is. -/
theorem lookupFor?_eq (h : ws.InStep) (h' : next.FilesInStep) {project : Project}
    (hview : SameView ws next project.name) (hproject : ws.project? project.name = some project)
    (reader : Reader) (qualifiedName : String) :
    (ofProject next project).lookupFor? reader qualifiedName =
      (ofProject ws project).lookupFor? reader qualifiedName := by
  unfold lookupFor?
  rw [providers_eq h.files h' hview hproject, ← List.head?_filterMap, ← List.head?_filterMap]
  refine congrArg _ (List.filterMap_congr fun provider hmem => ?_)
  have hprovider := isIn_of_mem_providers h.files hproject provider hmem
  cases hkey : provider.lookup? qualifiedName with
  | none => rfl
  | some key =>
    show Option.filter (fun key => reader.sees provider.module (packageOf next key)) _ =
      Option.filter (fun key => reader.sees provider.module (packageOf ws key)) _
    rw [Option.filter_some, Option.filter_some, hprovider.packageOf_eq h hview hkey]

end Environment

/-! ## After any edits -/

/-- **The frame of an edit.** An edit of a reachable workspace that succeeds and concerns a project
leaves every project that it does not concern alone: the record, the texts and the parsed forms of
the files. If its requirements do not lead to the name of a project that the edit concerns, whether
or not there is a project of the name, then all answers of its environment to all readers are the
same as before. -/
theorem frame_afterAll (edits : List Edit) {edit : Edit} {made : Edit.Made} {next : Workspace}
    {edited name : String}
    (hconcerns : edit.Concerns (Workspace.initial.afterAll edits) edited)
    (hok : (Workspace.initial.afterAll edits).apply edit = .ok (made, next))
    (hother : ¬edit.Concerns (Workspace.initial.afterAll edits) name) :
    LeavesAlone (Workspace.initial.afterAll edits) next name ∧
    ((∀ concerned, edit.Concerns (Workspace.initial.afterAll edits) concerned →
        ¬Relation.TransGen (Workspace.initial.afterAll edits).Mentions name concerned) →
      ∀ env, (Workspace.initial.afterAll edits).environment? name = some env →
        ∃ env', next.environment? name = some env' ∧ env'.providers = env.providers ∧
          (∀ reader segments, env'.findType reader segments = env.findType reader segments) ∧
          (∀ reader typeName package, env'.findTypeInPackage reader typeName package =
            env.findTypeInPackage reader typeName package) ∧
          ∀ reader parent segment,
            env'.isPackage reader parent segment = env.isPackage reader parent segment) := by
  set ws := Workspace.initial.afterAll edits
  have h : ws.InStep := inStep_afterAll edits
  obtain ⟨harchives, halone⟩ := sameArchives_and_leavesAlone h.files hok hconcerns
  refine ⟨halone hother, fun hclear env henv => ?_⟩
  obtain ⟨project, hproject, rfl⟩ := Option.map_eq_some_iff.1 henv
  obtain rfl := (h.files.project_name hproject).1
  have hview : SameView ws next project.name := by
    refine ⟨harchives, fun hchain => halone ?_⟩
    rcases Relation.reflTransGen_iff_eq_or_transGen.1 hchain with rfl | hchain
    · exact hother
    · exact fun hconcerned => hclear _ hconcerned hchain
  have hfiles : next.FilesInStep := (h.apply hok).files
  have hproviders := Environment.providers_eq h.files hfiles hview hproject
  have hlookup := Environment.lookupFor?_eq h hfiles hview hproject
  refine ⟨.ofProject next project, ?_, hproviders, fun reader segments => ?_,
    fun reader typeName package => ?_, fun reader parent segment => ?_⟩
  · rw [environment?, (hview.alone .refl).project_eq, hproject]
    rfl
  · rw [Environment.findType, hlookup, Environment.findType]
  · rw [Environment.findTypeInPackage, hlookup, Environment.findTypeInPackage]
  · rw [Environment.isPackage, Environment.hasPackageFor, hproviders, Environment.isPackage,
      Environment.hasPackageFor]

/-- Two projects of which one requires the other, and a third one that neither of them requires. -/
def oneOnItsOwn : List Edit :=
  [.createProject ⟨"Q", [""], [], none⟩, .createFile "/Q/A.java" "class A \x7b\x7d",
    .createProject ⟨"R", [""], [], none⟩, .createFile "/R/B.java" "class B \x7b\x7d",
    .createProject ⟨"P", [""], [.project "R" false], none⟩]

/-- When the project on its own loses its type, the one with the requirement finds what it found. -/
theorem frame_oneOnItsOwn :
    ∃ made next env env', (Workspace.initial.afterAll oneOnItsOwn).apply
        (.setFile "/Q/A.java" "class C \x7b\x7d") = .ok (made, next) ∧
      (Workspace.initial.afterAll oneOnItsOwn).environment? "P" = some env ∧
      next.environment? "P" = some env' ∧
      env.findType .unnamed ["B"] = .source ⟨.source ⟨1⟩, "B"⟩ ∧
      env'.findType .unnamed ["B"] = .source ⟨.source ⟨1⟩, "B"⟩ := by
  set ws := Workspace.initial.afterAll oneOnItsOwn with hws
  have happly : (ws.apply (.setFile "/Q/A.java" "class C \x7b\x7d")).toOption.isSome = true := by
    decide +kernel
  obtain ⟨⟨made, next⟩, hok⟩ := exists_eq_ok_of_isSome happly
  have hfound : (ws.environment? "P").map (·.findType .unnamed ["B"]) =
      some (.source ⟨.source ⟨1⟩, "B"⟩) := by
    decide +kernel
  obtain ⟨env, henv, hfound⟩ := Option.map_eq_some_iff.1 hfound
  have hpath : splitPath "/Q/A.java" = .ok ("Q", "A.java") := by decide +kernel
  have hQ : (Edit.setFile "/Q/A.java" "class C \x7b\x7d").Concerns ws "Q" := ⟨_, hpath⟩
  have hconcerned : ∀ name, (Edit.setFile "/Q/A.java" "class C \x7b\x7d").Concerns ws name →
      name = "Q" := by
    rintro name ⟨rel, hsplit⟩
    exact (Prod.mk.inj (Except.ok.inj (hsplit.symm.trans hpath))).1
  have hP : (ws.project? "P").map (·.requiredProjects) = some ["R"] := by decide +kernel
  have hR : (ws.project? "R").map (·.requiredProjects) = some [] := by decide +kernel
  have hclear : ¬Relation.TransGen ws.Mentions "P" "Q" := by
    intro hchain
    obtain ⟨required, hfirst, hrest⟩ := Relation.TransGen.head'_iff.1 hchain
    obtain rfl := List.mem_singleton.1 (mem_of_mentions hP hfirst)
    rcases Relation.ReflTransGen.cases_head hrest with heq | ⟨other, hmentions, -⟩
    · exact absurd heq (by decide)
    · exact absurd (mem_of_mentions hR hmentions) List.not_mem_nil
  obtain ⟨-, hanswers⟩ := frame_afterAll oneOnItsOwn hQ hok fun hP =>
    absurd (hconcerned "P" hP) (by decide)
  obtain ⟨env', henv', -, hsame, -⟩ :=
    hanswers (fun concerned hmem => by rw [hconcerned _ hmem]; exact hclear) env henv
  exact ⟨made, next, env, env', hok, henv, henv', hfound, (hsame _ _).trans hfound⟩

end SourceSearch
