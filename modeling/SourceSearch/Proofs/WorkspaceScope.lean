import SourceSearch.Proofs.MethodCalls
import SourceSearch.Proofs.Providers
import SourceSearch.Proofs.ScopeOrder

/-!
# The scope of the workspace

The scope of the workspace takes in all projects, one after the other by name, each with its
compilation units and then the archives on its classpath. Of what is added, that which opens its
place stays, as it is (`mem_documents_workspace_iff`).

No other document has the place of a unit before it. An archive stays with the first project that
brings it in, but a project with a unit at the path of the archive does not bring it in: the unit
has the place already, and the archive is merged into it. So an archive is shown with the first
project that has it on its classpath and no unit at its path (`isFirstProject_iff_mem_opened`), and
if there is none, it is in no document.
-/

set_option autoImplicit false

namespace SourceSearch

/-- In an ordered list, the first element of which something holds comes before every other one. -/
theorem exists_first_of_pairwise {α : Type} {r : α → α → Prop} {p : α → Prop} {l : List α}
    (hl : l.Pairwise r) (hrefl : ∀ a, r a a) (hp : ∃ a ∈ l, p a) :
    ∃ before first after, l = before ++ first :: after ∧ p first ∧ (∀ a ∈ before, ¬p a) ∧
      ∀ a ∈ l, p a → r first a := by
  induction hl with
  | nil =>
    obtain ⟨a, hmem, -⟩ := hp
    cases hmem
  | @cons head tail hhead _ ih =>
    by_cases hholds : p head
    · refine ⟨[], head, tail, rfl, hholds, List.forall_mem_nil _, fun a hmem _ => ?_⟩
      rcases List.mem_cons.1 hmem with rfl | hmem
      · exact hrefl a
      · exact hhead a hmem
    · have hrest : ∃ a ∈ tail, p a := by
        obtain ⟨a, hmem, ha⟩ := hp
        exact ⟨a, (List.mem_cons.1 hmem).resolve_left fun heq => hholds (heq ▸ ha), ha⟩
      obtain ⟨before, first, after, rfl, hfirst, hnone, hleast⟩ := ih hrest
      refine ⟨head :: before, first, after, rfl, hfirst,
        List.forall_mem_cons.2 ⟨hholds, hnone⟩, fun a hmem ha => ?_⟩
      exact hleast a ((List.mem_cons.1 hmem).resolve_left fun heq => hholds (heq ▸ ha)) ha

variable {ws : Workspace}

/-- An entry of the project's own classpath names the archive. -/
def Project.Resolves (ws : Workspace) (archive : Archive) (project : Project) : Prop :=
  ∃ entry ∈ project.classpath, ws.library? entry = some archive

/-- A compilation unit of the project is at the path. -/
def Project.HasUnitAt (path : String) (project : Project) : Prop :=
  ∃ file, (path, file) ∈ project.compilationUnits

namespace Workspace

/-! ## The first of the projects -/

/-- The name of the first project, by name, of which something holds. -/
structure IsFirstProject (ws : Workspace) (p : Project → Prop) (name : String) : Prop where
  holds : ∃ project, ws.project? name = some project ∧ p project
  first : ∀ {other project}, ws.project? other = some project → p project → ¬other < name

theorem IsFirstProject.unique {p : Project → Prop} {name other : String}
    (h : ws.IsFirstProject p name) (h' : ws.IsFirstProject p other) : name = other := by
  obtain ⟨project, hproject, hp⟩ := h.holds
  obtain ⟨found, hfound, hp'⟩ := h'.holds
  exact String.le_antisymm (String.not_lt.1 (h.first hfound hp'))
    (String.not_lt.1 (h'.first hproject hp))

/-- If it holds of some project, there is a first one. -/
theorem exists_isFirstProject {p : Project → Prop} {name : String} {project : Project}
    (hproject : ws.project? name = some project) (hp : p project) :
    ∃ first, ws.IsFirstProject p first := by
  have hascending : ws.projects.keys.Pairwise fun a b => ¬b < a :=
    (List.pairwise_map.2 ws.projects.ascending).imp String.lt_asymm
  obtain ⟨-, first, -, -, hholds, -, hleast⟩ := exists_first_of_pairwise hascending String.lt_irrefl
    (p := fun other => ∃ found, ws.project? other = some found ∧ p found)
    ⟨name, Table.mem_keys_iff.2 ⟨project, hproject⟩, project, hproject, hp⟩
  exact ⟨first, hholds, fun hother hfound =>
    hleast _ (Table.mem_keys_iff.2 ⟨_, hother⟩) ⟨_, hother, hfound⟩⟩

/-! ## Documents of units and of archives -/

/-- The document is a compilation unit of a project and covers all of it. -/
def IsUnitDocument (ws : Workspace) (doc : Document) : Prop :=
  ∃ name project path file, ws.project? name = some project ∧
    (path, file) ∈ project.compilationUnits ∧ doc = ⟨.source file, name, path, .all⟩

/-- The project has the archive on its classpath and no unit at the path of the archive. -/
def BringsIn (ws : Workspace) (archive : Archive) (project : Project) : Prop :=
  project.Resolves ws archive ∧ ¬project.HasUnitAt archive.path

/-- The compilation units of a project are the parsed files that show it. -/
theorem FilesInStep.mem_compilationUnits_iff (h : ws.FilesInStep) {name : String}
    {project : Project} (hproject : ws.project? name = some project) {path : String}
    {file : FileId} :
    (path, file) ∈ project.compilationUnits ↔ ∃ source, ws.source? file = some source ∧
      source.project = name ∧ source.path = path := by
  rw [Project.compilationUnits, List.mem_filter, Table.mem_entries_iff]
  constructor
  · rintro ⟨hfile, hunit⟩
    have hat : ws.fileAt? name path = some file := by
      rw [fileAt?_of_project hproject]
      exact hfile
    obtain ⟨text, htext⟩ := h.contents_iff.2 ⟨name, path, hat⟩
    refine ⟨.ofText file name path text, h.source_iff.2 ⟨name, path, text, hat, ?_, htext, rfl⟩,
      rfl, rfl⟩
    rw [isUnitAt_of_project hproject]
    exact hunit
  · rintro ⟨source, hsource, rfl, rfl⟩
    obtain ⟨name, path, text, hat, hunit, -, rfl⟩ := h.source_iff.1 hsource
    have hproject : ws.project? name = some project := hproject
    rw [fileAt?_of_project hproject] at hat
    rw [isUnitAt_of_project hproject] at hunit
    exact ⟨hat, hunit⟩

theorem isUnitDocument_iff (h : ws.FilesInStep) {doc : Document} :
    ws.IsUnitDocument doc ↔
      ∃ file source, ws.source? file = some source ∧ doc = .ofSource source .all := by
  constructor
  · rintro ⟨name, project, path, file, hproject, hmem, rfl⟩
    obtain ⟨source, hsource, rfl, rfl⟩ := (h.mem_compilationUnits_iff hproject).1 hmem
    exact ⟨file, source, hsource, by rw [Document.ofSource, h.source_id hsource]⟩
  · rintro ⟨file, source, hsource, rfl⟩
    obtain ⟨project, hproject⟩ := h.exists_project hsource
    refine ⟨source.project, project, source.path, file, hproject, ?_, ?_⟩
    · exact (h.mem_compilationUnits_iff hproject).2 ⟨source, hsource, rfl, rfl⟩
    · rw [Document.ofSource, h.source_id hsource]

/-- A project has a unit at a path iff a parsed file of it is there. -/
theorem hasUnitAt_iff (h : ws.FilesInStep) {name : String} {project : Project}
    (hproject : ws.project? name = some project) {path : String} :
    project.HasUnitAt path ↔ ∃ source ∈ project.parsedUnits ws.sources, source.path = path := by
  simp only [Project.HasUnitAt, h.mem_compilationUnits_iff hproject, h.mem_parsedUnits_iff hproject]
  constructor
  · rintro ⟨file, source, hsource, hname, hpath⟩
    exact ⟨source, ⟨(h.source_id hsource).symm ▸ hsource, hname⟩, hpath⟩
  · rintro ⟨source, ⟨hsource, hname⟩, hpath⟩
    exact ⟨source.id, source, hsource, hname, hpath⟩

end Workspace

namespace SearchScope

open Document

/-- **What is added** to the scope: the units of all projects, and the archives, once for each
project that brings them in. -/
theorem mem_wholeDocuments_iff (h : ws.InStep) {doc : Document} :
    doc ∈ wholeDocuments ws ↔ ws.IsUnitDocument doc ∨ ∃ archive name project,
      ws.project? name = some project ∧ ws.BringsIn archive project ∧
        doc = .ofArchive archive name .all := by
  have hdocuments : doc ∈ wholeDocuments ws ↔ ∃ name project, ws.project? name = some project ∧
      ((∃ source ∈ project.parsedUnits ws.sources, doc = .ofSource source .all) ∨
        ∃ archive, ws.BringsIn archive project ∧ doc = .ofArchive archive name .all) := by
    simp only [wholeDocuments, List.mem_flatMap, List.mem_map]
    constructor
    · rintro ⟨-, ⟨project, hvalue, rfl⟩, hdoc⟩
      have hproject := project?_of_mem_values h.files hvalue
      rw [Element.documents_project hproject] at hdoc
      refine ⟨project.name, project, hproject, ?_⟩
      rcases List.mem_append.1 hdoc with hdoc | hdoc
      · obtain ⟨source, hsource, rfl⟩ := List.mem_map.1 hdoc
        exact Or.inl ⟨source, hsource, rfl⟩
      · obtain ⟨archive, harchive, hdoc⟩ := List.mem_flatMap.1 hdoc
        obtain ⟨hfree, rfl⟩ := Element.mem_libraryDocuments_iff.1 hdoc
        refine Or.inr ⟨archive, ⟨(Workspace.mem_libraries_iff h.archives).1 harchive, ?_⟩, rfl⟩
        rw [Workspace.hasUnitAt_iff h.files hproject]
        rintro ⟨source, hsource, hpath⟩
        exact hfree source hsource hpath
    · rintro ⟨name, project, hproject, hdoc⟩
      obtain rfl := (h.files.project_name hproject).1
      refine ⟨_, ⟨project, Table.mem_values_iff.2 ⟨_, hproject⟩, rfl⟩, ?_⟩
      rw [Element.documents_project hproject]
      rcases hdoc with ⟨source, hsource, rfl⟩ | ⟨archive, ⟨hresolves, hfree⟩, rfl⟩
      · exact List.mem_append_left _ (List.mem_map_of_mem hsource)
      · refine List.mem_append_right _ (List.mem_flatMap.2
          ⟨archive, (Workspace.mem_libraries_iff h.archives).2 hresolves, ?_⟩)
        refine Element.mem_libraryDocuments_iff.2 ⟨fun source hsource hpath => hfree ?_, rfl⟩
        exact (Workspace.hasUnitAt_iff h.files hproject).2 ⟨source, hsource, hpath⟩
  rw [hdocuments, Workspace.isUnitDocument_iff h.files]
  constructor
  · rintro ⟨name, project, hproject, ⟨source, hsource, rfl⟩ | ⟨archive, hbrings, rfl⟩⟩
    · exact Or.inl ⟨source.id, source, ((h.files.mem_parsedUnits_iff hproject).1 hsource).1, rfl⟩
    · exact Or.inr ⟨archive, name, project, hproject, hbrings, rfl⟩
  · rintro (⟨file, source, hsource, rfl⟩ | ⟨archive, name, project, hproject, hbrings, rfl⟩)
    · obtain ⟨project, hproject, hmem⟩ := h.files.exists_mem_parsedUnits hsource
      exact ⟨source.project, project, hproject, Or.inl ⟨source, hmem, rfl⟩⟩
    · exact ⟨name, project, hproject, Or.inr ⟨archive, hbrings, rfl⟩⟩

/-- The documents of a project come before those of the projects behind it. -/
theorem pairwise_wholeDocuments (h : ws.FilesInStep) :
    (wholeDocuments ws).Pairwise fun a b => ¬b.project < a.project := by
  have hnames : (ws.projects.values.map fun project => Element.project project.name).Pairwise
      fun e e' => ∀ a ∈ e.documents ws, ∀ b ∈ e'.documents ws, ¬b.project < a.project := by
    rw [Table.values, List.map_map, List.pairwise_map]
    refine ws.projects.ascending.imp_of_mem fun {entry entry'} hmem hmem' hlt a ha b hb => ?_
    have hname := (h.project_name (Table.mem_entries_iff.1 hmem)).1
    have hname' := (h.project_name (Table.mem_entries_iff.1 hmem')).1
    rw [(Element.of_mem_documents_project h ha).1, (Element.of_mem_documents_project h hb).1]
    exact String.lt_asymm (hname.symm ▸ hname'.symm ▸ hlt)
  refine List.pairwise_flatMap.2 ⟨fun e he => ?_, hnames⟩
  obtain ⟨project, -, rfl⟩ := List.mem_map.1 he
  refine List.pairwise_of_forall_mem_list fun a ha b hb => ?_
  rw [(Element.of_mem_documents_project h ha).1, (Element.of_mem_documents_project h hb).1]
  exact String.lt_irrefl _

/-- **The documents of the scope** are those that open their places. -/
theorem mem_documents_workspace_iff (h : ws.InStep) {doc : Document} :
    doc ∈ (workspace ws).documents ↔ doc ∈ opened (wholeDocuments ws) := by
  obtain ⟨draft, hdocuments, hdraft⟩ := holds_workspace h.files
  -- what stands at a place is whole, as is what has opened it
  have hwhole : ∀ {found}, found ∈ (workspace ws).documents → found.coverage = .all := by
    intro found hfound
    have hencloses := encloses_of_mem_workspace h.files hfound []
    cases hcoverage : found.coverage with
    | all => rfl
    | types keys =>
      rw [hcoverage] at hencloses
      cases hencloses
  have hsame : ∀ {found first : Document}, found ∈ (workspace ws).documents →
      first ∈ opened (wholeDocuments ws) → found.IsAt first.project first.resource →
      found.id = first.id → found = first := by
    intro found first hfound hfirst hplace hid
    have hall := (of_mem_wholeDocuments h.files (mem_of_mem_opened hfirst)).1
    exact hplace.eq hid ((hwhole hfound).trans hall.symm)
  constructor
  · intro hdoc
    obtain ⟨project, resource, hat⟩ := ScopeDraft.mem_toList_iff.1 (hdocuments ▸ hdoc)
    obtain ⟨first, hfirst, hplace, hid⟩ := hdraft.exists_opened hat
    have hplace' := hdraft.isAt hat
    rw [hsame hdoc hfirst
      ⟨hplace'.1.trans hplace.1.symm, hplace'.2.trans hplace.2.symm⟩ hid.symm]
    exact hfirst
  · intro hdoc
    obtain ⟨found, hat, hid⟩ := hdraft.exists_at? hdoc
    have hfound : found ∈ (workspace ws).documents :=
      hdocuments.symm ▸ ScopeDraft.mem_toList_iff.2 ⟨_, _, hat⟩
    rw [← hsame hfound hdoc (hdraft.isAt hat) hid]
    exact hfound

/-- A unit opens its place, as no other document that is added is there. -/
theorem mem_opened_of_isUnitDocument (h : ws.InStep) {doc : Document}
    (hdoc : ws.IsUnitDocument doc) : doc ∈ opened (wholeDocuments ws) := by
  have hmem : doc ∈ wholeDocuments ws := (mem_wholeDocuments_iff h).2 (Or.inl hdoc)
  rcases exists_opened_or_isTakenBy hmem with ⟨first, hfirst, hplace⟩ | htaken
  · rw [← eq_of_mem_wholeDocuments h (mem_of_mem_opened hfirst) hmem hplace]
    exact hfirst
  · obtain ⟨name, project, path, file, -, -, rfl⟩ := hdoc
    cases htaken

/-- Of the documents of an archive, the first one opens its place. -/
theorem exists_first_mem_opened (h : ws.InStep) {doc : Document} (hdoc : doc ∈ wholeDocuments ws) :
    ∃ first ∈ opened (wholeDocuments ws), first.id = doc.id ∧
      ∀ other ∈ wholeDocuments ws, other.id = doc.id → ¬other.project < first.project := by
  obtain ⟨before, first, after, hsplit, hid, hother, hleast⟩ := exists_first_of_pairwise
    (pairwise_wholeDocuments h.files) (fun doc => String.lt_irrefl doc.project)
    (p := fun other => other.id = doc.id) ⟨doc, hdoc, rfl⟩
  refine ⟨first, ?_, hid, hleast⟩
  have hmem : ∀ {d}, d ∈ before ++ first :: after → d ∈ wholeDocuments ws := fun hd => hsplit ▸ hd
  have hopens : first ∈ opened (before ++ [first]) := by
    rw [opened_concat]
    refine mem_openBy_iff.2 (Or.inr ⟨rfl, fun d hd hplace => ?_, Bool.eq_false_iff.2 ?_⟩)
    · have hbefore := mem_of_mem_opened hd
      refine hother d hbefore (hid ▸ congrArg Document.id ?_)
      exact eq_of_mem_wholeDocuments h (hmem (List.mem_append_left _ hbefore))
        (hmem (by simp)) hplace
    · intro htaken
      obtain ⟨-, d, hd, hsame, -⟩ := isTakenBy_iff.1 htaken
      exact hother d (mem_of_mem_opened hd) (hsame.trans hid)
  rw [hsplit, List.append_cons]
  exact opened_subset_append _ _ hopens

/-- Archives of one number that projects bring in are the same. -/
theorem archive_eq_of_bringsIn (h : ws.InStep) {archive other : Archive} {project found : Project}
    (hbrings : ws.BringsIn archive project) (hbrings' : ws.BringsIn other found)
    (hid : archive.id = other.id) : archive = other := by
  have hlisted : ∀ {archive : Archive} {project : Project}, ws.BringsIn archive project →
      ws.archive? archive.id = some archive := by
    rintro archive project ⟨⟨entry, -, hentry⟩, -⟩
    obtain ⟨path, hmem⟩ := Workspace.mem_entries_of_library? hentry
    exact h.archives.archive?_id (List.mem_map_of_mem hmem)
  have heq := hlisted hbrings
  rw [hid, hlisted hbrings'] at heq
  exact (Option.some.inj heq).symm

/-- **The place of an archive** is with the first project that brings it in. -/
theorem exists_isFirstProject_mem_opened (h : ws.InStep) {archive : Archive} {name : String}
    {project : Project} (hproject : ws.project? name = some project)
    (hbrings : ws.BringsIn archive project) :
    ∃ first, ws.IsFirstProject (ws.BringsIn archive) first ∧
      Document.ofArchive archive first .all ∈ opened (wholeDocuments ws) := by
  have hadded : ∀ {other found}, ws.project? other = some found → ws.BringsIn archive found →
      Document.ofArchive archive other .all ∈ wholeDocuments ws := fun hother hfound =>
    (mem_wholeDocuments_iff h).2 (Or.inr ⟨archive, _, _, hother, hfound, rfl⟩)
  obtain ⟨doc, hdoc, hid, hleast⟩ := exists_first_mem_opened h (hadded hproject hbrings)
  rcases (mem_wholeDocuments_iff h).1 (mem_of_mem_opened hdoc) with
    ⟨_, _, _, file, -, -, rfl⟩ | ⟨other, first, found, hfirst, hfound, rfl⟩
  · cases hid
  · obtain rfl := archive_eq_of_bringsIn h hfound hbrings (DocumentId.archive.inj hid)
    exact ⟨first, ⟨⟨found, hfirst, hfound⟩,
      fun hother hbrings => hleast _ (hadded hother hbrings) rfl⟩, hdoc⟩

/-- **An archive** is shown with a project iff it is the first one that brings it in. -/
theorem isFirstProject_iff_mem_opened (h : ws.InStep) {archive : Archive} {name : String}
    {project : Project} (hproject : ws.project? name = some project)
    (hbrings : ws.BringsIn archive project) :
    ws.IsFirstProject (ws.BringsIn archive) name ↔
      Document.ofArchive archive name .all ∈ opened (wholeDocuments ws) := by
  obtain ⟨first, hfirst, hopened⟩ := exists_isFirstProject_mem_opened h hproject hbrings
  constructor
  · intro hname
    rw [hname.unique hfirst]
    exact hopened
  · intro hname
    by_cases hsame : first = name
    · rw [← hsame]
      exact hfirst
    · -- an archive is shown with one project only
      have htaken : (Document.ofArchive archive name .all).isTakenBy
          (opened (wholeDocuments ws)) = true := isTakenBy_iff.2 ⟨⟨_, rfl⟩, _, hopened, rfl, hsame⟩
      rw [isTakenBy_opened_eq_false hname] at htaken
      cases htaken

/-- **What is in the scope**: the units of all projects, and the archives, each with the first
project that brings it in. -/
theorem mem_documents_workspace (h : ws.InStep) {doc : Document} :
    doc ∈ (workspace ws).documents ↔ ws.IsUnitDocument doc ∨ ∃ archive holder,
      ws.IsFirstProject (ws.BringsIn archive) holder ∧ doc = .ofArchive archive holder .all := by
  rw [mem_documents_workspace_iff h]
  constructor
  · intro hdoc
    rcases (mem_wholeDocuments_iff h).1 (mem_of_mem_opened hdoc) with
      hunit | ⟨archive, name, project, hproject, hbrings, rfl⟩
    · exact Or.inl hunit
    · exact Or.inr
        ⟨archive, name, (isFirstProject_iff_mem_opened h hproject hbrings).2 hdoc, rfl⟩
  · rintro (hunit | ⟨archive, holder, hfirst, rfl⟩)
    · exact mem_opened_of_isUnitDocument h hunit
    · obtain ⟨project, hproject, hbrings⟩ := hfirst.holds
      exact (isFirstProject_iff_mem_opened h hproject hbrings).1 hfirst

/-- **Archives stay with the first projects** that have them on their classpaths iff none of these
projects has a unit at the path of its archive. -/
theorem mem_documents_resolving_iff (h : ws.InStep) :
    (∀ doc, doc ∈ (workspace ws).documents ↔ ws.IsUnitDocument doc ∨ ∃ archive holder,
        ws.IsFirstProject (·.Resolves ws archive) holder ∧ doc = .ofArchive archive holder .all) ↔
      ∀ archive holder project, ws.IsFirstProject (·.Resolves ws archive) holder →
        ws.project? holder = some project → ¬project.HasUnitAt archive.path := by
  constructor
  · intro hshown archive holder project hfirst hproject
    have hdoc := (hshown (.ofArchive archive holder .all)).2 (Or.inr ⟨archive, holder, hfirst, rfl⟩)
    rcases (mem_documents_workspace h).1 hdoc with
      ⟨_, _, _, file, -, -, heq⟩ | ⟨other, name, ⟨⟨found, hfound, hbrings⟩, -⟩, heq⟩
    · cases (Document.mk.inj heq).1
    · obtain ⟨-, rfl, hpath, -⟩ := Document.mk.inj heq
      obtain rfl := Option.some.inj (hproject.symm.trans hfound)
      rw [hpath]
      exact hbrings.2
  · intro hfree doc
    have hresolving : ∀ {archive first}, ws.IsFirstProject (·.Resolves ws archive) first →
        ws.IsFirstProject (ws.BringsIn archive) first := by
      intro archive first hfirst
      obtain ⟨project, hproject, hresolves⟩ := hfirst.holds
      exact ⟨⟨project, hproject, hresolves, hfree _ _ _ hfirst hproject⟩,
        fun hother hbrings => hfirst.first hother hbrings.1⟩
    have hiff : ∀ archive holder, ws.IsFirstProject (ws.BringsIn archive) holder ↔
        ws.IsFirstProject (·.Resolves ws archive) holder := by
      refine fun archive holder => ⟨fun hbrings => ?_, hresolving⟩
      obtain ⟨project, hproject, hresolves, -⟩ := hbrings.holds
      obtain ⟨first, hfirst⟩ := Workspace.exists_isFirstProject hproject hresolves
      rw [hbrings.unique (hresolving hfirst)]
      exact hfirst
    simp only [mem_documents_workspace h, hiff]

/-- **The scope of the workspace**, whatever edits were made. No file and no archive is in two of
its documents. The documents are, each with everything in it, the compilation units of all projects,
with their projects, and the archives, each with the first project, by name, that has it on its own
classpath and no compilation unit at its path. So each archive is with the first project that has it
on its classpath iff none of these projects has a compilation unit at the path of its archive. -/
theorem workspace_afterAll (edits : List Edit) :
    let ws := Workspace.initial.afterAll edits
    let documents := (SearchScope.workspace ws).documents
    (documents.map (·.id)).Nodup ∧
    (∀ doc, doc ∈ documents ↔ ws.IsUnitDocument doc ∨ ∃ archive holder,
      ws.IsFirstProject (ws.BringsIn archive) holder ∧ doc = .ofArchive archive holder .all) ∧
    ((∀ doc, doc ∈ documents ↔ ws.IsUnitDocument doc ∨ ∃ archive holder,
        ws.IsFirstProject (·.Resolves ws archive) holder ∧ doc = .ofArchive archive holder .all) ↔
      ∀ archive holder project, ws.IsFirstProject (·.Resolves ws archive) holder →
        ws.project? holder = some project → ¬project.HasUnitAt archive.path) := by
  intro ws documents
  have h : ws.InStep := Workspace.inStep_afterAll edits
  exact ⟨IsBuiltOn.workspace.nodup_ids h, fun _ => mem_documents_workspace h,
    mem_documents_resolving_iff h⟩

/-- An archive and a compilation unit of the project that has it on its classpath, at one path. -/
def archiveAtUnit : List Edit :=
  [.registerArchive "X.java" [("A.java", "class A \x7b\x7d")] none,
    .createProject ⟨"P", [""], [.library "X.java"], none⟩,
    .createFile "/P/X.java" "class X \x7b\x7d"]

/-- The unit takes the place, so the archive is in no document, although the only project has it on
its classpath. -/
theorem workspace_archiveAtUnit :
    let ws := Workspace.initial.afterAll archiveAtUnit
    (SearchScope.workspace ws).documents = [⟨.source ⟨0⟩, "P", "X.java", .all⟩] ∧
      ¬∀ doc, doc ∈ (SearchScope.workspace ws).documents ↔ ws.IsUnitDocument doc ∨
        ∃ archive holder, ws.IsFirstProject (·.Resolves ws archive) holder ∧
          doc = .ofArchive archive holder .all := by
  intro ws
  refine ⟨by decide +kernel, fun hshown => ?_⟩
  have hkeys : ws.projects.keys = ["P"] := by decide +kernel
  have hpath : (ws.library? (.library "X.java")).map (·.path) = some "X.java" := by decide +kernel
  obtain ⟨archive, harchive, hpath⟩ := Option.map_eq_some_iff.1 hpath
  have hentries : (ws.project? "P").map (fun project => (project.classpath,
      project.compilationUnits)) = some ([.library "X.java"], [("X.java", ⟨0⟩)]) := by
    decide +kernel
  obtain ⟨project, hproject, hentries⟩ := Option.map_eq_some_iff.1 hentries
  obtain ⟨hclasspath, hunits⟩ := Prod.mk.inj hentries
  have hfirst : ws.IsFirstProject (·.Resolves ws archive) "P" := by
    refine ⟨⟨project, hproject, .library "X.java", by simp [hclasspath], harchive⟩, ?_⟩
    intro other found hother _
    have hlisted : other ∈ ws.projects.keys := Table.mem_keys_iff.2 ⟨found, hother⟩
    rw [hkeys, List.mem_singleton] at hlisted
    rw [hlisted]
    exact String.lt_irrefl _
  refine (workspace_afterAll archiveAtUnit).2.2.1 hshown archive "P" project hfirst hproject ?_
  exact ⟨⟨0⟩, by simp [hunits, hpath]⟩

end SearchScope

end SourceSearch
