import Mathlib.Data.List.Pairwise
import SourceSearch.Proofs.Inheritance
import SourceSearch.Proofs.ScopeDrafts

/-!
# The documents of an element

Each element of a scope brings in documents (`Element.documents`), all of them as seen from one
project. A document is a source file at its own path or an archive at its path, and covers all of it
or some types of its own (`Document.IsOf`). So two documents at one place are the same file or
archive but for one case: an archive may have the path of a source file of a project that has it on
the classpath. The project itself then brings in the file only, and who asks for a type of the
archive brings in a part of the archive (`IsOf.archive_and_source`).
-/

set_option autoImplicit false

namespace SourceSearch

variable {ws : Workspace}

/-- A source file as a document. -/
def Document.ofSource (source : SourceFile) (coverage : Coverage) : Document :=
  ⟨.source source.id, source.project, source.path, coverage⟩

/-- An archive as seen from a project. -/
def Document.ofArchive (archive : Archive) (project : String) (coverage : Coverage) : Document :=
  ⟨.archive archive.id, project, archive.path, coverage⟩

/-! ## Documents of a workspace -/

namespace Workspace

/-- At one place of a project is one parsed file. -/
theorem FilesInStep.file_eq (h : ws.FilesInStep) {file other : FileId} {source target : SourceFile}
    (hsource : ws.source? file = some source) (htarget : ws.source? other = some target)
    (hproject : source.project = target.project) (hpath : source.path = target.path) :
    file = other := by
  obtain ⟨name, path, text, hat, -, -, rfl⟩ := h.source_iff.1 hsource
  obtain ⟨name', path', text', hat', -, -, rfl⟩ := h.source_iff.1 htarget
  obtain rfl : name = name' := hproject
  obtain rfl : path = path' := hpath
  exact Option.some.inj (hat.symm.trans hat')

/-- Under one path is one archive. -/
theorem ArchivesInStep.archive_eq (h : ws.ArchivesInStep) {path path' : String}
    {archive other : Archive} (hmem : (path, archive) ∈ ws.archives.entries)
    (hmem' : (path', other) ∈ ws.archives.entries) (heq : archive.path = other.path) :
    archive = other := by
  have : Std.Symm fun a b : String × Archive => a.1 ≠ b.1 ∧ a.2.id ≠ b.2.id :=
    ⟨fun a b hne => ⟨hne.1.symm, hne.2.symm⟩⟩
  by_contra hne
  have hpaths := h.archive_nodup.forall hmem hmem' fun hsame => hne (Prod.mk.inj hsame).2
  apply hpaths.1
  rw [← h.archive_path hmem, ← h.archive_path hmem', heq]

/-- The archives of a project are registered. -/
theorem mem_entries_of_mem_libraries {project : Project} {archive : Archive}
    (harchive : archive ∈ ws.libraries project) :
    ∃ path, (path, archive) ∈ ws.archives.entries := by
  obtain ⟨entry, -, hentry⟩ := exists_library?_of_mem_libraries harchive
  exact mem_entries_of_library? hentry

end Workspace

namespace Document

/-- A document of a workspace is at the place of its file or archive and covers types of its own, if
not everything. A whole archive is not at the place of a source file. -/
structure IsOf (ws : Workspace) (doc : Document) : Prop where
  source : ∀ {file}, doc.id = .source file →
    ∃ source, ws.source? file = some source ∧ doc.IsAt source.project source.path
  archive : ∀ {id}, doc.id = .archive id → ∃ path archive,
    (path, archive) ∈ ws.archives.entries ∧ archive.id = id ∧ doc.resource = archive.path
  own : ∀ {keys}, doc.coverage = .types keys → ∀ key ∈ keys, key.origin.document = doc.id
  alone : ∀ {id}, doc.id = .archive id → doc.coverage = .all →
    ∀ {file source}, ws.source? file = some source → ¬doc.IsAt source.project source.path

theorem isOf_ofSource (h : ws.FilesInStep) {file : FileId} {source : SourceFile}
    (hsource : ws.source? file = some source) {coverage : Coverage}
    (hown : ∀ {keys}, coverage = .types keys → ∀ key ∈ keys, key.origin = .source file) :
    (ofSource source coverage).IsOf ws where
  source hid := by
    obtain rfl := DocumentId.source.inj hid
    rw [h.source_id hsource]
    exact ⟨source, hsource, rfl, rfl⟩
  archive hid := by cases hid
  own hkeys key hkey := by
    rw [hown hkeys key hkey, ofSource, h.source_id hsource]
    rfl
  alone hid := by cases hid

theorem isOf_ofArchive {path : String} {archive : Archive}
    (hmem : (path, archive) ∈ ws.archives.entries) {project : String} {coverage : Coverage}
    (hown : ∀ {keys}, coverage = .types keys → ∀ key ∈ keys, key.origin = .archive archive.id)
    (halone : coverage = .all → ∀ {file source}, ws.source? file = some source →
      source.project = project → source.path ≠ archive.path) :
    (ofArchive archive project coverage).IsOf ws where
  source hid := by cases hid
  archive hid := ⟨path, archive, hmem, DocumentId.archive.inj hid, rfl⟩
  own hkeys key hkey := by
    rw [hown hkeys key hkey]
    rfl
  alone _ hall _ _ hsource hplace := halone hall hsource hplace.1.symm hplace.2.symm

variable {a b doc : Document}

/-- **Two documents at one place** that are not the same are an archive, of which a part is covered,
and a source file. -/
theorem IsOf.archive_and_source (h : ws.InStep) (ha : a.IsOf ws) (hb : b.IsOf ws)
    (hplace : a.IsAt b.project b.resource) (hne : a.id ≠ b.id) :
    (∃ id file, a.id = .archive id ∧ b.id = .source file ∧ a.coverage ≠ .all) ∨
      ∃ id file, b.id = .archive id ∧ a.id = .source file ∧ b.coverage ≠ .all := by
  cases hida : a.id with
  | source file =>
    obtain ⟨source, hsource, hata⟩ := ha.source hida
    cases hidb : b.id with
    | source other =>
      obtain ⟨target, htarget, hatb⟩ := hb.source hidb
      rw [hida, hidb] at hne
      refine absurd (congrArg DocumentId.source (h.files.file_eq hsource htarget ?_ ?_)) hne
      · rw [← hata.1, ← hatb.1, hplace.1]
      · rw [← hata.2, ← hatb.2, hplace.2]
    | archive id =>
      refine Or.inr ⟨id, file, rfl, rfl, ?_⟩
      intro hall
      exact hb.alone hidb hall hsource ⟨hplace.1.symm.trans hata.1, hplace.2.symm.trans hata.2⟩
  | archive id =>
    cases hidb : b.id with
    | source file =>
      obtain ⟨source, hsource, hatb⟩ := hb.source hidb
      refine Or.inl ⟨id, file, rfl, rfl, ?_⟩
      intro hall
      exact ha.alone hida hall hsource ⟨hplace.1.trans hatb.1, hplace.2.trans hatb.2⟩
    | archive other =>
      obtain ⟨_, archive, hmem, rfl, hpath⟩ := ha.archive hida
      obtain ⟨_, archive', hmem', rfl, hpath'⟩ := hb.archive hidb
      have heq := h.archives.archive_eq hmem hmem' (by rw [← hpath, ← hpath', hplace.2])
      rw [hida, hidb, heq] at hne
      exact absurd rfl hne

/-- A document that covers the code of a type is the one that declares it, or is whole. -/
theorem IsOf.id_eq_or_whole (hdoc : doc.IsOf ws) {s : BoundWorkspace} {key : TypeKey}
    (hencloses : doc.coverage.encloses (s.enclosingChain (some key)) = true) :
    doc.id = key.origin.document ∨ doc.coverage = .all := by
  cases hcoverage : doc.coverage with
  | all => exact Or.inr rfl
  | types keys =>
    left
    rw [hcoverage, Coverage.encloses, List.any_eq_true] at hencloses
    obtain ⟨outer, houter, hkeys⟩ := hencloses
    rw [← hdoc.own hcoverage outer (List.contains_iff_mem.1 hkeys),
      BoundWorkspace.origin_of_mem_enclosingChain houter]

end Document

/-! ## The documents of an element -/

namespace Element

/-- The document of a source file. -/
def fileDocuments (ws : Workspace) (file : FileId) (coverage : Coverage) : List Document :=
  (ws.source? file).toList.map (.ofSource · coverage)

/-- The document with the code of a type; an archive is seen from the first project that has it. -/
def typeDocuments (ws : Workspace) (key : TypeKey) : List Document :=
  match key.origin with
  | .source file => fileDocuments ws file (.types [key])
  | .archive id =>
    match ScopeDraft.holderOf? ws id ws.projects.keys, ws.archive? id with
    | some holder, some archive => [.ofArchive archive holder (.types [key])]
    | _, _ => []

/-- The document of an archive on the classpath of a project, unless the project has a unit at the
path. -/
def libraryDocuments (ws : Workspace) (project : Project) (archive : Archive) : List Document :=
  if (project.parsedUnits ws.sources).any (·.path == archive.path) then []
  else [.ofArchive archive project.name .all]

/-- The documents that an element brings in, in order. -/
def documents (ws : Workspace) : Element → List Document
  | .project name => (ws.project? name).toList.flatMap fun project =>
    (project.parsedUnits ws.sources).map (.ofSource · .all) ++
      (ws.libraries project).flatMap (libraryDocuments ws project)
  | .unit file => fileDocuments ws file .all
  | .type key => typeDocuments ws key
  | .method handle => typeDocuments ws handle.owner
  | .field handle => typeDocuments ws handle.owner

theorem documents_project {name : String} {project : Project}
    (hproject : ws.project? name = some project) :
    documents ws (.project name) = (project.parsedUnits ws.sources).map (.ofSource · .all) ++
      (ws.libraries project).flatMap (libraryDocuments ws project) := by
  rw [documents, hproject]
  simp

theorem mem_libraryDocuments_iff {project : Project} {archive : Archive} {doc : Document} :
    doc ∈ libraryDocuments ws project archive ↔
      (∀ source ∈ project.parsedUnits ws.sources, source.path ≠ archive.path) ∧
        doc = .ofArchive archive project.name .all := by
  unfold libraryDocuments
  split
  next hany =>
    obtain ⟨source, hsource, hpath⟩ := List.any_eq_true.1 hany
    simp only [List.not_mem_nil, false_iff, not_and]
    intro hnone
    exact absurd (beq_iff_eq.1 hpath) (hnone source hsource)
  next hnone =>
    rw [List.mem_singleton]
    refine (and_iff_right ?_).symm
    intro source hsource hpath
    exact hnone (List.any_eq_true.2 ⟨source, hsource, beq_iff_eq.2 hpath⟩)

/-- A document of a project is one of its units or of the archives on its classpath. -/
theorem of_mem_documents_project (h : ws.FilesInStep) {name : String} {doc : Document}
    (hdoc : doc ∈ documents ws (.project name)) :
    doc.project = name ∧ doc.coverage = .all ∧ doc.IsOf ws := by
  obtain ⟨project, hproject, hdoc⟩ := List.mem_flatMap.1 hdoc
  have hget : ws.project? name = some project := Option.mem_toList.1 hproject
  obtain ⟨hname, -⟩ := h.project_name hget
  rcases List.mem_append.1 hdoc with hdoc | hdoc
  · obtain ⟨source, hsource, rfl⟩ := List.mem_map.1 hdoc
    obtain ⟨hfile, hin⟩ := (h.mem_parsedUnits_iff hget).1 hsource
    refine ⟨hin, rfl, Document.isOf_ofSource h hfile ?_⟩
    intro keys hkeys
    cases hkeys
  · obtain ⟨archive, harchive, hdoc⟩ := List.mem_flatMap.1 hdoc
    obtain ⟨hnone, rfl⟩ := mem_libraryDocuments_iff.1 hdoc
    obtain ⟨path, hmem⟩ := Workspace.mem_entries_of_mem_libraries harchive
    refine ⟨hname, rfl, Document.isOf_ofArchive hmem ?_ ?_⟩
    · intro keys hkeys
      cases hkeys
    · intro _ file source hsource hin
      apply hnone
      rw [h.mem_parsedUnits_iff hget, h.source_id hsource]
      exact ⟨hsource, hin.trans hname⟩

/-- The document of a type is one that declares it. -/
theorem isOf_of_mem_typeDocuments (h : ws.FilesInStep) {key : TypeKey} {doc : Document}
    (hdoc : doc ∈ typeDocuments ws key) : doc.IsOf ws := by
  cases horigin : key.origin with
  | source file =>
    simp only [typeDocuments, horigin] at hdoc
    obtain ⟨source, hsource, rfl⟩ := List.mem_map.1 hdoc
    refine Document.isOf_ofSource h (Option.mem_toList.1 hsource) ?_
    intro keys hkeys other hother
    obtain rfl := Coverage.types.inj hkeys
    rw [List.mem_singleton.1 hother, horigin]
  | archive id =>
    simp only [typeDocuments, horigin] at hdoc
    split at hdoc
    next holder archive hholder harchive =>
      obtain rfl := List.mem_singleton.1 hdoc
      obtain ⟨hid, path, hmem⟩ := Workspace.mem_entries_of_archive? harchive
      refine Document.isOf_ofArchive hmem ?_ ?_
      · intro keys hkeys other hother
        obtain rfl := Coverage.types.inj hkeys
        rw [List.mem_singleton.1 hother, horigin, hid]
      · intro hall
        cases hall
    next => cases hdoc

/-- **A document of an element** is one of the workspace. -/
theorem isOf_of_mem_documents (h : ws.FilesInStep) {e : Element} {doc : Document}
    (hdoc : doc ∈ e.documents ws) : doc.IsOf ws := by
  cases e with
  | project name => exact (of_mem_documents_project h hdoc).2.2
  | unit file =>
    obtain ⟨source, hsource, rfl⟩ := List.mem_map.1 hdoc
    refine Document.isOf_ofSource h (Option.mem_toList.1 hsource) ?_
    intro keys hkeys
    cases hkeys
  | type key => exact isOf_of_mem_typeDocuments h hdoc
  | method handle => exact isOf_of_mem_typeDocuments h hdoc
  | field handle => exact isOf_of_mem_typeDocuments h hdoc

theorem eq_of_mem_fileDocuments {file : FileId} {coverage : Coverage} {a b : Document}
    (ha : a ∈ fileDocuments ws file coverage) (hb : b ∈ fileDocuments ws file coverage) :
    a = b := by
  obtain ⟨source, hsource, rfl⟩ := List.mem_map.1 ha
  obtain ⟨other, hother, rfl⟩ := List.mem_map.1 hb
  rw [Option.some.inj ((Option.mem_toList.1 hsource).symm.trans (Option.mem_toList.1 hother))]

theorem eq_of_mem_typeDocuments {key : TypeKey} {a b : Document}
    (ha : a ∈ typeDocuments ws key) (hb : b ∈ typeDocuments ws key) : a = b := by
  unfold typeDocuments at ha hb
  split at ha
  next file horigin =>
    simp only [horigin] at hb
    exact eq_of_mem_fileDocuments ha hb
  next id horigin =>
    simp only [horigin] at hb
    split at ha
    next holder archive hholder harchive =>
      simp only [hholder, harchive] at hb
      rw [List.mem_singleton.1 ha, List.mem_singleton.1 hb]
    next => cases ha

/-- **An element** brings in one document, or whole documents of one project. -/
theorem eq_or_whole_of_mem_documents (h : ws.FilesInStep) {e : Element} {a b : Document}
    (ha : a ∈ e.documents ws) (hb : b ∈ e.documents ws) :
    a = b ∨ a.project = b.project ∧ a.coverage = .all ∧ b.coverage = .all := by
  cases e with
  | project name =>
    obtain ⟨hproject, hall, -⟩ := of_mem_documents_project h ha
    obtain ⟨hproject', hall', -⟩ := of_mem_documents_project h hb
    exact Or.inr ⟨hproject.trans hproject'.symm, hall, hall'⟩
  | unit file => exact Or.inl (eq_of_mem_fileDocuments ha hb)
  | type key => exact Or.inl (eq_of_mem_typeDocuments ha hb)
  | method handle => exact Or.inl (eq_of_mem_typeDocuments ha hb)
  | field handle => exact Or.inl (eq_of_mem_typeDocuments ha hb)

end Element

end SourceSearch
