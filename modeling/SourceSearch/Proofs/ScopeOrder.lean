import SourceSearch.Proofs.DeclaredNames
import SourceSearch.Proofs.ElementDocuments

/-!
# The documents of a scope in order

However a scope is built, documents enter its draft one by one, each of them at the place of its
file or with the path of its archive (`Document.PlacedIn`). A place holds one document, and an
archive stays with one project, so no document is listed twice (`ScopeDraft.Arranged`). One step
keeps this (`Arranged.add`), and so does every way of building a scope (`IsBuiltOn.exists_draft`).
What the draft holds is listed by project and resource (`Arranged.pairwise_toList`).
-/

set_option autoImplicit false

namespace SourceSearch

variable {ws : Workspace}

namespace Document

/-- A document comes before another one by its project, or in one project by its resource. -/
def Precedes (a b : Document) : Prop :=
  a.project < b.project ∨ a.project = b.project ∧ a.resource < b.resource

/-- A document is at the place of its file, or has the path of its archive. -/
inductive PlacedIn (ws : Workspace) (doc : Document) : Prop
  | source {file : FileId} {source : SourceFile} (hid : doc.id = .source file)
    (hsource : ws.source? file = some source) (hat : doc.IsAt source.project source.path)
  | archive {id : ArchiveId} {archive : Archive} (hid : doc.id = .archive id)
    (harchive : ws.archive? id = some archive) (hresource : doc.resource = archive.path)

theorem Precedes.not_isAt {a b : Document} (h : a.Precedes b) : ¬a.IsAt b.project b.resource := by
  rintro ⟨hproject, hresource⟩
  rcases h with hlt | ⟨-, hlt⟩
  · exact String.lt_irrefl _ (hproject ▸ hlt)
  · exact String.lt_irrefl _ (hresource ▸ hlt)

/-- At a place stands one of the documents that are in order. -/
theorem eq_of_isAt {docs : List Document} (hdocs : docs.Pairwise Precedes) {a b : Document}
    (ha : a ∈ docs) (hb : b ∈ docs) (hat : a.IsAt b.project b.resource) : a = b := by
  obtain ⟨before, after, rfl⟩ := List.append_of_mem hb
  obtain ⟨-, hafter, hbefore⟩ := List.pairwise_append.1 hdocs
  rcases List.mem_append.1 ha with ha | ha
  · exact absurd hat (hbefore a ha b List.mem_cons_self).not_isAt
  · rcases List.mem_cons.1 ha with rfl | ha
    · rfl
    · exact absurd ⟨hat.1.symm, hat.2.symm⟩ ((List.pairwise_cons.1 hafter).1 a ha).not_isAt

/-- The same file or archive at the same place, of which another part may count. -/
structure Resembles (a b : Document) : Prop where
  id : a.id = b.id
  isAt : a.IsAt b.project b.resource

variable {a b a' b' : Document}

theorem Resembles.refl (a : Document) : a.Resembles a := ⟨rfl, rfl, rfl⟩

theorem Resembles.placedIn (h : a.Resembles b) (hb : b.PlacedIn ws) : a.PlacedIn ws := by
  cases hb with
  | source hid hsource hat =>
    exact .source (h.id.trans hid) hsource ⟨h.isAt.1.trans hat.1, h.isAt.2.trans hat.2⟩
  | archive hid harchive hresource =>
    exact .archive (h.id.trans hid) harchive (h.isAt.2.trans hresource)

/-- An archive that is listed twice is listed for one project. -/
def SharesProject (a b : Document) : Prop :=
  ∀ id, a.id = .archive id → a.id = b.id → a.project = b.project

theorem SharesProject.of_resembles (h : a'.SharesProject b') (ha : a.Resembles a')
    (hb : b.Resembles b') : a.SharesProject b := by
  intro id hid heq
  rw [ha.isAt.1, hb.isAt.1]
  exact h id (ha.id ▸ hid) (ha.id ▸ hb.id ▸ heq)

theorem SharesProject.symm (h : a.SharesProject b) : b.SharesProject a :=
  fun id hid heq => (h id (heq ▸ hid) heq.symm).symm

/-- **A document that is listed twice** is at one place. -/
theorem PlacedIn.isAt_of_id_eq (ha : a.PlacedIn ws) (hb : b.PlacedIn ws)
    (hshares : a.SharesProject b) (hid : a.id = b.id) : a.IsAt b.project b.resource := by
  cases ha with
  | source hida hsource hata =>
    cases hb with
    | source hidb htarget hatb =>
      obtain rfl := DocumentId.source.inj (hida.symm.trans (hid.trans hidb))
      obtain rfl := Option.some.inj (hsource.symm.trans htarget)
      exact ⟨hata.1.trans hatb.1.symm, hata.2.trans hatb.2.symm⟩
    | archive hidb => cases hida.symm.trans (hid.trans hidb)
  | archive hida harchive hresource =>
    cases hb with
    | source hidb => cases hida.symm.trans (hid.trans hidb)
    | archive hidb harchive' hresource' =>
      obtain rfl := DocumentId.archive.inj (hida.symm.trans (hid.trans hidb))
      obtain rfl := Option.some.inj (harchive.symm.trans harchive')
      exact ⟨hshares _ hida hid, hresource.trans hresource'.symm⟩

end Document

namespace ScopeDraft

variable {draft : ScopeDraft} {doc : Document}

/-- What a draft holds is at its place, and an archive is held for one project. -/
structure Arranged (ws : Workspace) (draft : ScopeDraft) : Prop where
  isAt : ∀ {project resource doc}, draft.at? project resource = some doc →
    doc.IsAt project resource
  placed : ∀ doc ∈ draft.toList, doc.PlacedIn ws
  shares : ∀ a ∈ draft.toList, ∀ b ∈ draft.toList, a.SharesProject b

theorem arranged_empty : Arranged ws {} where
  isAt h := by simp [at?] at h
  placed _ h := by cases h
  shares _ h := by cases h

/-! ## One more document -/

theorem Arranged.addProject (h : draft.Arranged ws) (name : String) :
    (draft.addProject name).Arranged ws := by
  unfold ScopeDraft.addProject
  split
  · exact h
  · exact ⟨h.isAt, h.placed, h.shares⟩

/-- What stands at the place of a new document resembles what stood there, or is the new one. -/
theorem Arranged.merged_resembles (h : draft.Arranged ws) (doc : Document) :
    ∃ known, (known ∈ draft.toList ∨ known = doc) ∧ (draft.merged doc).Resembles known ∧
      known.IsAt doc.project doc.resource := by
  unfold merged
  split
  next known hat =>
    exact ⟨known, Or.inl (mem_toList_iff.2 ⟨_, _, hat⟩), ⟨rfl, rfl, rfl⟩, h.isAt hat⟩
  next => exact ⟨doc, Or.inr rfl, .refl doc, rfl, rfl⟩

/-- After a document was added, each one resembles one that was there, or the new one. -/
theorem Arranged.exists_of_mem_add (h : draft.Arranged ws) (htaken : draft.isTaken doc = false)
    {found : Document} (hfound : found ∈ (draft.add doc).toList) :
    ∃ known, (known ∈ draft.toList ∨ known = doc) ∧ found.Resembles known := by
  obtain ⟨project, resource, hat⟩ := mem_toList_iff.1 hfound
  rw [at?_add htaken] at hat
  split at hat
  · obtain rfl := Option.some.inj hat
    obtain ⟨known, hknown, hresembles, -⟩ := h.merged_resembles doc
    exact ⟨known, hknown, hresembles⟩
  · exact ⟨found, Or.inl (mem_toList_iff.2 ⟨project, resource, hat⟩), .refl found⟩

/-- An archive that is not taken is held for no other project. -/
theorem sharesProject_of_isTaken_eq_false (htaken : draft.isTaken doc = false) {known : Document}
    (hknown : known ∈ draft.toList) : doc.SharesProject known := by
  intro id hid heq
  by_contra hne
  have hother : draft.toList.any (fun d => d.id == doc.id && d.project != doc.project) = true := by
    refine List.any_eq_true.2 ⟨known, hknown, ?_⟩
    rw [Bool.and_eq_true, beq_iff_eq, bne_iff_ne]
    exact ⟨heq.symm, Ne.symm hne⟩
  rw [isTaken, hid] at htaken
  rw [hid] at hother
  exact absurd hother (Bool.eq_false_iff.1 htaken)

/-- **Adding a document** that has its place keeps the draft arranged. -/
theorem Arranged.add (h : draft.Arranged ws) (hdoc : doc.PlacedIn ws) :
    (draft.add doc).Arranged ws := by
  by_cases htaken : draft.isTaken doc = true
  · rw [add_of_isTaken htaken]
    exact h
  · rw [Bool.not_eq_true] at htaken
    refine ⟨?_, ?_, ?_⟩
    · intro project resource found hat
      rw [at?_add htaken] at hat
      split at hat
      next hplace =>
        obtain ⟨rfl, rfl⟩ := hplace
        obtain rfl := Option.some.inj hat
        obtain ⟨known, -, hresembles, hknown⟩ := h.merged_resembles doc
        exact ⟨hresembles.isAt.1.trans hknown.1, hresembles.isAt.2.trans hknown.2⟩
      next => exact h.isAt hat
    · intro found hfound
      obtain ⟨known, hknown | rfl, hresembles⟩ := h.exists_of_mem_add htaken hfound
      · exact hresembles.placedIn (h.placed known hknown)
      · exact hresembles.placedIn hdoc
    · intro a ha b hb
      have hnew : ∀ known ∈ draft.toList, doc.SharesProject known :=
        fun known hknown => sharesProject_of_isTaken_eq_false htaken hknown
      obtain ⟨a', ha', hresemblesa⟩ := h.exists_of_mem_add htaken ha
      obtain ⟨b', hb', hresemblesb⟩ := h.exists_of_mem_add htaken hb
      refine Document.SharesProject.of_resembles ?_ hresemblesa hresemblesb
      rcases ha' with ha' | rfl
      · rcases hb' with hb' | rfl
        · exact h.shares a' ha' b' hb'
        · exact (hnew a' ha').symm
      · rcases hb' with hb' | rfl
        · exact hnew b' hb'
        · exact fun _ _ _ => rfl

/-! ## Elements -/

theorem Arranged.addSource (h : draft.Arranged ws) {source : SourceFile}
    (hsource : ws.source? source.id = some source) (coverage : Coverage) :
    (draft.addSource source coverage).Arranged ws :=
  (h.addProject _).add (.source rfl hsource ⟨rfl, rfl⟩)

theorem Arranged.addArchive (h : draft.Arranged ws) {archive : Archive}
    (harchive : ws.archive? archive.id = some archive) (project : String) (coverage : Coverage) :
    (draft.addArchive archive project coverage).Arranged ws :=
  h.add (.archive rfl harchive rfl)

/-- The units of a project. -/
theorem Arranged.addUnits (h : draft.Arranged ws) (hws : ws.FilesInStep) {name : String}
    {project : Project} (hproject : ws.project? name = some project) (coverage : Coverage) :
    ((project.parsedUnits ws.sources).foldl (·.addSource · coverage) draft).Arranged ws := by
  refine List.foldlRecOn (motive := Arranged ws) _ _ h ?_
  intro found hfound source hsource
  exact hfound.addSource ((hws.mem_parsedUnits_iff hproject).1 hsource).1 coverage

theorem Arranged.addWholeProject (h : draft.Arranged ws) (hws : ws.InStep) {name : String}
    {project : Project} (hproject : ws.project? name = some project) :
    (draft.addWholeProject ws project).Arranged ws := by
  refine List.foldlRecOn (motive := Arranged ws) _ _
    ((h.addProject _).addUnits hws.files hproject .all) ?_
  intro found hfound archive harchive
  obtain ⟨path, hmem⟩ := Workspace.mem_entries_of_mem_libraries harchive
  exact hfound.addArchive (hws.archives.archive?_id (List.mem_map_of_mem hmem)) _ _

/-- An archive for the first project that has it on its classpath, if there is one. -/
theorem Arranged.addHeldArchive (h : draft.Arranged ws) {id : ArchiveId} {archive : Archive}
    (harchive : ws.archive? id = some archive) (project : String) (coverage : Coverage) :
    (draft.addArchive archive project coverage).Arranged ws := by
  refine h.addArchive ?_ project coverage
  rw [(Workspace.mem_entries_of_archive? harchive).1, harchive]

theorem Arranged.addType (h : draft.Arranged ws) (hws : ws.InStep) {key : TypeKey}
    {next : ScopeDraft} (hnext : draft.addType ws key = .ok next) : next.Arranged ws := by
  unfold ScopeDraft.addType at hnext
  split at hnext
  · cases hnext
  · split at hnext
    next file horigin =>
      split at hnext
      next source hsource =>
        obtain rfl := Except.ok.inj hnext
        refine h.addSource ?_ _
        rw [hws.files.source_id hsource, hsource]
      next =>
        obtain rfl := Except.ok.inj hnext
        exact h
    next id horigin =>
      split at hnext
      next project archive _ harchive =>
        obtain rfl := Except.ok.inj hnext
        exact (h.addProject project).addHeldArchive harchive project _
      next =>
        obtain rfl := Except.ok.inj hnext
        exact h

/-- **Adding an element** keeps the draft arranged. -/
theorem Arranged.addElement (h : draft.Arranged ws) (hws : ws.InStep) {e : Element}
    {next : ScopeDraft} (hnext : draft.addElement ws e = .ok next) : next.Arranged ws := by
  cases e with
  | project name =>
    rw [ScopeDraft.addElement] at hnext
    split at hnext
    next project hproject =>
      obtain rfl := Except.ok.inj hnext
      exact h.addWholeProject hws hproject
    next => cases hnext
  | unit file =>
    rw [ScopeDraft.addElement] at hnext
    split at hnext
    next source hsource =>
      obtain rfl := Except.ok.inj hnext
      refine h.addSource ?_ _
      rw [hws.files.source_id hsource, hsource]
    next => cases hnext
  | type key => exact h.addType hws hnext
  | method handle => exact h.addType hws hnext
  | field handle => exact h.addType hws hnext

theorem Arranged.addElements (h : draft.Arranged ws) (hws : ws.InStep) {elements : List Element}
    {next : ScopeDraft} (hnext : elements.foldlM (ScopeDraft.addElement ws) draft = .ok next) :
    next.Arranged ws := by
  induction elements generalizing draft with
  | nil =>
    obtain rfl := Except.ok.inj hnext
    exact h
  | cons e elements ih =>
    rw [List.foldlM_cons] at hnext
    obtain ⟨middle, hmiddle, hnext⟩ := bind_eq_ok_iff.1 hnext
    exact ih (h.addElement hws hmiddle) hnext

/-! ## The list of documents -/

/-- **An arranged draft** lists its documents by project and resource. -/
theorem Arranged.pairwise_toList (h : draft.Arranged ws) :
    draft.toList.Pairwise Document.Precedes := by
  have hplace : ∀ e ∈ draft.documents.entries, ∀ d ∈ e.2.entries, d.2.IsAt e.1 d.1 := by
    rintro ⟨project, ofProject⟩ he ⟨resource, doc⟩ hd
    refine h.isAt (Option.bind_eq_some_iff.2 ⟨ofProject, ?_, ?_⟩)
    · exact Table.mem_entries_iff.1 he
    · exact Table.mem_entries_iff.1 hd
  rw [toList, Table.values, List.pairwise_flatMap]
  constructor
  · intro ofProject hofProject
    obtain ⟨e, he, rfl⟩ := List.mem_map.1 hofProject
    rw [Table.values, List.pairwise_map]
    refine e.2.ascending.imp_of_mem ?_
    intro a b ha hb hlt
    obtain ⟨hprojecta, hresourcea⟩ := hplace e he a ha
    obtain ⟨hprojectb, hresourceb⟩ := hplace e he b hb
    refine Or.inr ⟨hprojecta.trans hprojectb.symm, ?_⟩
    rw [hresourcea, hresourceb]
    exact hlt
  · rw [List.pairwise_map]
    refine draft.documents.ascending.imp_of_mem ?_
    intro e e' he he' hlt a ha b hb
    obtain ⟨d, hd, rfl⟩ := List.mem_map.1 ha
    obtain ⟨d', hd', rfl⟩ := List.mem_map.1 hb
    left
    rw [(hplace e he d hd).1, (hplace e' he' d' hd').1]
    exact hlt

/-- **No document** of an arranged draft is listed twice. -/
theorem Arranged.nodup_ids (h : draft.Arranged ws) : (draft.toList.map (·.id)).Nodup := by
  rw [List.Nodup, List.pairwise_map]
  refine h.pairwise_toList.imp_of_mem ?_
  intro a b ha hb hbefore hid
  have hat := (h.placed a ha).isAt_of_id_eq (h.placed b hb) (h.shares a ha b hb) hid
  exact hbefore.not_isAt hat

end ScopeDraft

/-! ## Scopes -/

namespace SearchScope

/-- The ways of building a scope on a workspace. -/
inductive IsBuiltOn (ws : Workspace) : SearchScope → Prop
  | elements {elements : List Element} {scope : SearchScope}
    (h : ofElements ws elements = .ok scope) : IsBuiltOn ws scope
  | hierarchy {focus : TypeKey} {scope : SearchScope}
    (h : SearchScope.hierarchy (.ofWorkspace ws) focus = .ok scope) : IsBuiltOn ws scope
  | ofHierarchy (types : TypeHierarchy) : IsBuiltOn ws (ofHierarchy (.ofWorkspace ws) types)
  | workspace : IsBuiltOn ws (workspace ws)

/-- The draft of a hierarchy's scope. -/
theorem exists_draft_ofHierarchy (hws : ws.InStep) (types : TypeHierarchy) :
    ∃ draft : ScopeDraft, draft.Arranged ws ∧
      (ofHierarchy (.ofWorkspace ws) types).documents = draft.toList := by
  refine ⟨_, ?_, rfl⟩
  refine List.foldlRecOn (motive := ScopeDraft.Arranged ws) _ _ ?_ ?_
  · refine List.foldlRecOn (motive := ScopeDraft.Arranged ws) _ _ ScopeDraft.arranged_empty ?_
    intro draft hdraft name _
    split
    next project hproject => exact (hdraft.addProject name).addUnits hws.files hproject _
    next => exact hdraft
  · intro draft hdraft index _
    split
    next project archive _ harchive => exact hdraft.addHeldArchive harchive project _
    next => exact hdraft

/-- **However a scope is built**, its documents are those of an arranged draft. -/
theorem IsBuiltOn.exists_draft (hws : ws.InStep) {scope : SearchScope} (h : scope.IsBuiltOn ws) :
    ∃ draft : ScopeDraft, draft.Arranged ws ∧ scope.documents = draft.toList := by
  cases h with
  | elements h =>
    obtain ⟨draft, hdraft, hfinish⟩ := bind_eq_ok_iff.1 h
    obtain rfl := Except.ok.inj hfinish
    exact ⟨draft, ScopeDraft.arranged_empty.addElements hws hdraft, rfl⟩
  | hierarchy h =>
    unfold SearchScope.hierarchy at h
    split at h
    · cases h
    · obtain rfl := Except.ok.inj h
      exact exists_draft_ofHierarchy hws _
  | ofHierarchy types => exact exists_draft_ofHierarchy hws types
  | workspace =>
    refine ⟨_, ?_, rfl⟩
    refine List.foldlRecOn (motive := ScopeDraft.Arranged ws) _ _ ScopeDraft.arranged_empty ?_
    intro draft hdraft project hproject
    obtain ⟨name, hget⟩ := Table.mem_values_iff.1 hproject
    exact hdraft.addWholeProject hws hget

variable {scope : SearchScope}

/-- **The documents of a scope** are in the order of projects and resources. -/
theorem IsBuiltOn.pairwise_documents (hws : ws.InStep) (h : scope.IsBuiltOn ws) :
    scope.documents.Pairwise Document.Precedes := by
  obtain ⟨draft, hdraft, hdocuments⟩ := h.exists_draft hws
  rw [hdocuments]
  exact hdraft.pairwise_toList

/-- **No document of a scope** is listed twice. -/
theorem IsBuiltOn.nodup_ids (hws : ws.InStep) (h : scope.IsBuiltOn ws) :
    (scope.documents.map (·.id)).Nodup := by
  obtain ⟨draft, hdraft, hdocuments⟩ := h.exists_draft hws
  rw [hdocuments]
  exact hdraft.nodup_ids

end SearchScope

end SourceSearch
