import Mathlib.Data.List.Induction
import SourceSearch.Search.Scope
import SourceSearch.Proofs.Store

/-!
# What a draft of a scope holds

Documents are added to a draft one by one. `ScopeDraft.Holds draft docs` says what has become of the
documents `docs` that were added: the first at a place opens it (`opened`), unless it is an archive
that another project has brought in, and the one that has opened a place covers what the documents
at the place cover together. Adding a document keeps this (`Holds.add`).
-/

set_option autoImplicit false

namespace SourceSearch

/-- What counts by a union is what counts by one coverage or the other. -/
theorem Coverage.encloses_union {mine theirs : Coverage} {around : List TypeKey} :
    (mine.union theirs).encloses around = true ↔
      mine.encloses around = true ∨ theirs.encloses around = true := by
  cases mine with
  | all => simp [union, encloses]
  | types keys =>
    cases theirs with
    | all => simp [union, encloses]
    | types others =>
      simp only [union, encloses, List.any_eq_true, List.contains_iff_mem, List.mem_append,
        List.mem_filter, Bool.not_eq_true', Bool.eq_false_iff]
      constructor
      · rintro ⟨key, hkey, hmem | ⟨hmem, -⟩⟩
        · exact Or.inl ⟨key, hkey, hmem⟩
        · exact Or.inr ⟨key, hkey, hmem⟩
      · rintro (⟨key, hkey, hmem⟩ | ⟨key, hkey, hmem⟩)
        · exact ⟨key, hkey, Or.inl hmem⟩
        · by_cases hmine : key ∈ keys
          · exact ⟨key, hkey, Or.inl hmine⟩
          · exact ⟨key, hkey, Or.inr ⟨hmem, by simpa using hmine⟩⟩

namespace Document

/-- Where a document is shown. -/
def IsAt (doc : Document) (project resource : String) : Prop :=
  doc.project = project ∧ doc.resource = resource

/-- Whether two documents are shown at one place. -/
def sharesPlace (a b : Document) : Bool :=
  a.project == b.project && a.resource == b.resource

/-- Whether a document is an archive that one of the others has brought in for another project. -/
def isTakenBy (doc : Document) (others : List Document) : Bool :=
  match doc.id with
  | .source _ => false
  | .archive _ => others.any fun d => d.id == doc.id && d.project != doc.project

/-- A document opens its place unless something is there or the document is taken. -/
def openBy (opened : List Document) (doc : Document) : List Document :=
  if opened.any (·.sharesPlace doc) || doc.isTakenBy opened then opened else opened ++ [doc]

/-- The documents that open their places, in order. -/
def opened (docs : List Document) : List Document := docs.foldl openBy []

variable {docs others more : List Document} {doc a b : Document}

theorem sharesPlace_iff : a.sharesPlace b = true ↔ a.IsAt b.project b.resource := by
  simp [sharesPlace, IsAt]

/-- At one place, documents of the same file or archive differ only in what they cover. -/
theorem IsAt.eq (h : a.IsAt b.project b.resource) (hid : a.id = b.id)
    (hcoverage : a.coverage = b.coverage) : a = b := by
  obtain ⟨hproject, hresource⟩ := h
  cases a
  cases b
  rw [Document.mk.injEq]
  exact ⟨hid, hproject, hresource, hcoverage⟩

theorem isTakenBy_iff : doc.isTakenBy others = true ↔
    (∃ id, doc.id = .archive id) ∧ ∃ d ∈ others, d.id = doc.id ∧ d.project ≠ doc.project := by
  unfold isTakenBy
  split
  next file hid => simp [hid]
  next id hid => simp [hid]

theorem isTakenBy_mono (hsubset : others ⊆ more) (h : doc.isTakenBy others = true) :
    doc.isTakenBy more = true := by
  obtain ⟨hid, d, hd, hsame⟩ := isTakenBy_iff.1 h
  exact isTakenBy_iff.2 ⟨hid, d, hsubset hd, hsame⟩

theorem opened_concat (docs : List Document) (doc : Document) :
    opened (docs ++ [doc]) = openBy (opened docs) doc := by
  simp [opened, List.foldl_append]

theorem mem_openBy_iff : a ∈ openBy others doc ↔ a ∈ others ∨
    a = doc ∧ (∀ d ∈ others, ¬d.IsAt doc.project doc.resource) ∧ doc.isTakenBy others = false := by
  by_cases hopen : others.any (·.sharesPlace doc) = true
  · obtain ⟨d, hd, hplace⟩ := List.any_eq_true.1 hopen
    rw [openBy, hopen, Bool.true_or, if_pos rfl]
    refine (or_iff_left ?_).symm
    rintro ⟨-, hnone, -⟩
    exact hnone d hd (sharesPlace_iff.1 hplace)
  · have hnone : ∀ d ∈ others, ¬d.IsAt doc.project doc.resource := by
      intro d hd hplace
      exact hopen (List.any_eq_true.2 ⟨d, hd, sharesPlace_iff.2 hplace⟩)
    rw [openBy, Bool.eq_false_iff.2 hopen, Bool.false_or]
    by_cases htaken : doc.isTakenBy others = true
    · simp [htaken]
    · rw [Bool.eq_false_iff.2 htaken, if_neg Bool.false_ne_true, List.mem_append,
        List.mem_singleton]
      exact or_congr_right ⟨fun heq => ⟨heq, hnone, rfl⟩, fun hdoc => hdoc.1⟩

theorem opened_subset_concat (docs : List Document) (doc : Document) :
    opened docs ⊆ opened (docs ++ [doc]) := by
  intro d hd
  rw [opened_concat]
  exact mem_openBy_iff.2 (Or.inl hd)

/-- What has opened its place keeps it. -/
theorem opened_subset_append (docs more : List Document) : opened docs ⊆ opened (docs ++ more) := by
  induction more using List.reverseRecOn with
  | nil => rw [List.append_nil]; exact List.Subset.refl _
  | append_singleton more doc ih =>
    rw [← List.append_assoc]
    exact List.Subset.trans ih (opened_subset_concat _ _)

theorem mem_of_mem_opened (h : a ∈ opened docs) : a ∈ docs := by
  induction docs using List.reverseRecOn with
  | nil => exact h
  | append_singleton docs doc ih =>
    rw [opened_concat] at h
    rcases mem_openBy_iff.1 h with h | ⟨rfl, -⟩
    · exact List.mem_append_left _ (ih h)
    · simp

/-- A place is opened once. -/
theorem eq_of_mem_opened (ha : a ∈ opened docs) (hb : b ∈ opened docs)
    (hplace : a.IsAt b.project b.resource) : a = b := by
  induction docs using List.reverseRecOn with
  | nil => cases ha
  | append_singleton docs doc ih =>
    rw [opened_concat] at ha hb
    rcases mem_openBy_iff.1 ha with ha' | ⟨rfl, hnone, -⟩
    · rcases mem_openBy_iff.1 hb with hb | ⟨rfl, hnone, -⟩
      · exact ih ha' hb
      · exact absurd hplace (hnone a ha')
    · rcases mem_openBy_iff.1 hb with hb | ⟨rfl, -⟩
      · exact absurd ⟨hplace.1.symm, hplace.2.symm⟩ (hnone b hb)
      · rfl

/-- What opens its place is not taken, by what came after it either. -/
theorem isTakenBy_opened_eq_false (ha : a ∈ opened docs) : a.isTakenBy (opened docs) = false := by
  induction docs using List.reverseRecOn with
  | nil => cases ha
  | append_singleton docs doc ih =>
    rw [Bool.eq_false_iff]
    intro htaken
    obtain ⟨⟨id, hid⟩, d, hd, hsame, hproject⟩ := isTakenBy_iff.1 htaken
    rw [opened_concat] at ha hd
    rcases mem_openBy_iff.1 ha with ha' | ⟨rfl, -, hfree⟩
    · rcases mem_openBy_iff.1 hd with hd | ⟨rfl, -, hfree⟩
      · rw [isTakenBy_iff.2 ⟨⟨id, hid⟩, d, hd, hsame, hproject⟩] at ih
        cases ih ha'
      · rw [isTakenBy_iff.2 ⟨⟨id, hsame.trans hid⟩, a, ha', hsame.symm, hproject.symm⟩] at hfree
        cases hfree
    · rcases mem_openBy_iff.1 hd with hd | ⟨rfl, -⟩
      · rw [isTakenBy_iff.2 ⟨⟨id, hid⟩, d, hd, hsame, hproject⟩] at hfree
        cases hfree
      · exact hproject rfl

/-- The place of a document is open, unless the document is taken. -/
theorem exists_opened_or_isTakenBy (h : doc ∈ docs) :
    (∃ d ∈ opened docs, d.IsAt doc.project doc.resource) ∨ doc.isTakenBy (opened docs) = true := by
  induction docs using List.reverseRecOn with
  | nil => cases h
  | append_singleton docs last ih =>
    have hsubset := opened_subset_concat docs last
    rcases List.mem_append.1 h with h | h
    · rcases ih h with ⟨d, hd, hplace⟩ | htaken
      · exact Or.inl ⟨d, hsubset hd, hplace⟩
      · exact Or.inr (isTakenBy_mono hsubset htaken)
    · obtain rfl := List.mem_singleton.1 h
      by_cases hopen : ∃ d ∈ opened docs, d.IsAt doc.project doc.resource
      · obtain ⟨d, hd, hplace⟩ := hopen
        exact Or.inl ⟨d, hsubset hd, hplace⟩
      · by_cases htaken : doc.isTakenBy (opened docs) = true
        · exact Or.inr (isTakenBy_mono hsubset htaken)
        · left
          refine ⟨doc, ?_, rfl, rfl⟩
          rw [opened_concat]
          refine mem_openBy_iff.2 (Or.inr ⟨rfl, ?_, Bool.eq_false_iff.2 htaken⟩)
          exact fun d hd hplace => hopen ⟨d, hd, hplace⟩

end Document

namespace ScopeDraft

open Document

variable {draft : ScopeDraft} {docs : List Document}

/-- The document at a place. -/
def at? (draft : ScopeDraft) (project resource : String) : Option Document :=
  (draft.documents.get? project).bind (·.get? resource)

/-- What is listed is what stands at a place. -/
theorem mem_toList_iff {doc : Document} :
    doc ∈ draft.toList ↔ ∃ project resource, draft.at? project resource = some doc := by
  simp only [toList, List.mem_flatMap, Table.mem_values_iff, at?, Option.bind_eq_some_iff]
  constructor
  · rintro ⟨ofProject, ⟨project, hproject⟩, resource, hdoc⟩
    exact ⟨project, resource, ofProject, hproject, hdoc⟩
  · rintro ⟨project, resource, ofProject, hproject, hdoc⟩
    exact ⟨ofProject, ⟨project, hproject⟩, resource, hdoc⟩

@[simp] theorem at?_addProject (draft : ScopeDraft) (name project resource : String) :
    (draft.addProject name).at? project resource = draft.at? project resource := by
  unfold addProject
  split <;> rfl

/-- The document that stands at the place of a new one when it was added. -/
def merged (draft : ScopeDraft) (doc : Document) : Document :=
  match draft.at? doc.project doc.resource with
  | some known => { known with coverage := known.coverage.union doc.coverage }
  | none => doc

/-- **Adding a document** that is not taken changes its place and no other one. -/
theorem at?_add {doc : Document} (htaken : draft.isTaken doc = false) (project resource : String) :
    (draft.add doc).at? project resource =
      if doc.project = project ∧ doc.resource = resource then some (draft.merged doc)
      else draft.at? project resource := by
  have hmerged : (match ((draft.documents.get? doc.project).getD ∅).get? doc.resource with
      | some known => { known with coverage := known.coverage.union doc.coverage }
      | none => doc) = draft.merged doc := by
    unfold merged at?
    cases draft.documents.get? doc.project with
    | none => rfl
    | some ofProject => rfl
  unfold add
  rw [if_neg (by simp [htaken])]
  simp only [at?, Table.get?_insert]
  by_cases hproject : project = doc.project
  · subst hproject
    rw [if_pos rfl, Option.bind_some, Table.get?_insert]
    by_cases hresource : resource = doc.resource
    · rw [if_pos hresource, if_pos ⟨rfl, hresource.symm⟩]
      exact congrArg some hmerged
    · rw [if_neg hresource, if_neg fun heq => hresource heq.2.symm]
      cases draft.documents.get? doc.project with
      | none => simp
      | some ofProject => simp
  · rw [if_neg hproject, if_neg fun heq => hproject heq.1.symm]

theorem add_of_isTaken {doc : Document} (htaken : draft.isTaken doc = true) :
    draft.add doc = draft := by
  unfold add
  rw [if_pos htaken]

/-- What has become of the documents that were added: at each place stands the one that has opened
it, and it covers what those at the place cover together, but for those that are taken. -/
structure Holds (draft : ScopeDraft) (docs : List Document) : Prop where
  isAt : ∀ {project resource doc}, draft.at? project resource = some doc →
    doc.IsAt project resource
  at?_iff : ∀ {project resource id}, (∃ doc, draft.at? project resource = some doc ∧ doc.id = id) ↔
    ∃ doc ∈ opened docs, doc.IsAt project resource ∧ doc.id = id
  sound : ∀ {project resource found around}, draft.at? project resource = some found →
    found.coverage.encloses around = true →
      ∃ doc ∈ docs, doc.IsAt project resource ∧ doc.coverage.encloses around = true
  complete : ∀ {project resource found around}, draft.at? project resource = some found →
    ∀ doc ∈ docs, doc.IsAt project resource → doc.isTakenBy (opened docs) = false →
      doc.coverage.encloses around = true → found.coverage.encloses around = true

theorem holds_empty : Holds {} [] where
  isAt h := by simp [at?] at h
  at?_iff := by simp [at?, opened]
  sound h := by simp [at?] at h
  complete h := by simp [at?] at h

theorem Holds.addProject (h : draft.Holds docs) (name : String) :
    (draft.addProject name).Holds docs where
  isAt hat := h.isAt (at?_addProject draft name _ _ ▸ hat)
  at?_iff := by
    simp only [at?_addProject]
    exact h.at?_iff
  sound hat := h.sound (at?_addProject draft name _ _ ▸ hat)
  complete hat := h.complete (at?_addProject draft name _ _ ▸ hat)

/-- A place where something stands is one that was opened. -/
theorem Holds.exists_opened (h : draft.Holds docs) {project resource : String} {found : Document}
    (hat : draft.at? project resource = some found) :
    ∃ doc ∈ opened docs, doc.IsAt project resource ∧ doc.id = found.id :=
  h.at?_iff.1 ⟨found, hat, rfl⟩

/-- At a place that was opened stands something. -/
theorem Holds.exists_at? (h : draft.Holds docs) {doc : Document} (hdoc : doc ∈ opened docs) :
    ∃ found, draft.at? doc.project doc.resource = some found ∧ found.id = doc.id :=
  h.at?_iff.2 ⟨doc, hdoc, ⟨rfl, rfl⟩, rfl⟩

/-- A draft and the documents that have opened their places take the same archives. -/
theorem Holds.isTaken_eq (h : draft.Holds docs) (doc : Document) :
    draft.isTaken doc = doc.isTakenBy (opened docs) := by
  change doc.isTakenBy draft.toList = _
  rw [Bool.eq_iff_iff, isTakenBy_iff, isTakenBy_iff]
  refine and_congr_right fun _ => ?_
  constructor
  · rintro ⟨known, hknown, hid, hproject⟩
    obtain ⟨project, resource, hat⟩ := mem_toList_iff.1 hknown
    obtain ⟨d, hd, hplace, hsame⟩ := h.exists_opened hat
    refine ⟨d, hd, hsame.trans hid, ?_⟩
    rwa [hplace.1, ← (h.isAt hat).1]
  · rintro ⟨d, hd, hid, hproject⟩
    obtain ⟨found, hat, hsame⟩ := h.exists_at? hd
    refine ⟨found, mem_toList_iff.2 ⟨_, _, hat⟩, hsame.trans hid, ?_⟩
    rwa [(h.isAt hat).1]

theorem Holds.isAt_merged (h : draft.Holds docs) (doc : Document) :
    (draft.merged doc).IsAt doc.project doc.resource := by
  unfold merged
  split
  next known hat =>
    have hplace := h.isAt hat
    exact ⟨hplace.1, hplace.2⟩
  next => exact ⟨rfl, rfl⟩

/-- A document that is not taken opens its place iff nothing stands there. -/
theorem Holds.opened_concat_eq (h : draft.Holds docs) {doc : Document}
    (htaken : draft.isTaken doc = false) :
    opened (docs ++ [doc]) =
      if draft.at? doc.project doc.resource = none then opened docs ++ [doc] else opened docs := by
  rw [h.isTaken_eq] at htaken
  rw [opened_concat, openBy, htaken, Bool.or_false]
  by_cases hat : draft.at? doc.project doc.resource = none
  · have hany : (opened docs).any (·.sharesPlace doc) = false := by
      rw [Bool.eq_false_iff, ne_eq, List.any_eq_true]
      rintro ⟨d, hd, hplace⟩
      obtain ⟨hproject, hresource⟩ := sharesPlace_iff.1 hplace
      obtain ⟨found, hfound, -⟩ := h.exists_at? hd
      rw [hproject, hresource, hat] at hfound
      cases hfound
    rw [if_pos hat, hany]
    rfl
  · obtain ⟨known, hknown⟩ := Option.ne_none_iff_exists'.1 hat
    obtain ⟨d, hd, hplace, -⟩ := h.exists_opened hknown
    have hany : (opened docs).any (·.sharesPlace doc) = true :=
      List.any_eq_true.2 ⟨d, hd, sharesPlace_iff.2 hplace⟩
    rw [if_neg hat, hany, if_pos rfl]

/-- A document that is taken changes nothing. -/
theorem Holds.add_taken (h : draft.Holds docs) {doc : Document}
    (htaken : draft.isTaken doc = true) : (draft.add doc).Holds (docs ++ [doc]) := by
  have hopened : opened (docs ++ [doc]) = opened docs := by
    rw [opened_concat, openBy, ← h.isTaken_eq, htaken, Bool.or_true, if_pos rfl]
  have hself : doc.isTakenBy (opened docs) = true := by rw [← h.isTaken_eq, htaken]
  rw [ScopeDraft.add_of_isTaken htaken]
  refine ⟨h.isAt, ?_, ?_, ?_⟩
  · rw [hopened]
    exact h.at?_iff
  · intro project resource found around hat hencloses
    obtain ⟨d, hd, hdoc⟩ := h.sound hat hencloses
    exact ⟨d, List.mem_append_left _ hd, hdoc⟩
  · intro project resource found around hat d hd hplace hfree hencloses
    rw [hopened] at hfree
    rcases List.mem_append.1 hd with hd | hd
    · exact h.complete hat d hd hplace hfree hencloses
    · rw [List.mem_singleton.1 hd, hself] at hfree
      cases hfree

/-- A document at a place where another one stands is merged into that one. -/
theorem Holds.merge (h : draft.Holds docs) {doc known : Document} {more : List Document}
    (htaken : draft.isTaken doc = false)
    (hknown : draft.at? doc.project doc.resource = some known)
    (hopened : opened more = opened docs) (hsubset : docs ⊆ more)
    (hmore : ∀ d ∈ more, d ∈ docs ∨ d = doc)
    (hcovered : ∀ around, doc.coverage.encloses around = true →
      ∃ d ∈ more, d.IsAt doc.project doc.resource ∧ d.coverage.encloses around = true) :
    (draft.add doc).Holds more := by
  have hmerged :
      draft.merged doc = { known with coverage := known.coverage.union doc.coverage } := by
    rw [merged, hknown]
  refine ⟨?_, ?_, ?_, ?_⟩
  · intro project resource found hat
    rw [at?_add htaken] at hat
    split at hat
    next hplace =>
      obtain ⟨rfl, rfl⟩ := hplace
      obtain rfl := Option.some.inj hat
      exact h.isAt_merged doc
    next => exact h.isAt hat
  · intro project resource id
    rw [hopened, ← h.at?_iff, at?_add htaken]
    by_cases hplace : doc.project = project ∧ doc.resource = resource
    · obtain ⟨rfl, rfl⟩ := hplace
      simp [hmerged, hknown]
    · rw [if_neg hplace]
  · intro project resource found around hat hencloses
    rw [at?_add htaken] at hat
    split at hat
    next hplace =>
      obtain ⟨rfl, rfl⟩ := hplace
      obtain rfl := Option.some.inj hat
      rw [hmerged, Coverage.encloses_union] at hencloses
      rcases hencloses with hencloses | hencloses
      · obtain ⟨d, hd, hdoc⟩ := h.sound hknown hencloses
        exact ⟨d, hsubset hd, hdoc⟩
      · exact hcovered around hencloses
    next =>
      obtain ⟨d, hd, hdoc⟩ := h.sound hat hencloses
      exact ⟨d, hsubset hd, hdoc⟩
  · intro project resource found around hat d hd hplace hfree hencloses
    rw [hopened] at hfree
    rw [at?_add htaken] at hat
    split at hat
    next hsame =>
      obtain ⟨rfl, rfl⟩ := hsame
      obtain rfl := Option.some.inj hat
      rw [hmerged, Coverage.encloses_union]
      rcases hmore d hd with hd | rfl
      · exact Or.inl (h.complete hknown d hd hplace hfree hencloses)
      · exact Or.inr hencloses
    next hsame =>
      rcases hmore d hd with hd | rfl
      · exact h.complete hat d hd hplace hfree hencloses
      · exact absurd hplace hsame

/-- A document at a place where nothing stands opens it. -/
theorem Holds.add_opening (h : draft.Holds docs) {doc : Document}
    (htaken : draft.isTaken doc = false)
    (hnone : draft.at? doc.project doc.resource = none) :
    (draft.add doc).Holds (docs ++ [doc]) := by
  have hopened : opened (docs ++ [doc]) = opened docs ++ [doc] := by
    rw [h.opened_concat_eq htaken, if_pos hnone]
  have hmerged : draft.merged doc = doc := by rw [merged, hnone]
  have hclosed : ∀ d ∈ opened docs, ¬d.IsAt doc.project doc.resource := by
    intro d hd hplace
    obtain ⟨found, hfound, -⟩ := h.exists_at? hd
    rw [hplace.1, hplace.2, hnone] at hfound
    cases hfound
  refine ⟨?_, ?_, ?_, ?_⟩
  · intro project resource found hat
    rw [at?_add htaken] at hat
    split at hat
    next hplace =>
      obtain ⟨rfl, rfl⟩ := hplace
      obtain rfl := Option.some.inj hat
      exact h.isAt_merged doc
    next => exact h.isAt hat
  · intro project resource id
    rw [hopened, at?_add htaken]
    by_cases hplace : doc.project = project ∧ doc.resource = resource
    · obtain ⟨rfl, rfl⟩ := hplace
      rw [if_pos ⟨rfl, rfl⟩, hmerged]
      constructor
      · rintro ⟨found, heq, hid⟩
        obtain rfl := Option.some.inj heq
        exact ⟨doc, by simp, ⟨rfl, rfl⟩, hid⟩
      · rintro ⟨d, hd, hplace, hid⟩
        rcases List.mem_append.1 hd with hd | hd
        · exact absurd hplace (hclosed d hd)
        · rw [List.mem_singleton.1 hd] at hid
          exact ⟨doc, rfl, hid⟩
    · rw [if_neg hplace, h.at?_iff]
      constructor
      · rintro ⟨d, hd, hdoc⟩
        exact ⟨d, List.mem_append_left _ hd, hdoc⟩
      · rintro ⟨d, hd, hdoc⟩
        rcases List.mem_append.1 hd with hd | hd
        · exact ⟨d, hd, hdoc⟩
        · rw [List.mem_singleton.1 hd] at hdoc
          exact absurd hdoc.1 hplace
  · intro project resource found around hat hencloses
    rw [at?_add htaken] at hat
    split at hat
    next hplace =>
      obtain ⟨rfl, rfl⟩ := hplace
      obtain rfl := Option.some.inj hat
      rw [hmerged] at hencloses
      exact ⟨doc, by simp, ⟨rfl, rfl⟩, hencloses⟩
    next =>
      obtain ⟨d, hd, hdoc⟩ := h.sound hat hencloses
      exact ⟨d, List.mem_append_left _ hd, hdoc⟩
  · intro project resource found around hat d hd hplace hfree hencloses
    have hfree' : d.isTakenBy (opened docs) = false := by
      rw [Bool.eq_false_iff] at hfree ⊢
      exact fun htaken => hfree (isTakenBy_mono (opened_subset_concat docs doc) htaken)
    rw [at?_add htaken] at hat
    rcases List.mem_append.1 hd with hd | hd
    · split at hat
      next hsame =>
        -- nothing stood at the place, so a document that was added there was taken
        obtain ⟨rfl, rfl⟩ := hsame
        rcases exists_opened_or_isTakenBy hd with ⟨first, hfirst, hopen⟩ | htaken'
        · exact absurd ⟨hopen.1.trans hplace.1, hopen.2.trans hplace.2⟩ (hclosed first hfirst)
        · rw [hfree'] at htaken'
          cases htaken'
      next => exact h.complete hat d hd hplace hfree' hencloses
    · obtain rfl := List.mem_singleton.1 hd
      obtain ⟨rfl, rfl⟩ := hplace
      rw [if_pos ⟨rfl, rfl⟩, hmerged] at hat
      rwa [← Option.some.inj hat]

/-- **Adding a document** keeps what has become of the ones before it. -/
theorem Holds.add (h : draft.Holds docs) (doc : Document) :
    (draft.add doc).Holds (docs ++ [doc]) := by
  by_cases htaken : draft.isTaken doc = true
  · exact h.add_taken htaken
  · rw [Bool.not_eq_true] at htaken
    cases hat : draft.at? doc.project doc.resource with
    | none => exact h.add_opening htaken hat
    | some known =>
      refine h.merge htaken hat ?_ (List.subset_append_left _ _) ?_ ?_
      · rw [h.opened_concat_eq htaken, if_neg (by simp [hat])]
      · intro d hd
        exact (List.mem_append.1 hd).imp_right List.mem_singleton.1
      · intro around hencloses
        exact ⟨doc, by simp, ⟨rfl, rfl⟩, hencloses⟩

/-- A document at the place of a whole source file adds nothing. -/
theorem Holds.add_of_whole (h : draft.Holds docs) {doc whole : Document} {file : FileId}
    (hwhole : whole ∈ docs) (hid : whole.id = .source file) (hcoverage : whole.coverage = .all)
    (hplace : whole.IsAt doc.project doc.resource) : (draft.add doc).Holds docs := by
  by_cases htaken : draft.isTaken doc = true
  · rw [ScopeDraft.add_of_isTaken htaken]
    exact h
  · rw [Bool.not_eq_true] at htaken
    have hfree : whole.isTakenBy (opened docs) = false := by
      rw [isTakenBy, hid]
    obtain ⟨first, hfirst, hopen⟩ :
        ∃ first ∈ opened docs, first.IsAt doc.project doc.resource := by
      rcases exists_opened_or_isTakenBy hwhole with ⟨first, hfirst, hopen⟩ | htaken'
      · exact ⟨first, hfirst, hopen.1.trans hplace.1, hopen.2.trans hplace.2⟩
      · rw [hfree] at htaken'
        cases htaken'
    obtain ⟨known, hknown, -⟩ := h.exists_at? hfirst
    rw [hopen.1, hopen.2] at hknown
    refine h.merge htaken hknown rfl (List.Subset.refl docs) (fun d hd => Or.inl hd) ?_
    intro around _
    exact ⟨whole, hwhole, hplace, by rw [hcoverage, Coverage.encloses]⟩

/-- A run of steps that each add some documents to known ones. -/
theorem Holds.foldl {α : Type} (known : List Document) (documents : α → List Document)
    {step : ScopeDraft → α → ScopeDraft}
    (hstep : ∀ {draft docs} (a : α), known ⊆ docs → Holds draft docs →
      (step draft a).Holds (docs ++ documents a))
    (as : List α) (h : draft.Holds docs) (hknown : known ⊆ docs) :
    (as.foldl step draft).Holds (docs ++ as.flatMap documents) := by
  induction as generalizing draft docs with
  | nil => simpa using h
  | cons a as ih =>
    rw [List.foldl_cons, List.flatMap_cons, ← List.append_assoc]
    exact ih (hstep a hknown h) (List.Subset.trans hknown (List.subset_append_left _ _))

end ScopeDraft

end SourceSearch
