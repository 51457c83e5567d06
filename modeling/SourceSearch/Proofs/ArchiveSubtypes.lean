import SourceSearch.Proofs.Subtypes

/-!
# Subtypes of archive types

The subtypes of a type of an archive are looked for in the archive itself and in the projects that
see a project with the archive on its classpath (`Workspace.Shows`). The supertypes of archive
types, however, are bound across all archives. So a type of another archive is passed over, and with
it what inherits from the type of the first archive through it alone. What is found is found through
types that are looked at, and everything is found iff everything that inherits from the type is
looked at (`archive_subtypes_afterAll`).
-/

set_option autoImplicit false

namespace SourceSearch

namespace Workspace

/-- A project sees an archive if it sees a project with the archive on its classpath. -/
def SeesArchive (ws : Workspace) (name : String) (id : ArchiveId) : Prop :=
  ∃ home project, ws.Sees name home ∧ ws.project? home = some project ∧
    ∃ archive ∈ ws.libraries project, archive.id = id

/-- An archive shows its own types, and those of the source files of projects that see it. -/
def Shows (ws : Workspace) (id : ArchiveId) : Origin → Prop
  | .archive other => other = id
  | .source file => ∃ source, ws.source? file = some source ∧ ws.SeesArchive source.project id

variable {ws : Workspace}

/-! ## What is looked at -/

/-- The homes of a type of an archive are the projects with the archive on their classpath. -/
theorem mem_homeProjects_archive_iff (h : ws.FilesInStep) {id : ArchiveId} {name home : String} :
    home ∈ ws.homeProjects ⟨.archive id, name⟩ ↔ ∃ project, ws.project? home = some project ∧
      ∃ archive ∈ ws.libraries project, archive.id = id := by
  simp only [homeProjects, List.mem_map, List.mem_filter, Table.mem_values_iff, List.any_eq_true,
    beq_iff_eq]
  constructor
  · rintro ⟨project, ⟨⟨key, hproject⟩, hlibrary⟩, rfl⟩
    have hname : project.name = key := (h.project_name hproject).1
    exact ⟨project, hname ▸ hproject, hlibrary⟩
  · rintro ⟨project, hproject, hlibrary⟩
    exact ⟨project, ⟨⟨home, hproject⟩, hlibrary⟩, (h.project_name hproject).1⟩

/-- **The projects that see a type** of an archive are those that see the archive. -/
theorem mem_projectsSeeing_archive_iff (h : ws.FilesInStep) {id : ArchiveId}
    {name typeName : String} :
    name ∈ ws.projectsSeeing ⟨.archive id, typeName⟩ ↔
      (∃ project, ws.project? name = some project) ∧ ws.SeesArchive name id := by
  simp only [projectsSeeing, List.mem_filter, Table.mem_keys_iff, List.contains_iff_mem,
    List.mem_append, List.mem_flatMap]
  refine and_congr_right fun _ => ?_
  constructor
  · rintro (hhome | ⟨home, hhome, hdependent⟩)
    · obtain ⟨project, hproject, hlibrary⟩ := (mem_homeProjects_archive_iff h).1 hhome
      exact ⟨name, project, .refl, hproject, hlibrary⟩
    · obtain ⟨project, hproject, hlibrary⟩ := (mem_homeProjects_archive_iff h).1 hhome
      exact ⟨home, project, ((mem_dependents_iff h hproject).1 hdependent).2, hproject, hlibrary⟩
  · rintro ⟨home, project, hsees, hproject, hlibrary⟩
    have hhome : home ∈ ws.homeProjects ⟨.archive id, typeName⟩ :=
      (mem_homeProjects_archive_iff h).2 ⟨project, hproject, hlibrary⟩
    by_cases hsame : name = home
    · exact Or.inl (hsame ▸ hhome)
    · exact Or.inr ⟨home, hhome, (mem_dependents_iff h hproject).2 ⟨hsame, hsees⟩⟩

/-- The types of a project are declared in its source files. -/
theorem exists_source_of_mem_projectTypes (h : ws.InStep) {name : String} {key : TypeKey}
    (hkey : key ∈ ws.projectTypes name) :
    ∃ file source, key.origin = .source file ∧ ws.source? file = some source ∧
      source.project = name := by
  unfold projectTypes at hkey
  split at hkey
  next project hproject =>
    obtain ⟨source, hsource, hkey⟩ := List.mem_flatMap.1 hkey
    obtain ⟨info, hinfo, rfl⟩ := List.mem_map.1 hkey
    obtain ⟨hget, hname⟩ := (h.files.mem_parsedUnits_iff hproject).1 hsource
    exact ⟨source.id, source, (h.files.namedIn_source hget hinfo).origin_eq, hget, hname⟩
  next => cases hkey

/-- The types of an archive are the declared types with the archive as their origin. -/
theorem mem_archive_types_iff (h : ws.InStep) {id : ArchiveId} {key : TypeKey} {info : DeclaredType}
    (hinfo : ws.declared? key = some info) :
    (∃ archive, ws.archive? id = some archive ∧ key ∈ archive.types.map (·.key)) ↔
      key.origin = .archive id := by
  constructor
  · rintro ⟨archive, harchive, hkey⟩
    obtain ⟨other, hother, rfl⟩ := List.mem_map.1 hkey
    obtain ⟨rfl, path, hpath⟩ := mem_entries_of_archive? harchive
    exact (h.archives.namedIn_archive hpath hother).origin_eq
  · intro horigin
    have hkey := (h.of_declared? hinfo).1
    rw [declared?, horigin] at hinfo
    obtain ⟨archive, harchive, hfound⟩ := Option.bind_eq_some_iff.1 hinfo
    exact ⟨archive, harchive, List.mem_map.2 ⟨info, List.mem_of_find?_eq_some hfound, hkey⟩⟩

end Workspace

namespace BoundWorkspace

variable {ws : Workspace} {id : ArchiveId} {name : String} {key : TypeKey}

/-- What is looked at for a type of an archive comes from projects or from the archive. -/
theorem mem_subtypeCandidates_archive (s : BoundWorkspace) :
    key ∈ s.subtypeCandidates ⟨.archive id, name⟩ ↔
      (∃ project ∈ s.workspace.projectsSeeing ⟨.archive id, name⟩,
        key ∈ s.workspace.projectTypes project) ∨
      ∃ archive, s.workspace.archive? id = some archive ∧ key ∈ archive.types.map (·.key) := by
  rw [subtypeCandidates, List.mem_append, List.mem_flatMap]
  apply or_congr_right
  dsimp only
  cases s.workspace.archive? id <;> simp

/-- **The candidates** for subtypes of a type of an archive are the declared types that the archive
shows. -/
theorem mem_subtypeCandidates_iff_shows (h : ws.InStep) {info : DeclaredType}
    (hinfo : ws.declared? key = some info) :
    key ∈ (ofWorkspace ws).subtypeCandidates ⟨.archive id, name⟩ ↔ ws.Shows id key.origin := by
  rw [mem_subtypeCandidates_archive]
  show (∃ project ∈ ws.projectsSeeing _, key ∈ ws.projectTypes project) ∨
    (∃ archive, ws.archive? id = some archive ∧ _) ↔ _
  rw [Workspace.mem_archive_types_iff h hinfo]
  cases horigin : key.origin with
  | source file =>
    constructor
    · rintro (⟨project, hproject, hkey⟩ | hid)
      · obtain ⟨home, source, hhome, hsource, rfl⟩ :=
          Workspace.exists_source_of_mem_projectTypes h hkey
        obtain rfl := Origin.source.inj (horigin.symm.trans hhome)
        exact ⟨source, hsource, ((Workspace.mem_projectsSeeing_archive_iff h.files).1 hproject).2⟩
      · cases hid
    · rintro ⟨source, hsource, hsees⟩
      have hproject : source.project ∈ ws.projectsSeeing ⟨.archive id, name⟩ :=
        (Workspace.mem_projectsSeeing_archive_iff h.files).2
          ⟨h.files.exists_project hsource, hsees⟩
      exact Or.inl ⟨source.project, hproject,
        mem_projectTypes_of_declared? h horigin hsource hinfo⟩
  | archive other =>
    constructor
    · rintro (⟨project, -, hkey⟩ | hid)
      · obtain ⟨home, source, hhome, -⟩ := Workspace.exists_source_of_mem_projectTypes h hkey
        rw [horigin] at hhome
        cases hhome
      · exact Origin.archive.inj hid
    · intro hshows
      exact Or.inr (congrArg Origin.archive hshows)

/-- A chain of direct supertypes through types that an archive shows. -/
def InheritsThrough (s : BoundWorkspace) (id : ArchiveId) : TypeKey → TypeKey → Prop :=
  Relation.TransGen fun sub sup => s.workspace.Shows id sub.origin ∧ s.Extends sub sup

/-- **What is found** for a type of an archive inherits from it through types that the archive
shows. -/
theorem mem_subtypes_iff_inheritsThrough (h : ws.InStep) :
    key ∈ (ofWorkspace ws).subtypes ⟨.archive id, name⟩ ↔
      key ≠ ⟨.archive id, name⟩ ∧ (ofWorkspace ws).InheritsThrough id key ⟨.archive id, name⟩ := by
  have hstep : (fun sub sup => sub ∈ (ofWorkspace ws).subtypeCandidates ⟨.archive id, name⟩ ∧
      (ofWorkspace ws).Extends sub sup) =
      fun sub sup => ws.Shows id sub.origin ∧ (ofWorkspace ws).Extends sub sup := by
    funext sub sup
    apply propext
    apply and_congr_left
    intro hextends
    obtain ⟨info, hinfo⟩ := (inSight_ofWorkspace h).declared hextends
    exact mem_subtypeCandidates_iff_shows h hinfo
  rw [((ofWorkspace ws).subtypes_nodup_and_mem_iff _).2, hstep]
  apply and_congr_right
  intro hne
  rw [Relation.reflTransGen_iff_eq_or_transGen]
  exact ⟨fun hpath => hpath.resolve_left (Ne.symm hne), Or.inr⟩

/-- Where an archive shows whatever inherits from a type, all chains go through what it shows. -/
theorem inheritsThrough_of_shows (s : BoundWorkspace)
    (hshows : ∀ sub, Relation.TransGen s.Extends sub ⟨.archive id, name⟩ →
      s.workspace.Shows id sub.origin)
    (hextends : Relation.TransGen s.Extends key ⟨.archive id, name⟩) :
    s.InheritsThrough id key ⟨.archive id, name⟩ := by
  induction hextends using Relation.TransGen.head_induction_on with
  | single hsup => exact .single ⟨hshows _ (.single hsup), hsup⟩
  | head hsup hrest ih => exact .head ⟨hshows _ (.head hsup hrest), hsup⟩ ih

end BoundWorkspace

/-! ## After any edits -/

/-- **The subtypes** of a type of an archive in a workspace that edits have made are, each once, the
other types that inherit from it through types which its archive shows. They are all the types that
inherit from it iff the archive shows all of these. -/
theorem archive_subtypes_afterAll (edits : List Edit) (id : ArchiveId) (name : String) :
    let s := BoundWorkspace.ofWorkspace (Workspace.initial.afterAll edits)
    let focus : TypeKey := ⟨.archive id, name⟩
    (s.hierarchy focus).subtypes.Nodup ∧
      (∀ key, key ∈ (s.hierarchy focus).subtypes ↔
        key ≠ focus ∧ s.InheritsThrough id key focus) ∧
      ((∀ key, key ≠ focus →
          (key ∈ (s.hierarchy focus).subtypes ↔ Relation.TransGen s.Extends key focus)) ↔
        ∀ key, Relation.TransGen s.Extends key focus → s.workspace.Shows id key.origin) := by
  intro s focus
  have h : (Workspace.initial.afterAll edits).InStep := Workspace.inStep_afterAll edits
  have hmem : ∀ key, key ∈ (s.hierarchy focus).subtypes ↔
      key ≠ focus ∧ s.InheritsThrough id key focus :=
    fun _ => BoundWorkspace.mem_subtypes_iff_inheritsThrough h
  refine ⟨(s.subtypes_nodup_and_mem_iff focus).1, hmem, ?_⟩
  constructor
  · intro hall key hextends
    by_cases hne : key = focus
    · subst hne
      exact rfl
    · -- the chain of a type that is found starts with a type that the archive shows
      have hthrough := ((hmem key).1 ((hall key hne).2 hextends)).2
      obtain ⟨sup, ⟨hshows, -⟩, -⟩ := Relation.TransGen.head'_iff.1 hthrough
      exact hshows
  · intro hshows key hne
    rw [hmem]
    constructor
    · rintro ⟨-, hthrough⟩
      exact Relation.TransGen.mono (fun _ _ hstep => hstep.2) _ _ hthrough
    · intro hextends
      exact ⟨hne, s.inheritsThrough_of_shows hshows hextends⟩

end SourceSearch
