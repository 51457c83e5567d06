import Mathlib.Data.List.Nodup
import Mathlib.Data.List.Perm.Subperm
import SourceSearch.Proofs.DeclaredNames
import SourceSearch.Proofs.Reachable
import SourceSearch.Proofs.Visibility

/-!
# Providers of an environment

The providers of a project are found depth first, and a project that is among them is not expanded
again. What expansion adds is described by `Expands`: the sources of projects that are reached, and
with each of them the projects that it exports. Entries of a classpath are worked off one after the
other (`expands_entries`), each with the fuel that suffices for the projects not yet listed, so
expansion itself is described by induction on the fuel (`expands_expand`), and more fuel makes no
difference (`expand_add_one`). Only the root follows entries that are not exported and only it adds
archives, which are those of its libraries (`archivesOf_expand_root`). Together this says which
providers an environment has (`providers_afterAll`).
-/

set_option autoImplicit false

namespace SourceSearch

/-- A project exports another one, and both exist. -/
def Workspace.Exports (ws : Workspace) (name required : String) : Prop :=
  ∃ project other, ws.project? name = some project ∧
    ClasspathEntry.project required true ∈ project.classpath ∧ ws.project? required = some other

/-- The project whose sources the provider is. -/
def Provider.project? : Provider → Option Project
  | .sources project => some project
  | .archive _ => none

/-- The archive that the provider is. -/
def Provider.archive? : Provider → Option Archive
  | .sources _ => none
  | .archive library => some library

namespace Environment

variable {ws : Workspace} {fuel : Nat} {isRoot : Bool} {project : Project} {entry : ClasspathEntry}
  {before mid after providers : List Provider} {reached : String → Prop}

/-- The projects whose sources are among the providers. -/
def projectsOf (providers : List Provider) : List Project := providers.filterMap (·.project?)

/-- The names of the projects whose sources are among the providers. -/
def sourceNames (providers : List Provider) : List String := (projectsOf providers).map (·.name)

/-- The archives among the providers. -/
def archivesOf (providers : List Provider) : List Archive := providers.filterMap (·.archive?)

@[simp] theorem projectsOf_append (before after : List Provider) :
    projectsOf (before ++ after) = projectsOf before ++ projectsOf after :=
  List.filterMap_append

@[simp] theorem archivesOf_append (before after : List Provider) :
    archivesOf (before ++ after) = archivesOf before ++ archivesOf after :=
  List.filterMap_append

@[simp] theorem projectsOf_sources (project : Project) :
    projectsOf [.sources project] = [project] := rfl

@[simp] theorem sourceNames_append (before after : List Provider) :
    sourceNames (before ++ after) = sourceNames before ++ sourceNames after := by
  simp [sourceNames]

@[simp] theorem sourceNames_sources (project : Project) :
    sourceNames [.sources project] = [project.name] := rfl

theorem sourceNames_subset (h : before <+: after) : sourceNames before ⊆ sourceNames after :=
  ((h.filterMap _).map _).subset

@[simp] theorem projectsOf_archive (archive : Archive) : projectsOf [.archive archive] = [] := rfl

@[simp] theorem archivesOf_sources (project : Project) : archivesOf [.sources project] = [] := rfl

@[simp] theorem archivesOf_archive (archive : Archive) :
    archivesOf [.archive archive] = [archive] := rfl

theorem mem_archivesOf_iff {archive : Archive} :
    archive ∈ archivesOf providers ↔ .archive archive ∈ providers := by
  rw [archivesOf, List.mem_filterMap]
  constructor
  · rintro ⟨provider, hmem, hprovider⟩
    cases provider with
    | sources project => cases hprovider
    | archive other => exact Option.some.inj hprovider ▸ hmem
  · exact fun hmem => ⟨_, hmem, rfl⟩

/-- A project is looked for by its name. -/
theorem any_isSourcesOf {name : String} :
    providers.any (·.isSourcesOf name) = true ↔ name ∈ sourceNames providers := by
  simp only [sourceNames, projectsOf, List.any_eq_true, List.mem_map, List.mem_filterMap]
  constructor
  · rintro ⟨provider, hmem, hname⟩
    cases provider with
    | sources project => exact ⟨project, ⟨_, hmem, rfl⟩, beq_iff_eq.1 hname⟩
    | archive archive => cases hname
  · rintro ⟨project, ⟨provider, hmem, hproject⟩, rfl⟩
    cases provider with
    | sources other =>
      obtain rfl := Option.some.inj hproject
      exact ⟨_, hmem, beq_self_eq_true _⟩
    | archive archive => cases hproject

/-- An archive is looked for by its number. -/
theorem any_isArchive (providers : List Provider) (id : ArchiveId) :
    providers.any (·.isArchive id) = (archivesOf providers).any (·.id == id) := by
  rw [archivesOf, List.any_filterMap]
  congr 1
  funext provider
  cases provider <;> rfl

@[simp] theorem projectsOf_addArchive (archive : Archive) (providers : List Provider) :
    projectsOf (addArchive archive providers) = projectsOf providers := by
  unfold addArchive
  split <;> simp

theorem prefix_addArchive (archive : Archive) (providers : List Provider) :
    providers <+: addArchive archive providers := by
  unfold addArchive
  split
  · exact List.prefix_rfl
  · exact List.prefix_append _ _

/-- An archive is added to the providers as it is to the archives of a project. -/
theorem archivesOf_addArchive (archive : Archive) (providers : List Provider) :
    archivesOf (addArchive archive providers) =
      Workspace.addArchive (archivesOf providers) archive := by
  rw [addArchive, any_isArchive, Workspace.addArchive]
  split <;> simp

/-! ## Entries of a classpath -/

/-- What an entry of a classpath adds, if `expandRequired` adds a required project. -/
def addEntry (ws : Workspace) (isRoot : Bool)
    (expandRequired : Project → List Provider → List Provider) (providers : List Provider) :
    ClasspathEntry → List Provider
  | .project name exported =>
    if isRoot || exported then
      match ws.project? name with
      | some required => expandRequired required providers
      | none => providers
    else providers
  | library =>
    if isRoot then
      match ws.library? library with
      | some archive => addArchive archive providers
      | none => providers
    else providers

/-- A project that is not listed yet is, and its entries are added one after the other. -/
theorem expand_succ (ws : Workspace) (fuel : Nat) (isRoot : Bool) (project : Project)
    (providers : List Provider) :
    expand ws (fuel + 1) isRoot project providers =
      if project.name ∈ sourceNames providers then providers
      else project.classpath.foldl (addEntry ws isRoot (expand ws fuel false))
        (providers ++ [.sources project]) := by
  rw [expand]
  refine if_congr any_isSourcesOf rfl (List.foldl_ext _ _ _ fun found entry _ => ?_)
  cases entry <;> rfl

/-- An entry leads to a project if it names it and is followed. -/
def Leads (isRoot : Bool) (entry : ClasspathEntry) (name : String) : Prop :=
  ∃ exported, entry = .project name exported ∧ (isRoot || exported) = true

/-- An entry that leads to an existing project expands it, and others expand none. -/
theorem addEntry_eq (h : ws.FilesInStep) (isRoot : Bool)
    (expandRequired : Project → List Provider → List Provider) (providers : List Provider)
    (entry : ClasspathEntry) :
    (∃ required, Leads isRoot entry required.name ∧ ws.project? required.name = some required ∧
      addEntry ws isRoot expandRequired providers entry = expandRequired required providers) ∨
    (∀ name, Leads isRoot entry name → ws.project? name = none) ∧
      (addEntry ws isRoot expandRequired providers entry = providers ∨
        ∃ archive, addEntry ws isRoot expandRequired providers entry =
          addArchive archive providers) := by
  cases entry with
  | project name exported =>
    simp only [addEntry]
    by_cases hfollowed : (isRoot || exported) = true
    · rw [if_pos hfollowed]
      cases hrequired : ws.project? name with
      | none =>
        refine Or.inr ⟨?_, Or.inl rfl⟩
        rintro other ⟨exported', heq, -⟩
        cases heq
        exact hrequired
      | some required =>
        obtain rfl := (h.project_name hrequired).1
        exact Or.inl ⟨required, ⟨exported, rfl, hfollowed⟩, hrequired, rfl⟩
    · rw [if_neg hfollowed]
      refine Or.inr ⟨?_, Or.inl rfl⟩
      rintro other ⟨exported', heq, hother⟩
      cases heq
      exact absurd hother hfollowed
  | library path | «variable» name =>
    refine Or.inr ⟨?_, ?_⟩
    · rintro other ⟨exported', heq, -⟩
      cases heq
    · simp only [addEntry]
      split
      · split
        · exact Or.inr ⟨_, rfl⟩
        · exact Or.inl rfl
      · exact Or.inl rfl

/-! ## What expansion adds -/

/-- The providers list sources of projects as they are in the workspace, none of them twice. -/
structure Listed (ws : Workspace) (providers : List Provider) : Prop where
  known : ∀ project ∈ projectsOf providers, ws.project? project.name = some project
  nodup : (sourceNames providers).Nodup

/-- The fuel suffices for the projects that are not listed yet. -/
structure Ample (ws : Workspace) (fuel : Nat) (providers : List Provider) : Prop
    extends Listed ws providers where
  enough : ws.projects.entries.length ≤ fuel + (sourceNames providers).length

/-- **Expansion** adds sources of projects that are reached, and with each of them those of the
projects that it exports. -/
structure Expands (ws : Workspace) (reached : String → Prop) (before after : List Provider) : Prop
    extends Listed ws after where
  longer : before <+: after
  reaches : ∀ project ∈ projectsOf after, project ∈ projectsOf before ∨ reached project.name
  closed : ∀ project ∈ projectsOf after, project ∈ projectsOf before ∨
    ∀ name, ws.Exports project.name name → name ∈ sourceNames after

theorem Listed.addArchive (h : Listed ws providers) (archive : Archive) :
    Listed ws (addArchive archive providers) where
  known := by simpa using h.known
  nodup := by simpa [sourceNames] using h.nodup

/-- When there is no fuel left, all projects are listed. -/
theorem Ample.mem_sourceNames (h : Ample ws 0 providers) {name : String}
    (hproject : ws.project? name = some project) : name ∈ sourceNames providers := by
  have hkeys : sourceNames providers ⊆ ws.projects.keys := by
    intro other hother
    obtain ⟨found, hfound, rfl⟩ := List.mem_map.1 hother
    exact Table.mem_keys_iff.2 ⟨found, h.known found hfound⟩
  have hperm := (List.subperm_of_subset h.nodup hkeys).perm_of_length_le (by
    simpa [Table.keys] using h.enough)
  exact hperm.mem_iff.2 (Table.mem_keys_iff.2 ⟨project, hproject⟩)

theorem Expands.refl (h : Listed ws providers) : Expands ws reached providers providers where
  toListed := h
  longer := List.prefix_rfl
  reaches _ := Or.inl
  closed _ := Or.inl

theorem Expands.trans (h : Expands ws reached before mid) (h' : Expands ws reached mid after) :
    Expands ws reached before after where
  toListed := h'.toListed
  longer := h.longer.trans h'.longer
  reaches p hp := (h'.reaches p hp).elim (h.reaches p) Or.inr
  closed p hp := (h'.closed p hp).elim
    (fun hmid => (h.closed p hmid).imp_right fun hclosed name hname =>
      sourceNames_subset h'.longer (hclosed name hname))
    Or.inr

theorem Expands.mono {reached' : String → Prop} (h : Expands ws reached before after)
    (hreached : ∀ name, reached name → reached' name) : Expands ws reached' before after where
  toListed := h.toListed
  longer := h.longer
  reaches p hp := (h.reaches p hp).imp_right (hreached p.name)
  closed := h.closed

theorem Expands.ample (h : Expands ws reached before after) (hample : Ample ws fuel before) :
    Ample ws fuel after where
  toListed := h.toListed
  enough := by
    have hlength : (sourceNames before).length ≤ (sourceNames after).length :=
      List.IsPrefix.length_le (List.IsPrefix.map Project.name (h.longer.filterMap Provider.project?))
    have henough := hample.enough
    omega

/-- A project that is not listed yet may be added, with fuel for one project less. -/
theorem Ample.add (h : Ample ws (fuel + 1) providers)
    (hproject : ws.project? project.name = some project)
    (hnew : project.name ∉ sourceNames providers) :
    Ample ws fuel (providers ++ [.sources project]) where
  known := by
    intro other hother
    rcases List.mem_append.1 (projectsOf_append _ _ ▸ hother) with hother | hother
    · exact h.known other hother
    · rw [List.mem_singleton.1 hother]
      exact hproject
  nodup := by
    rw [sourceNames_append, sourceNames_sources, List.nodup_append]
    refine ⟨h.nodup, List.nodup_singleton _, ?_⟩
    rintro name hname other hother rfl
    rw [List.mem_singleton.1 hother] at hname
    exact hnew hname
  enough := by
    have henough := h.enough
    rw [sourceNames_append, List.length_append, sourceNames_sources, List.length_singleton]
    omega

/-- The description of expansion with some fuel. -/
def Works (ws : Workspace) (fuel : Nat) : Prop :=
  ∀ {project before}, Ample ws fuel before → ws.project? project.name = some project →
    Expands ws (Relation.ReflTransGen ws.Exports project.name) before
      (expand ws fuel false project before) ∧
    project.name ∈ sourceNames (expand ws fuel false project before)

/-- **One entry** adds what it leads to. -/
theorem expands_addEntry (h : ws.FilesInStep) (hworks : Works ws fuel) (reached : String → Prop)
    (hample : Ample ws fuel before)
    (hreached : ∀ name other, Leads isRoot entry name → ws.project? name = some other →
      ∀ last, Relation.ReflTransGen ws.Exports name last → reached last) :
    Expands ws reached before (addEntry ws isRoot (expand ws fuel false) before entry) ∧
      ∀ name other, Leads isRoot entry name → ws.project? name = some other →
        name ∈ sourceNames (addEntry ws isRoot (expand ws fuel false) before entry) := by
  rcases addEntry_eq h isRoot (expand ws fuel false) before entry with
    ⟨required, hleads, hrequired, heq⟩ | ⟨hnone, heq⟩
  · obtain ⟨hexpands, hmem⟩ := hworks hample hrequired
    rw [heq]
    refine ⟨hexpands.mono (hreached _ _ hleads hrequired), ?_⟩
    rintro name other ⟨exported, hentry, -⟩ -
    obtain ⟨exported', hentry', -⟩ := hleads
    obtain ⟨rfl, -⟩ := ClasspathEntry.project.inj (hentry.symm.trans hentry')
    exact hmem
  · refine ⟨?_, fun name other hleads hother => ?_⟩
    · rcases heq with heq | ⟨archive, heq⟩
      · rw [heq]
        exact .refl hample.toListed
      · rw [heq]
        exact {
          toListed := hample.toListed.addArchive archive
          longer := prefix_addArchive archive before
          reaches := by simpa using fun p hp => Or.inl hp
          closed := by simpa using fun p hp => Or.inl hp }
    · rw [hnone name hleads] at hother
      cases hother

/-- **The entries** of a classpath add what each of them leads to. -/
theorem expands_entries (h : ws.FilesInStep) (hworks : Works ws fuel)
    (hample : Ample ws fuel before) {entries : List ClasspathEntry}
    (hreached : ∀ entry ∈ entries, ∀ name other, Leads isRoot entry name →
      ws.project? name = some other → ∀ last, Relation.ReflTransGen ws.Exports name last →
        reached last) :
    Expands ws reached before (entries.foldl (addEntry ws isRoot (expand ws fuel false)) before) ∧
      ∀ entry ∈ entries, ∀ name other, Leads isRoot entry name → ws.project? name = some other →
        name ∈ sourceNames (entries.foldl (addEntry ws isRoot (expand ws fuel false)) before) := by
  induction entries generalizing before with
  | nil => exact ⟨.refl hample.toListed, by simp⟩
  | cons entry entries ih =>
    obtain ⟨hfirst, hleads⟩ := expands_addEntry h hworks reached hample
      (hreached entry List.mem_cons_self)
    obtain ⟨hrest, hothers⟩ := ih (hfirst.ample hample) fun other hother =>
      hreached other (List.mem_cons_of_mem _ hother)
    refine ⟨hfirst.trans hrest, ?_⟩
    rintro other hother name required hname hrequired
    rcases List.mem_cons.1 hother with rfl | hother
    · exact sourceNames_subset hrest.longer (hleads name required hname hrequired)
    · exact hothers other hother name required hname hrequired

/-- What a project adds that is not listed yet: its sources, and what its entries lead to. -/
theorem expands_classpath (h : ws.FilesInStep) (hworks : Works ws fuel) (isRoot : Bool)
    (reached : String → Prop) (hample : Ample ws (fuel + 1) before)
    (hproject : ws.project? project.name = some project)
    (hnew : project.name ∉ sourceNames before) (hself : reached project.name)
    (hreached : ∀ entry ∈ project.classpath, ∀ name other, Leads isRoot entry name →
      ws.project? name = some other → ∀ last, Relation.ReflTransGen ws.Exports name last →
        reached last) :
    let after := project.classpath.foldl (addEntry ws isRoot (expand ws fuel false))
      (before ++ [.sources project])
    Expands ws reached before after ∧ before ++ [.sources project] <+: after ∧
      ∀ entry ∈ project.classpath, ∀ name other, Leads isRoot entry name →
        ws.project? name = some other → name ∈ sourceNames after := by
  intro after
  obtain ⟨hexpands, hleads⟩ := expands_entries h hworks (hample.add hproject hnew) hreached
  have hmid : ∀ p ∈ projectsOf (before ++ [.sources project]), p ∈ projectsOf before ∨ p = project :=
    fun p hp => by simpa using hp
  refine ⟨{ toListed := hexpands.toListed, longer := ?_, reaches := ?_, closed := ?_ },
    hexpands.longer, hleads⟩
  · exact (List.prefix_append _ _).trans hexpands.longer
  · intro p hp
    rcases hexpands.reaches p hp with hp | hp
    · refine (hmid p hp).imp_right ?_
      rintro rfl
      exact hself
    · exact Or.inr hp
  · intro p hp
    rcases hexpands.closed p hp with hp | hp
    · refine (hmid p hp).imp_right ?_
      rintro rfl name ⟨found, other, hfound, hmem, hother⟩
      obtain rfl := Option.some.inj (hproject.symm.trans hfound)
      exact hleads _ hmem name other ⟨true, rfl, Bool.or_true _⟩ hother
    · exact Or.inr hp

/-- **Expansion of a required project**, by induction on the fuel. -/
theorem expands_expand (h : ws.FilesInStep) (fuel : Nat) : Works ws fuel := by
  induction fuel with
  | zero => exact fun hample hproject => ⟨.refl hample.toListed, hample.mem_sourceNames hproject⟩
  | succ fuel ih =>
    intro project before hample hproject
    rw [expand_succ]
    split
    next hlisted => exact ⟨.refl hample.toListed, hlisted⟩
    next hnew =>
      obtain ⟨hexpands, hlonger, -⟩ := expands_classpath h ih false
        (Relation.ReflTransGen ws.Exports project.name) hample hproject hnew .refl
        fun entry hentry name other hleads hother last hlast => by
          obtain ⟨exported, rfl, hexported⟩ := hleads
          obtain rfl : exported = true := hexported
          exact .head ⟨project, other, hproject, hentry, hother⟩ hlast
      exact ⟨hexpands, sourceNames_subset hlonger (by simp)⟩

/-! ## Fuel -/

/-- **More fuel** makes no difference when there is enough of it. -/
theorem expand_add_one (h : ws.FilesInStep) (hample : Ample ws fuel providers)
    (hproject : ws.project? project.name = some project) :
    expand ws (fuel + 1) isRoot project providers = expand ws fuel isRoot project providers := by
  induction fuel generalizing isRoot project providers with
  | zero =>
    rw [expand_succ, if_pos (hample.mem_sourceNames hproject)]
    rfl
  | succ fuel ih =>
    -- the entries are added alike, since the fuel is enough for each of them
    have hentries : ∀ (entries : List ClasspathEntry) {found : List Provider},
        Ample ws fuel found → entries.foldl (addEntry ws isRoot (expand ws (fuel + 1) false)) found =
          entries.foldl (addEntry ws isRoot (expand ws fuel false)) found := by
      intro entries
      induction entries with
      | nil => exact fun _ => rfl
      | cons entry entries ihentries =>
        intro found hfound
        have hentry : addEntry ws isRoot (expand ws (fuel + 1) false) found entry =
            addEntry ws isRoot (expand ws fuel false) found entry := by
          cases entry with
          | project name exported =>
            simp only [addEntry]
            cases hrequired : ws.project? name with
            | none => rfl
            | some required =>
              obtain rfl := (h.project_name hrequired).1
              simp only [ih hfound hrequired]
          | library | «variable» => rfl
        rw [List.foldl_cons, List.foldl_cons, hentry]
        exact ihentries ((expands_addEntry h (expands_expand h fuel) (fun _ => True) hfound
          fun _ _ _ _ _ _ => True.intro).1.ample hfound)
    rw [expand_succ, expand_succ]
    split
    next => rfl
    next hnew => exact hentries _ (hample.add hproject hnew)

/-! ## Archives -/

/-- A required project adds no archive. -/
theorem archivesOf_expand (ws : Workspace) (fuel : Nat) (project : Project)
    (providers : List Provider) :
    archivesOf (expand ws fuel false project providers) = archivesOf providers := by
  induction fuel generalizing project providers with
  | zero => rfl
  | succ fuel ih =>
    have hentry : ∀ found entry, archivesOf (addEntry ws false (expand ws fuel false) found entry) =
        archivesOf found := by
      intro found entry
      cases entry with
      | project name exported =>
        simp only [addEntry]
        split
        · split
          · exact ih _ _
          · rfl
        · rfl
      | library | «variable» => rfl
    rw [expand_succ]
    split
    · rfl
    · refine List.foldlRecOn (motive := fun found => archivesOf found = archivesOf providers)
        project.classpath _ (by simp) fun found hfound entry _ => ?_
      rw [hentry, hfound]

/-- The entries of the root add the archives that they name. -/
theorem archivesOf_entries (ws : Workspace) (fuel : Nat) (entries : List ClasspathEntry)
    (providers : List Provider) :
    archivesOf (entries.foldl (addEntry ws true (expand ws fuel false)) providers) =
      (entries.filterMap ws.library?).foldl Workspace.addArchive (archivesOf providers) := by
  induction entries generalizing providers with
  | nil => rfl
  | cons entry entries ih =>
    rw [List.foldl_cons, ih, List.filterMap_cons]
    cases entry with
    | project name exported =>
      simp only [addEntry, Bool.true_or, if_true, Workspace.library?]
      split
      · rw [archivesOf_expand]
      · rfl
    | library | «variable» =>
      simp only [addEntry, if_true]
      split
      next archive harchive => rw [harchive, List.foldl_cons, archivesOf_addArchive]
      next harchive => rw [harchive]

/-- **The archives** of an environment are those of its project's own classpath. -/
theorem archivesOf_expand_root (ws : Workspace) (fuel : Nat) (project : Project) :
    archivesOf (expand ws (fuel + 1) true project []) = ws.libraries project := by
  rw [expand_succ, if_neg (by simp [sourceNames, projectsOf]), archivesOf_entries]
  rfl

end Environment

namespace Workspace

variable {ws : Workspace}

/-! ## The archives of a project -/

/-- No archive is added twice. -/
theorem nodup_foldl_addArchive {archives : List Archive} (h : (archives.map (·.id)).Nodup)
    (more : List Archive) : ((more.foldl addArchive archives).map (·.id)).Nodup := by
  refine List.foldlRecOn (motive := fun found : List Archive => (found.map (·.id)).Nodup)
    more _ h fun found hfound archive _ => ?_
  unfold addArchive
  split
  next => exact hfound
  next hnew =>
    rw [List.map_append, List.nodup_append]
    refine ⟨hfound, List.nodup_singleton _, ?_⟩
    rintro id hid other hother rfl
    obtain ⟨listed, hlisted, rfl⟩ := List.mem_map.1 hid
    exact hnew (List.any_eq_true.2 ⟨listed, hlisted, beq_iff_eq.2 (List.mem_singleton.1 hother)⟩)

/-- The numbers of archives that are added one after the other. -/
theorem mem_ids_foldl_addArchive_iff {id : ArchiveId} {archives more : List Archive} :
    id ∈ (more.foldl addArchive archives).map (·.id) ↔
      id ∈ archives.map (·.id) ∨ id ∈ more.map (·.id) := by
  induction more generalizing archives with
  | nil => simp
  | cons first more ih =>
    have hfirst : id ∈ (addArchive archives first).map (·.id) ↔
        id ∈ archives.map (·.id) ∨ id = first.id := by
      unfold addArchive
      split
      next hlisted =>
        obtain ⟨listed, hlisted, heq⟩ := List.any_eq_true.1 hlisted
        refine (or_iff_left_of_imp ?_).symm
        rintro rfl
        exact List.mem_map.2 ⟨listed, hlisted, beq_iff_eq.1 heq⟩
      next => rw [List.map_append, List.mem_append, List.map_singleton, List.mem_singleton]
    rw [List.foldl_cons, ih, hfirst, List.map_cons, List.mem_cons, or_assoc]

/-- **The archives of a project** are those that an entry of its classpath names. -/
theorem mem_libraries_iff (h : ws.ArchivesInStep) {project : Project} {archive : Archive} :
    archive ∈ ws.libraries project ↔
      ∃ entry ∈ project.classpath, ws.library? entry = some archive := by
  refine ⟨exists_library?_of_mem_libraries, fun hentry => ?_⟩
  have hid : archive.id ∈ (ws.libraries project).map (·.id) :=
    mem_ids_foldl_addArchive_iff.2 (Or.inr (List.mem_map_of_mem (List.mem_filterMap.2 hentry)))
  obtain ⟨other, hother, heq⟩ := List.mem_map.1 hid
  -- of one number is one archive
  have hregistered : ∀ {found entry}, ws.library? entry = some found →
      ws.archive? found.id = some found := fun hfound => by
    obtain ⟨path, hmem⟩ := mem_entries_of_library? hfound
    exact h.archive?_id (List.mem_map_of_mem hmem)
  obtain ⟨entry, -, hnamed⟩ := hentry
  obtain ⟨entry', -, hnamed'⟩ := exists_library?_of_mem_libraries hother
  have hsame := hregistered hnamed'
  rw [heq, hregistered hnamed] at hsame
  exact Option.some.inj hsame ▸ hother

/-! ## All providers -/

/-- A project reaches another one through exports: the first project on the way may be required in
any way, the others are exported. -/
def Reaches (ws : Workspace) (name other : String) : Prop :=
  ∃ first, ws.Requires name first ∧ Relation.ReflTransGen ws.Exports first other

theorem requires_of_mem_classpath {name required : String} {project other : Project} {exported : Bool}
    (hproject : ws.project? name = some project)
    (hentry : .project required exported ∈ project.classpath)
    (hother : ws.project? required = some other) : ws.Requires name required :=
  ⟨project, other, hproject, List.mem_filterMap.2 ⟨_, hentry, rfl⟩, hother⟩

end Workspace

namespace Environment

variable {ws : Workspace} {project : Project}

/-- **The sources** of an environment are those of its project and those that it reaches. -/
theorem expands_root (h : ws.FilesInStep) (hproject : ws.project? project.name = some project) :
    ∃ rest, (ofProject ws project).providers = .sources project :: rest ∧
      Listed ws (.sources project :: rest) ∧
      ∀ name, name ∈ sourceNames (.sources project :: rest) ↔
        name = project.name ∨ ws.Reaches project.name name := by
  have hample : Ample ws (ws.projects.entries.length + 1) [] :=
    { known := by simp [projectsOf], nodup := by simp [sourceNames, projectsOf],
      enough := Nat.le_add_right_of_le (Nat.le_succ _) }
  have hnew : project.name ∉ sourceNames [] := by simp [sourceNames, projectsOf]
  obtain ⟨hexpands, hlonger, hleads⟩ := expands_classpath h (expands_expand h _) true
    (fun name => name = project.name ∨ ws.Reaches project.name name) hample hproject hnew (Or.inl rfl)
    fun entry hentry name other hleads hother last hlast => by
      obtain ⟨exported, rfl, -⟩ := hleads
      exact Or.inr ⟨name, Workspace.requires_of_mem_classpath hproject hentry hother, hlast⟩
  rw [List.nil_append] at hlonger
  obtain ⟨rest, hrest⟩ := hlonger
  have heq : (ofProject ws project).providers = .sources project :: rest := by
    rw [ofProject, expand_succ, if_neg hnew, List.nil_append]
    exact hrest.symm
  rw [List.nil_append, ← hrest, List.singleton_append] at hexpands hleads
  refine ⟨rest, heq, hexpands.toListed, fun name => ⟨fun hname => ?_, ?_⟩⟩
  · obtain ⟨found, hfound, rfl⟩ := List.mem_map.1 hname
    exact (hexpands.reaches found hfound).resolve_left List.not_mem_nil
  · -- the root follows all of its entries, so what it exports is listed as well
    have hrequired : ∀ required, ws.Requires project.name required →
        required ∈ sourceNames (.sources project :: rest) := by
      rintro required ⟨found, other, hfound, hmem, hother⟩
      obtain rfl := Option.some.inj (hproject.symm.trans hfound)
      obtain ⟨entry, hentry, hnames⟩ := List.mem_filterMap.1 hmem
      cases entry with
      | project name exported =>
        obtain rfl := Option.some.inj hnames
        exact hleads _ hentry name other ⟨exported, rfl, rfl⟩ hother
      | library | «variable» => cases hnames
    have hexported : ∀ {current next}, current ∈ sourceNames (.sources project :: rest) →
        ws.Exports current next → next ∈ sourceNames (.sources project :: rest) := by
      intro current next hcurrent hexports
      obtain ⟨found, hfound, rfl⟩ := List.mem_map.1 hcurrent
      exact (hexpands.closed found hfound).resolve_left List.not_mem_nil next hexports
    rintro (rfl | ⟨first, hfirst, hchain⟩)
    · exact List.mem_cons_self
    · induction hchain with
      | refl => exact hrequired first hfirst
      | tail _ hlast ih => exact hexported ih hlast

/-- **Enough fuel**: from as much as there are projects on, the providers are the same. -/
theorem expand_eq_providers (h : ws.FilesInStep) (hproject : ws.project? project.name = some project)
    {fuel : Nat} (hfuel : ws.projects.entries.length ≤ fuel) :
    expand ws fuel true project [] = (ofProject ws project).providers := by
  have hample : ∀ {fuel}, ws.projects.entries.length ≤ fuel → Ample ws fuel [] := fun hfuel =>
    { known := by simp [projectsOf], nodup := by simp [sourceNames, projectsOf], enough := hfuel }
  have hsame : ∀ fuel, ws.projects.entries.length ≤ fuel →
      expand ws fuel true project [] = expand ws ws.projects.entries.length true project [] := by
    intro fuel hfuel
    induction fuel, hfuel using Nat.le_induction with
    | base => rfl
    | succ fuel hfuel ih => rw [expand_add_one h (hample hfuel) hproject, ih]
  rw [hsame fuel hfuel, ofProject, hsame _ (Nat.le_succ _)]

end Environment

/-! ## After any edits -/

/-- **The providers** of a project in a reachable workspace, whatever its projects require. They start
with its own sources and are without repetition; the other sources are those of the existing projects
to which a requirement of the project, and from there requirements that are exported, lead; the
archives are those that its own classpath names. Expansion ends: it takes no more fuel than there are
projects. -/
theorem providers_afterAll (edits : List Edit) {name : String} {env : Environment}
    (henv : (Workspace.initial.afterAll edits).environment? name = some env) :
    let ws := Workspace.initial.afterAll edits
    (ws.project? name = some env.project ∧ ∃ rest, env.providers = .sources env.project :: rest) ∧
    (Environment.sourceNames env.providers).Nodup ∧
    ((Environment.archivesOf env.providers).map (·.id)).Nodup ∧
    (∀ project ∈ Environment.projectsOf env.providers, ws.project? project.name = some project) ∧
    (∀ other, env.seesProject other = true ↔ other = name ∨ ∃ first, ws.Requires name first ∧
      Relation.ReflTransGen ws.Exports first other) ∧
    (∀ archive, .archive archive ∈ env.providers ↔
      ∃ entry ∈ env.project.classpath, ws.library? entry = some archive) ∧
    ∀ fuel ≥ ws.projects.entries.length,
      Environment.expand ws fuel true env.project [] = env.providers := by
  intro ws
  have h : ws.InStep := Workspace.inStep_afterAll edits
  obtain ⟨project, hproject, rfl⟩ := Option.map_eq_some_iff.1 henv
  obtain rfl := (h.files.project_name hproject).1
  obtain ⟨rest, heq, hlisted, hnames⟩ := Environment.expands_root h.files hproject
  have harchives : Environment.archivesOf (Environment.ofProject ws project).providers =
      ws.libraries project := Environment.archivesOf_expand_root ws _ project
  refine ⟨⟨hproject, rest, heq⟩, heq ▸ hlisted.nodup, ?_, heq ▸ hlisted.known, fun other => ?_,
    fun archive => ?_, fun fuel hfuel => Environment.expand_eq_providers h.files hproject hfuel⟩
  · rw [harchives, Workspace.libraries]
    refine Workspace.nodup_foldl_addArchive ?_ _
    exact List.nodup_nil
  · rw [Environment.seesProject, Environment.any_isSourcesOf, heq]
    exact hnames other
  · rw [← Environment.mem_archivesOf_iff, harchives]
    exact Workspace.mem_libraries_iff h.archives

/-- A project requires another one in vain and one that exports a project which exports the first
one; what that one requires without exporting it stays hidden. -/
def circleOfExports : List Edit :=
  [.createProject ⟨"A", [""], [.project "Missing" true, .project "B" false, .project "A" true,
      .variable ClassLibrary.variableName, .project "B" true], none⟩,
    .createProject ⟨"B", [""], [.project "C" true, .project "D" false], none⟩,
    .createProject ⟨"C", [""], [.project "A" true, .variable ClassLibrary.variableName], none⟩,
    .createProject ⟨"D", [""], [], none⟩]

/-- The first project of the circle sees the others on it and no more. -/
theorem providers_circleOfExports :
    ∃ env, (Workspace.initial.afterAll circleOfExports).environment? "A" = some env ∧
      Environment.sourceNames env.providers = ["A", "B", "C"] ∧
      (∃ first, (Workspace.initial.afterAll circleOfExports).Requires "A" first ∧
        Relation.ReflTransGen (Workspace.initial.afterAll circleOfExports).Exports first "C") ∧
      ¬∃ first, (Workspace.initial.afterAll circleOfExports).Requires "A" first ∧
        Relation.ReflTransGen (Workspace.initial.afterAll circleOfExports).Exports first "D" := by
  have hnames : ((Workspace.initial.afterAll circleOfExports).environment? "A").map
      (fun env => Environment.sourceNames env.providers) = some ["A", "B", "C"] := by
    decide +kernel
  obtain ⟨env, henv, hsources⟩ := Option.map_eq_some_iff.1 hnames
  obtain ⟨-, -, -, -, hsees, -⟩ := providers_afterAll circleOfExports henv
  have hlisted : ∀ name, env.seesProject name = true ↔ name ∈ ["A", "B", "C"] := fun name => by
    rw [Environment.seesProject, Environment.any_isSourcesOf, hsources]
  refine ⟨env, henv, hsources, ?_, fun hchain => ?_⟩
  · exact ((hsees "C").1 ((hlisted "C").2 (by decide))).resolve_left (by decide)
  · exact absurd ((hlisted "D").1 ((hsees "D").2 (Or.inr hchain))) (by decide)

end SourceSearch
