import Mathlib.Data.List.Perm.Subperm
import SourceSearch.Binding.Hierarchy
import SourceSearch.Proofs.Dependents
import SourceSearch.Proofs.Inheritance

/-!
# Subtypes

The subtypes of a type are looked for among candidates, level by level. The search finds the
candidates from which candidates lead to the type by direct supertypes (`Explored.mem_iff`), however
they are connected. Every type that inherits from a type of a source file is a candidate
(`mem_subtypeCandidates`), since its project sees the project of that file, so nothing is missed
(`subtypes_afterAll_nodup_and_mem_iff`).
-/

set_option autoImplicit false

namespace SourceSearch

namespace BoundWorkspace

/-! ## The search level by level -/

variable {candidates : List (TypeKey × List TypeKey)} {focus : TypeKey} {last found : List TypeKey}

/-- A candidate has a direct supertype. -/
def Lists (candidates : List (TypeKey × List TypeKey)) (sub sup : TypeKey) : Prop :=
  ∃ supertypes, (sub, supertypes) ∈ candidates ∧ sup ∈ supertypes

/-- A state of the search: the types that came last, and all that were found. Only direct subtypes
of those that came last can be missing. -/
structure Explored (candidates : List (TypeKey × List TypeKey)) (focus : TypeKey)
    (last found : List TypeKey) : Prop where
  head : ∃ below, found = focus :: below
  nodup : found.Nodup
  last_subset : last ⊆ found
  sound : ∀ key ∈ found, Relation.ReflTransGen (Lists candidates) key focus
  closed : ∀ sup ∈ found, sup ∉ last → ∀ sub, Lists candidates sub sup → sub ∈ found

theorem explored_start (candidates : List (TypeKey × List TypeKey)) (focus : TypeKey) :
    Explored candidates focus [focus] [focus] where
  head := ⟨[], rfl⟩
  nodup := by simp
  last_subset := List.Subset.refl _
  sound key hkey := by
    rw [List.mem_singleton.1 hkey]
  closed sup hsup hlast := absurd hsup hlast

/-- The direct subtypes of the types that came last that were not found before. -/
def freshSubtypes (candidates : List (TypeKey × List TypeKey)) (last found : List TypeKey) :
    List TypeKey :=
  (last.flatMap fun sup => (candidates.filter fun c => c.2.contains sup).map (·.1)).eraseDups.filter
    fun key => !found.contains key

theorem mem_freshSubtypes_iff {key : TypeKey} :
    key ∈ freshSubtypes candidates last found ↔
      key ∉ found ∧ ∃ sup ∈ last, Lists candidates key sup := by
  simp only [freshSubtypes, Lists, List.mem_filter, List.mem_eraseDups, List.mem_flatMap,
    List.mem_map, List.contains_iff_mem, Bool.not_eq_true', Bool.eq_false_iff]
  constructor
  · rintro ⟨⟨sup, hsup, ⟨sub, supertypes⟩, ⟨hmem, hcontains⟩, rfl⟩, hnot⟩
    exact ⟨by simpa using hnot, sup, hsup, supertypes, hmem, hcontains⟩
  · rintro ⟨hnot, sup, hsup, supertypes, hmem, hcontains⟩
    exact ⟨⟨sup, hsup, (key, supertypes), ⟨hmem, hcontains⟩, rfl⟩, by simpa using hnot⟩

/-- Duplicates are erased. -/
theorem nodup_eraseDups {α : Type} [BEq α] [LawfulBEq α] (as : List α) : as.eraseDups.Nodup := by
  generalize hlength : as.length = n
  induction n using Nat.strong_induction_on generalizing as with
  | _ n ih =>
    cases as with
    | nil => simp
    | cons a as =>
      have hle : (as.filter fun b => !b == a).length < n := by
        rw [← hlength, List.length_cons]
        exact Nat.lt_succ_of_le (List.length_filter_le _ _)
      rw [List.eraseDups_cons, List.nodup_cons]
      refine ⟨?_, ih _ hle _ rfl⟩
      simp [List.mem_eraseDups]

/-- **A level** of the search. -/
theorem Explored.next (h : Explored candidates focus last found) :
    Explored candidates focus (freshSubtypes candidates last found)
      (found ++ freshSubtypes candidates last found) where
  head := by
    obtain ⟨below, heq⟩ := h.head
    exact ⟨below ++ freshSubtypes candidates last found, by rw [← List.cons_append, ← heq]⟩
  nodup := by
    have hfresh : (freshSubtypes candidates last found).Nodup := (nodup_eraseDups _).filter _
    refine List.nodup_append.2 ⟨h.nodup, hfresh, ?_⟩
    rintro key hkey _ hmem rfl
    exact (mem_freshSubtypes_iff.1 hmem).1 hkey
  last_subset := List.subset_append_right _ _
  sound := by
    intro key hkey
    rcases List.mem_append.1 hkey with hkey | hkey
    · exact h.sound key hkey
    · obtain ⟨-, sup, hsup, hlists⟩ := mem_freshSubtypes_iff.1 hkey
      exact .head hlists (h.sound sup (h.last_subset hsup))
  closed := by
    intro sup hsup hnot sub hlists
    have hfound : sup ∈ found := (List.mem_append.1 hsup).resolve_right hnot
    by_cases hsub : sub ∈ found
    · exact List.mem_append_left _ hsub
    · by_cases hlast : sup ∈ last
      · exact List.mem_append_right _ (mem_freshSubtypes_iff.2 ⟨hsub, sup, hlast, hlists⟩)
      · exact absurd (h.closed sup hfound hlast sub hlists) hsub

/-- No more types are found than there are candidates, and the type itself. -/
theorem Explored.length_le (h : Explored candidates focus last found) :
    found.length ≤ candidates.length + 1 := by
  have hsubset : found ⊆ focus :: candidates.map (·.1) := by
    intro key hkey
    rcases Relation.ReflTransGen.cases_head_iff.1 (h.sound key hkey) with rfl | ⟨sup, hlists, -⟩
    · exact List.mem_cons_self
    · obtain ⟨supertypes, hmem, -⟩ := hlists
      exact List.mem_cons_of_mem _ (List.mem_map.2 ⟨(key, supertypes), hmem, rfl⟩)
  calc found.length ≤ (focus :: candidates.map (·.1)).length :=
        (h.nodup.subperm hsubset).length_le
    _ = candidates.length + 1 := by simp

/-- **The search** goes on until no type came last, if there is fuel for each candidate that was not
found. -/
theorem Explored.run {fuel : Nat} (h : Explored candidates focus last found)
    (hfuel : candidates.length + 2 ≤ fuel + found.length) :
    Explored candidates focus [] (addSubtypes candidates fuel last found) := by
  induction fuel generalizing last found with
  | zero =>
    have hle := h.length_le
    omega
  | succ fuel ih =>
    have hnext := h.next
    change Explored candidates focus [] (if (freshSubtypes candidates last found).isEmpty then found
      else addSubtypes candidates fuel (freshSubtypes candidates last found)
        (found ++ freshSubtypes candidates last found))
    by_cases hempty : freshSubtypes candidates last found = []
    · rw [hempty, List.append_nil] at hnext
      rw [hempty]
      exact hnext
    · rw [if_neg (by simpa using hempty)]
      apply ih hnext
      have hpos := List.length_pos_iff.2 hempty
      rw [List.length_append]
      omega

/-- When no type came last, the types from which candidates lead to the type were found. -/
theorem Explored.mem_iff (h : Explored candidates focus [] found) (key : TypeKey) :
    key ∈ found ↔ Relation.ReflTransGen (Lists candidates) key focus := by
  refine ⟨h.sound key, ?_⟩
  intro hpath
  induction hpath using Relation.ReflTransGen.head_induction_on with
  | refl =>
    obtain ⟨below, rfl⟩ := h.head
    exact List.mem_cons_self
  | head hlists _ ih => exact h.closed _ ih List.not_mem_nil _ hlists

/-! ## The candidates -/

variable {ws : Workspace} {s : BoundWorkspace}

/-- The subtypes are distinct, and they are the other types from which candidates lead to the
type. -/
theorem subtypes_nodup_and_mem_iff (s : BoundWorkspace) (focus : TypeKey) :
    (s.subtypes focus).Nodup ∧ ∀ key, key ∈ s.subtypes focus ↔ key ≠ focus ∧
      Relation.ReflTransGen (fun sub sup => sub ∈ s.subtypeCandidates focus ∧ s.Extends sub sup)
        key focus := by
  let candidates := (s.subtypeCandidates focus).map fun key => (key, s.directSupertypes key)
  have hlists : Lists candidates =
      fun sub sup => sub ∈ s.subtypeCandidates focus ∧ s.Extends sub sup := by
    funext sub sup
    apply propext
    simp only [Lists, candidates, List.mem_map, Prod.mk.injEq, Extends]
    constructor
    · rintro ⟨_, ⟨_, hmem, rfl, rfl⟩, hsup⟩
      exact ⟨hmem, hsup⟩
    · rintro ⟨hmem, hsup⟩
      exact ⟨_, ⟨sub, hmem, rfl, rfl⟩, hsup⟩
  have hrun : Explored candidates focus []
      (addSubtypes candidates (candidates.length + 1) [focus] [focus]) := by
    apply (explored_start candidates focus).run
    simp only [List.length_cons, List.length_nil]
    omega
  obtain ⟨below, hbelow⟩ := hrun.head
  have heq : s.subtypes focus = below := congrArg (List.drop 1) hbelow
  have hnodup := hrun.nodup
  rw [hbelow, List.nodup_cons] at hnodup
  rw [heq]
  refine ⟨hnodup.2, ?_⟩
  intro key
  have hmem := hrun.mem_iff key
  rw [hbelow, hlists, List.mem_cons] at hmem
  rw [← hmem]
  constructor
  · intro hkey
    refine ⟨?_, Or.inr hkey⟩
    rintro rfl
    exact hnodup.1 hkey
  · rintro ⟨hne, hkey⟩
    exact hkey.resolve_left hne

/-- What inherits from a type of a source file is declared in a source file of a project that sees
the project of the other. -/
theorem InSight.exists_source_of_extends (hs : s.InSight ws) {file : FileId} {name : String}
    {key : TypeKey} (hextends : Relation.TransGen s.Extends key ⟨.source file, name⟩) :
    (∃ info, ws.declared? key = some info) ∧ ∃ home source target, key.origin = .source home ∧
      ws.source? home = some source ∧ ws.source? file = some target ∧
        ws.Sees source.project target.project := by
  obtain ⟨sup, hsup, hrest⟩ := Relation.TransGen.head'_iff.1 hextends
  have hleads : ws.Leads key.origin (.source file) :=
    hs.leads_of_reflTransGen (hs.leads hsup) hrest
  refine ⟨hs.declared hsup, ?_⟩
  cases horigin : key.origin with
  | archive id =>
    rw [horigin] at hleads
    cases hleads
  | source home =>
    rw [horigin] at hleads
    obtain ⟨source, hsource, target, htarget, hsees⟩ := hleads
    exact ⟨home, source, target, rfl, hsource, htarget, hsees⟩

/-- A project that sees the project of a source file sees the types of the file. -/
theorem mem_projectsSeeing_of_sees (h : ws.FilesInStep) {file home : FileId} {name : String}
    {source target : SourceFile} (hsource : ws.source? home = some source)
    (htarget : ws.source? file = some target) (hsees : ws.Sees source.project target.project) :
    source.project ∈ ws.projectsSeeing ⟨.source file, name⟩ := by
  have hroots : ws.homeProjects ⟨.source file, name⟩ = [target.project] := by
    simp [Workspace.homeProjects, Workspace.projectOf?, Origin.file?, htarget]
  obtain ⟨project, hproject⟩ := h.exists_project htarget
  simp only [Workspace.projectsSeeing, hroots, List.mem_filter, Table.mem_keys_iff,
    List.contains_iff_mem, List.flatMap_singleton, List.singleton_append, List.mem_cons]
  refine ⟨h.exists_project hsource, ?_⟩
  by_cases hsame : source.project = target.project
  · exact Or.inl hsame
  · exact Or.inr ((Workspace.mem_dependents_iff h hproject).2 ⟨hsame, hsees⟩)

/-- What a source file declares is a type of its project. -/
theorem mem_projectTypes_of_declared? (h : ws.InStep) {home : FileId} {source : SourceFile}
    {key : TypeKey} (hhome : key.origin = .source home) (hsource : ws.source? home = some source)
    {info : DeclaredType} (hinfo : ws.declared? key = some info) :
    key ∈ ws.projectTypes source.project := by
  obtain ⟨project, hproject⟩ := h.files.exists_project hsource
  have hkey := (h.of_declared? hinfo).1
  have hmem : info ∈ source.types := by
    rw [Workspace.declared?, hhome] at hinfo
    obtain ⟨found, hfound, hdeclared⟩ := Option.bind_eq_some_iff.1 hinfo
    obtain rfl := Option.some.inj (hsource.symm.trans hfound)
    exact List.mem_of_find?_eq_some hdeclared
  have hunit : source ∈ project.parsedUnits ws.sources := by
    apply (h.files.mem_parsedUnits_iff hproject).2
    rw [h.files.source_id hsource]
    exact ⟨hsource, rfl⟩
  rw [Workspace.projectTypes, hproject]
  apply List.mem_flatMap.2
  exact ⟨source, hunit, List.mem_map.2 ⟨info, hmem, hkey⟩⟩

/-- **The candidates** are enough: what inherits from a type of a source file is among them. -/
theorem mem_subtypeCandidates (h : ws.InStep) {file : FileId} {name : String} {key : TypeKey}
    (hextends : Relation.TransGen (ofWorkspace ws).Extends key ⟨.source file, name⟩) :
    key ∈ (ofWorkspace ws).subtypeCandidates ⟨.source file, name⟩ := by
  obtain ⟨⟨info, hinfo⟩, home, source, target, hhome, hsource, htarget, hsees⟩ :=
    (inSight_ofWorkspace h).exists_source_of_extends hextends
  have hseeing : source.project ∈ ws.projectsSeeing ⟨.source file, name⟩ :=
    mem_projectsSeeing_of_sees h.files hsource htarget hsees
  have htypes := mem_projectTypes_of_declared? h hhome hsource hinfo
  apply List.mem_append_left
  exact List.mem_flatMap.2 ⟨source.project, hseeing, htypes⟩

/-- Candidates lead to a type of a source file just as types do. -/
theorem extends_through_candidates_iff (h : ws.InStep) {file : FileId} {name : String}
    {key : TypeKey} (hne : key ≠ ⟨.source file, name⟩) :
    Relation.ReflTransGen (fun sub sup =>
        sub ∈ (ofWorkspace ws).subtypeCandidates ⟨.source file, name⟩ ∧
          (ofWorkspace ws).Extends sub sup) key ⟨.source file, name⟩ ↔
      Relation.TransGen (ofWorkspace ws).Extends key ⟨.source file, name⟩ := by
  constructor
  · intro hpath
    have hextends : Relation.ReflTransGen (ofWorkspace ws).Extends key ⟨.source file, name⟩ :=
      Relation.ReflTransGen.mono (fun _ _ hstep => hstep.2) _ _ hpath
    exact (Relation.reflTransGen_iff_eq_or_transGen.1 hextends).resolve_left (Ne.symm hne)
  · intro hextends
    clear hne
    induction hextends using Relation.TransGen.head_induction_on with
    | single hsup => exact .single ⟨mem_subtypeCandidates h (.single hsup), hsup⟩
    | head hsup hrest ih => exact .head ⟨mem_subtypeCandidates h (.head hsup hrest), hsup⟩ ih

end BoundWorkspace

/-! ## After any edits -/

/-- **The subtypes** of a type of a source file in a workspace that edits have made are, each once,
the other declared types of source files from which direct supertypes lead to it, whatever their
projects are and whether or not types inherit from each other in circles. -/
theorem subtypes_afterAll_nodup_and_mem_iff (edits : List Edit) (file : FileId) (name : String) :
    let s := BoundWorkspace.ofWorkspace (Workspace.initial.afterAll edits)
    let focus : TypeKey := ⟨.source file, name⟩
    (s.hierarchy focus).subtypes.Nodup ∧
      ∀ key, key ∈ (s.hierarchy focus).subtypes ↔
        key ≠ focus ∧ (∃ home, key.origin = .source home) ∧ (∃ info, s.declared? key = some info) ∧
          Relation.TransGen s.Extends key focus := by
  intro s focus
  have h : (Workspace.initial.afterAll edits).InStep := Workspace.inStep_afterAll edits
  obtain ⟨hnodup, hmem⟩ := s.subtypes_nodup_and_mem_iff focus
  refine ⟨hnodup, ?_⟩
  intro key
  change key ∈ s.subtypes focus ↔ _
  rw [hmem]
  constructor
  · rintro ⟨hne, hpath⟩
    have hextends := (BoundWorkspace.extends_through_candidates_iff h hne).1 hpath
    obtain ⟨hdeclared, home, source, target, hhome, -⟩ :=
      (BoundWorkspace.inSight_ofWorkspace h).exists_source_of_extends hextends
    exact ⟨hne, ⟨home, hhome⟩, hdeclared, hextends⟩
  · rintro ⟨hne, -, -, hextends⟩
    exact ⟨hne, (BoundWorkspace.extends_through_candidates_iff h hne).2 hextends⟩

end SourceSearch
