import Mathlib.Logic.Function.Iterate
import SourceSearch.Proofs.Reachable
import SourceSearch.Proofs.Visibility

/-!
# Dependents

The dependents of a project are found by following requirements backwards, with a list of the
projects that are still to be followed. Each turn takes one of them off and puts on it only what is
found in that turn, so the search ends after at most one turn for the project itself and one for
each project there is (`iterate_followNext`). What a turn keeps is `Follows`: what was found requires
the project, and what is no longer pending has been followed. With nothing pending what was found is
closed under being required, so it is all there is to find (`mem_dependents_iff_transGen`), and
cycles, projects that require themselves and names of no project make no difference
(`dependents_afterAll`).
-/

set_option autoImplicit false

namespace SourceSearch.Workspace

variable {ws : Workspace} {name current other : String} {pending found : List String}

/-- The classpath of a project names another one, which need not exist. -/
def Mentions (ws : Workspace) (name required : String) : Prop :=
  ∃ project, ws.project? name = some project ∧ required ∈ project.requiredProjects

theorem Requires.mentions (h : ws.Requires name other) : ws.Mentions name other := by
  obtain ⟨project, -, hproject, hmem, -⟩ := h
  exact ⟨project, hproject, hmem⟩

/-- What is found for one project. -/
theorem mem_newDependents_iff (h : ws.FilesInStep) :
    other ∈ ws.newDependents name current found ↔
      other ∉ found ∧ other ≠ name ∧ ws.Mentions other current := by
  simp only [newDependents, isDependent, Project.requires, List.mem_map, List.mem_filter,
    Table.mem_values_iff, Bool.and_eq_true, Bool.not_eq_true', decide_eq_true_eq,
    List.contains_eq_mem, decide_eq_false_iff_not, ne_eq]
  constructor
  · rintro ⟨project, ⟨⟨key, hproject⟩, hfound, hmem, hne⟩, rfl⟩
    have hname : project.name = key := (h.project_name hproject).1
    refine ⟨hfound, hne, project, ?_, hmem⟩
    rw [hname]
    exact hproject
  · rintro ⟨hfound, hne, project, hproject, hmem⟩
    obtain rfl : project.name = other := (h.project_name hproject).1
    exact ⟨project, ⟨⟨project.name, hproject⟩, hfound, hmem, hne⟩, rfl⟩

/-! ## The search ends -/

/-- One turn of the search, on the pending projects and those found so far. -/
def followNext (ws : Workspace) (name : String) :
    List String × List String → List String × List String
  | ([], found) => ([], found)
  | (current :: pending, found) =>
    ((ws.newDependents name current found).reverse ++ pending,
      found ++ ws.newDependents name current found)

/-- **The search ends**: a turn takes one project off the pending ones, and each that it puts on is
one less to find. -/
theorem iterate_followNext (ws : Workspace) (name : String) (pending found : List String) :
    ∃ turns ≤ ws.unfound found + pending.length,
      (ws.followNext name)^[turns] (pending, found) =
        ([], ws.findDependents name pending found) := by
  fun_induction findDependents ws name pending found with
  | case1 found => exact ⟨0, Nat.zero_le _, rfl⟩
  | case2 current pending found new ih =>
    obtain ⟨turns, hle, hturns⟩ := ih
    have hless := ws.unfound_append_newDependents name current found
    refine ⟨turns + 1, ?_, hturns⟩
    simp only [new, List.length_append, List.length_reverse, List.length_cons] at hle ⊢
    omega

/-! ## What is found -/

/-- What the search has found so far requires the project, and what requires it or one of those
found is found too unless the search has still to follow it. -/
structure Follows (ws : Workspace) (name : String) (pending found : List String) : Prop where
  sound : ∀ other ∈ found, other ≠ name ∧ Relation.TransGen ws.Mentions other name
  known : ∀ current ∈ pending, current = name ∨ current ∈ found
  followed : ∀ current, current = name ∨ current ∈ found →
    current ∈ pending ∨ ∀ other, other ≠ name → ws.Mentions other current → other ∈ found

/-- The search starts with the project itself. -/
theorem Follows.start (ws : Workspace) (name : String) : ws.Follows name [name] [] where
  sound := by simp
  known := by simp
  followed := by simp

/-- **One turn** keeps what was found right, and has followed one project more. -/
theorem Follows.turn (h : ws.FilesInStep) (hsearch : ws.Follows name (current :: pending) found) :
    ws.Follows name ((ws.newDependents name current found).reverse ++ pending)
      (found ++ ws.newDependents name current found) where
  sound := by
    intro other hother
    rcases List.mem_append.1 hother with hother | hother
    · exact hsearch.sound other hother
    · obtain ⟨-, hne, hmentions⟩ := (mem_newDependents_iff h).1 hother
      refine ⟨hne, ?_⟩
      rcases hsearch.known current List.mem_cons_self with rfl | hcurrent
      · exact .single hmentions
      · exact .head hmentions (hsearch.sound current hcurrent).2
  known := by
    intro next hnext
    rw [List.mem_append, List.mem_reverse] at hnext
    rw [List.mem_append]
    rcases hnext with hnext | hnext
    · exact Or.inr (Or.inr hnext)
    · exact (hsearch.known next (List.mem_cons_of_mem _ hnext)).imp_right Or.inl
  followed := by
    intro next hnext
    rw [List.mem_append, List.mem_reverse]
    by_cases hnew : next ∈ ws.newDependents name current found
    · exact Or.inl (Or.inl hnew)
    have hknown : next = name ∨ next ∈ found :=
      hnext.imp_right fun hmem => (List.mem_append.1 hmem).resolve_right hnew
    rcases hsearch.followed next hknown with hpending | hclosed
    · rcases List.mem_cons.1 hpending with rfl | hpending
      · -- the project that this turn follows
        refine Or.inr fun other hne hmentions => List.mem_append.2 ?_
        by_cases hfound : other ∈ found
        · exact Or.inl hfound
        · exact Or.inr ((mem_newDependents_iff h).2 ⟨hfound, hne, hmentions⟩)
      · exact Or.inl (Or.inr hpending)
    · exact Or.inr fun other hne hmentions =>
        List.mem_append_left _ (hclosed other hne hmentions)

/-- **The whole search** keeps what its turns keep, and nothing is pending in the end. -/
theorem Follows.findDependents (h : ws.FilesInStep) (hsearch : ws.Follows name pending found) :
    ws.Follows name [] (ws.findDependents name pending found) := by
  fun_induction Workspace.findDependents ws name pending found with
  | case1 found => exact hsearch
  | case2 current pending found new ih => exact ih (hsearch.turn h)

/-- When nothing is pending, all that requires the project is found. -/
theorem Follows.complete (hsearch : ws.Follows name [] found) (hne : other ≠ name)
    (hmentions : Relation.TransGen ws.Mentions other name) : other ∈ found := by
  have hclosed : ∀ {current other}, current = name ∨ current ∈ found → other ≠ name →
      ws.Mentions other current → other ∈ found := fun hknown hne hmentions =>
    (hsearch.followed _ hknown).resolve_left List.not_mem_nil _ hne hmentions
  -- from the project back along the requirements
  induction hmentions using Relation.TransGen.head_induction_on with
  | single hlast => exact hclosed (Or.inl rfl) hne hlast
  | @head other between hfirst _ ih =>
    by_cases heq : between = name
    · exact hclosed (Or.inl heq) hne hfirst
    · exact hclosed (Or.inr (ih heq)) hne hfirst

/-- **The dependents** of a project are the other projects from which requirements lead to it. -/
theorem mem_dependents_iff_transGen (h : ws.FilesInStep) :
    other ∈ ws.dependents name ↔ other ≠ name ∧ Relation.TransGen ws.Mentions other name := by
  have hsearch := (Follows.start ws name).findDependents h
  rw [dependents, List.mem_filter, Table.mem_keys_iff, List.contains_iff_mem]
  constructor
  · rintro ⟨-, hfound⟩
    exact hsearch.sound other hfound
  · rintro ⟨hne, hmentions⟩
    obtain ⟨-, ⟨project, hproject, -⟩, -⟩ := Relation.TransGen.head'_iff.1 hmentions
    exact ⟨⟨project, hproject⟩, hsearch.complete hne hmentions⟩

/-- If the project exists, then so does each project on the way to it. -/
theorem transGen_mentions_iff {project : Project} (hproject : ws.project? name = some project) :
    Relation.TransGen ws.Mentions other name ↔ Relation.TransGen ws.Requires other name := by
  refine ⟨fun hmentions => ?_, Relation.TransGen.mono (fun _ _ => Requires.mentions) _ _⟩
  induction hmentions using Relation.TransGen.head_induction_on with
  | single hlast =>
    obtain ⟨last, hlast, hmem⟩ := hlast
    exact .single ⟨last, project, hlast, hmem, hproject⟩
  | head hfirst hrest ih =>
    obtain ⟨first, hfirst, hmem⟩ := hfirst
    obtain ⟨-, ⟨between, hbetween, -⟩, -⟩ := Relation.TransGen.head'_iff.1 hrest
    exact .head ⟨first, between, hfirst, hmem, hbetween⟩ ih

/-- **The dependents** of a project that exists are the other projects that see it. -/
theorem mem_dependents_iff (h : ws.FilesInStep) {project : Project}
    (hproject : ws.project? name = some project) :
    other ∈ ws.dependents name ↔ other ≠ name ∧ ws.Sees other name := by
  rw [mem_dependents_iff_transGen h, transGen_mentions_iff hproject, Sees,
    Relation.reflTransGen_iff_eq_or_transGen]
  constructor
  · exact fun ⟨hne, hrequires⟩ => ⟨hne, Or.inr hrequires⟩
  · exact fun ⟨hne, hsees⟩ => ⟨hne, hsees.resolve_left (Ne.symm hne)⟩

/-- **The search for dependents** ends, after one turn for the name and at most one for each project,
whatever the projects of a reachable workspace require. It answers, each once and in order, with the
existing projects other than the one of the name from which one or more requirements lead to the
name, through existing projects. -/
theorem dependents_afterAll (edits : List Edit) (name : String) :
    let ws := initial.afterAll edits
    (∃ turns ≤ ws.projects.entries.length + 1, (ws.followNext name)^[turns] ([name], []) =
      ([], ws.findDependents name [name] [])) ∧
    (∀ other, other ∈ ws.findDependents name [name] [] ↔ other ∈ ws.dependents name) ∧
    (ws.dependents name).Pairwise (· < ·) ∧
    ∀ other, other ∈ ws.dependents name ↔
      other ≠ name ∧ Relation.TransGen ws.Mentions other name := by
  intro ws
  have h : ws.FilesInStep := (inStep_afterAll edits).files
  refine ⟨?_, fun other => ?_, ?_, fun other => mem_dependents_iff_transGen h⟩
  · obtain ⟨turns, hle, hturns⟩ := iterate_followNext ws name [name] []
    refine ⟨turns, hle.trans ?_, hturns⟩
    have hall : ws.unfound [] ≤ ws.projects.values.length := List.countP_le_length
    rw [Table.values, List.length_map] at hall
    exact Nat.add_le_add_right hall 1
  · have hsearch := (Follows.start ws name).findDependents h
    rw [mem_dependents_iff_transGen h]
    exact ⟨hsearch.sound other, fun hother => hsearch.complete hother.1 hother.2⟩
  · exact (List.pairwise_map.2 ws.projects.ascending).filter _

end SourceSearch.Workspace
