import SourceSearch.Proofs.Inheritance
import SourceSearch.Proofs.RenamedBinding

/-!
# Supertypes under other numbers

The declared types of a renamed workspace are the renamed ones, in another order. Tables of
supertypes are only looked up, never walked through, so each round of refinement gives the renamed
supertypes; that the refinement stops early makes no difference (`settle_eq_iterate`). So the
binding of a renamed workspace is renamed as a whole (`ofWorkspace`).
-/

set_option autoImplicit false

namespace SourceSearch

open BoundWorkspace

namespace Workspace.RenamedBy

variable {r : Renaming} {ws ws' : Workspace}

/-- The parsed files are the renamed ones, by other numbers. -/
theorem sources_values_perm (h : ws.RenamedBy r ws') :
    ws'.sources.values.Perm (ws.sources.values.map r.source) := by
  have hentries : ws'.sources.entries.Perm
      (ws.sources.entries.map fun e => ((r.file ⟨e.1⟩).index, r.source e.2)) := by
    have hkeys : ∀ {a b : Nat}, (r.file ⟨a⟩).index = (r.file ⟨b⟩).index → a = b := by
      intro a b heq
      exact congrArg FileId.index (r.injective (congrArg FileId.mk heq))
    refine (List.perm_ext_iff_of_nodup ?_ ?_).2 ?_
    · exact ws'.sources.entries_nodup.imp fun hne heq => hne (congrArg Prod.fst heq)
    · refine List.pairwise_map.2 (ws.sources.entries_nodup.imp fun hne heq => hne ?_)
      exact hkeys (congrArg Prod.fst heq)
    · rintro ⟨index, source⟩
      rw [List.mem_map, Table.mem_entries_iff]
      constructor
      · intro hsource
        have hsource : ws'.source? ⟨index⟩ = some source := hsource
        obtain ⟨old, hold⟩ := h.onto hsource
        have hfound := h.source? old
        rw [hold, hsource] at hfound
        obtain ⟨found, hget, rfl⟩ := Option.map_eq_some_iff.1 hfound.symm
        refine ⟨(old.index, found), Table.mem_entries_iff.2 hget, ?_⟩
        rw [hold]
      · rintro ⟨⟨old, found⟩, hmem, heq⟩
        obtain ⟨rfl, rfl⟩ := Prod.mk.inj heq
        have hold : ws.source? ⟨old⟩ = some found := Table.mem_entries_iff.1 hmem
        have hfound := h.source? ⟨old⟩
        rw [hold] at hfound
        exact hfound
  have hvalues := hentries.map (·.2)
  rw [List.map_map] at hvalues
  simpa [Table.values, Function.comp_def] using hvalues

/-- **The declared types** are the renamed ones. -/
theorem typeKeys_perm (h : ws.RenamedBy r ws') : ws'.typeKeys.Perm (ws.typeKeys.map r.key) := by
  rw [typeKeys, typeKeys, List.map_append, List.map_flatMap, List.map_flatMap, h.archives_values,
    List.flatMap_map]
  refine List.Perm.append ?_ (List.Perm.of_eq ?_)
  · have hperm := h.sources_values_perm.flatMap_right fun file => file.types.map (·.key)
    rw [List.flatMap_map] at hperm
    simpa [Renaming.source, Renaming.info, Function.comp_def] using hperm
  · simp [Renaming.archive, Renaming.info, Function.comp_def]

theorem mem_typeKeys_iff (h : ws.RenamedBy r ws') {key : TypeKey} :
    r.key key ∈ ws'.typeKeys ↔ key ∈ ws.typeKeys := by
  rw [h.typeKeys_perm.mem_iff]
  exact List.mem_map_of_injective r.key_injective

theorem environmentsOf (h : ws.RenamedBy r ws') (name : String) :
    Option.Rel (Environment.RenamedBy r) ((BoundWorkspace.environmentsOf ws).get? name)
      ((BoundWorkspace.environmentsOf ws').get? name) := by
  rw [get?_environmentsOf, get?_environmentsOf, h.project?]
  cases ws.project? name with
  | none => exact Option.Rel.none
  | some project => exact Option.Rel.some (h.ofProject project)

/-- **One round** by means of tables that correspond gives tables that correspond. -/
theorem refine (h : ws.RenamedBy r ws') {chainLimit : Nat} {table table' : SupertypeTable}
    (hbound : (withTable ws (BoundWorkspace.environmentsOf ws) chainLimit table).RenamedBy r
      (withTable ws' (BoundWorkspace.environmentsOf ws') chainLimit table')) :
    (withTable ws (BoundWorkspace.environmentsOf ws) chainLimit
      (BoundWorkspace.refine ws (BoundWorkspace.environmentsOf ws) ws.typeKeys table)).RenamedBy r
      (withTable ws' (BoundWorkspace.environmentsOf ws') chainLimit
        (BoundWorkspace.refine ws' (BoundWorkspace.environmentsOf ws') ws'.typeKeys table')) := by
  have hlength : ws'.typeKeys.length = ws.typeKeys.length := by
    rw [h.typeKeys_perm.length_eq, List.length_map]
  have hround : (withTable ws (BoundWorkspace.environmentsOf ws) (ws.typeKeys.length + 2)
      table).RenamedBy r
      (withTable ws' (BoundWorkspace.environmentsOf ws') (ws.typeKeys.length + 2) table') :=
    ⟨hbound.workspace, hbound.environments, hbound.supertypes, rfl⟩
  refine ⟨h, h.environmentsOf, ?_, rfl⟩
  intro key
  simp only [supertypes_refine, h.mem_typeKeys_iff, hlength]
  split
  · exact hround.bindSupertypes key
  · rfl

/-- So many rounds give tables that correspond, since those without entries do. -/
theorem iterate_refine (h : ws.RenamedBy r ws') (chainLimit fuel : Nat) :
    (withTable ws (BoundWorkspace.environmentsOf ws) chainLimit
      ((BoundWorkspace.refine ws (BoundWorkspace.environmentsOf ws) ws.typeKeys)^[fuel]
        [])).RenamedBy r
      (withTable ws' (BoundWorkspace.environmentsOf ws') chainLimit
        ((BoundWorkspace.refine ws' (BoundWorkspace.environmentsOf ws') ws'.typeKeys)^[fuel]
          [])) := by
  induction fuel with
  | zero => exact ⟨h, h.environmentsOf, fun key => rfl, rfl⟩
  | succ fuel ih =>
    rw [Function.iterate_succ_apply', Function.iterate_succ_apply']
    exact h.refine ih

/-- **The binding of a renamed workspace** is the renamed binding. -/
theorem ofWorkspace (h : ws.RenamedBy r ws') :
    (BoundWorkspace.ofWorkspace ws).RenamedBy r (.ofWorkspace ws') := by
  have hlength : ws'.typeKeys.length = ws.typeKeys.length := by
    rw [h.typeKeys_perm.length_eq, List.length_map]
  simp only [BoundWorkspace.ofWorkspace, settle_eq_iterate, hlength]
  exact h.iterate_refine _ _

end Workspace.RenamedBy

end SourceSearch
