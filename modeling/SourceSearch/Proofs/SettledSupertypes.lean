import Mathlib.Data.Finset.Card
import SourceSearch.Proofs.DeclaredNames
import SourceSearch.Proofs.Inheritance

/-!
# Supertypes that are bound in the end

Binding the supertypes of a type can take those of other types, binding these can take others again,
and where this comes back to a type that is still to be bound it never ends. `BindsWithin` says that
it ends, within so many steps from type to type, and what the supertypes are then.

A workspace binds the supertypes of all types in rounds, as many as there are types and two more.
They are enough: a step after which no type is new is the last one with anything new, so that what
is bound at all is bound within as many steps as there are types and one more. Hence whatever ends
has the supertypes that it ends with (`BindsWithin.supertypes_eq`), and these are once more what is
bound by means of those of all types (`BindsWithin.bindSupertypes_eq`).
-/

set_option autoImplicit false

namespace SourceSearch

namespace BoundWorkspace

/-- A workspace that is bound by means of a table of supertypes. -/
def byTable (ws : Workspace) (table : SupertypeTable) : BoundWorkspace :=
  withTable ws (environmentsOf ws) (ws.typeKeys.length + 2) table

/-- The table after so many rounds. -/
def tableAfter (ws : Workspace) (rounds : Nat) : SupertypeTable :=
  (refine ws (environmentsOf ws) ws.typeKeys)^[rounds] []

/-- Binding the supertypes of a type ends, within so many steps from type to type, with these: they
come out by means of every table that is right about what ends a step before. -/
def BindsWithin (ws : Workspace) : (depth : Nat) → TypeKey → Supertypes → Prop
  | 0, _, _ => False
  | depth + 1, key, supers =>
    ∀ table, (∀ other found, BindsWithin ws depth other found →
      (byTable ws table).supertypes other = found) → (byTable ws table).bindSupertypes key = supers

/-- Binding the supertypes of a type ends. -/
def BindingEnds (ws : Workspace) (key : TypeKey) : Prop :=
  ∃ depth supers, BindsWithin ws depth key supers

variable {ws : Workspace} {key : TypeKey} {supers found : Supertypes} {depth later rounds : Nat}

theorem ofWorkspace_eq_byTable (ws : Workspace) :
    ofWorkspace ws = byTable ws (tableAfter ws (ws.typeKeys.length + 2)) := by
  rw [tableAfter, ← settle_eq_iterate]
  rfl

/-- A type without a declaration has no supertypes. -/
theorem bindSupertypes_of_not_mem (h : ws.InStep) (hkey : key ∉ ws.typeKeys)
    (table : SupertypeTable) : (byTable ws table).bindSupertypes key = {} := by
  have hdeclared : (byTable ws table).declared? key = none := by
    rw [h.mem_typeKeys_iff] at hkey
    exact Option.eq_none_iff_forall_ne_some.2 fun info hinfo => hkey ⟨info, hinfo⟩
  rw [bindSupertypes, hdeclared]

/-- A round binds the supertypes of declared types by means of the table before. -/
theorem supertypes_tableAfter_succ (h : ws.InStep) (rounds : Nat) (key : TypeKey) :
    (byTable ws (tableAfter ws (rounds + 1))).supertypes key =
      (byTable ws (tableAfter ws rounds)).bindSupertypes key := by
  rw [tableAfter, Function.iterate_succ_apply', byTable, supertypes_refine]
  split
  next => rfl
  next hnot => exact (bindSupertypes_of_not_mem h hnot _).symm

namespace BindsWithin

/-- What ends within some steps ends within more. -/
theorem succ (h : BindsWithin ws depth key supers) : BindsWithin ws (depth + 1) key supers := by
  induction depth generalizing key supers with
  | zero => cases h
  | succ depth ih =>
    intro table htable
    exact h table fun other found hother => htable other found (ih hother)

theorem mono (h : BindsWithin ws depth key supers) (hle : depth ≤ later) :
    BindsWithin ws later key supers := by
  induction hle with
  | refl => exact h
  | step _ ih => exact ih.succ

/-- **After so many rounds** a type has the supertypes that it ends with. -/
theorem supertypes_tableAfter (h : BindsWithin ws depth key supers) (hstep : ws.InStep)
    (hle : depth ≤ rounds) : (byTable ws (tableAfter ws rounds)).supertypes key = supers := by
  induction depth generalizing rounds key supers with
  | zero => cases h
  | succ depth ih =>
    obtain ⟨rounds, rfl⟩ := Nat.exists_eq_add_of_le' (Nat.le_trans (Nat.le_add_left 1 depth) hle)
    rw [supertypes_tableAfter_succ hstep]
    exact h _ fun other found hother => ih hother (Nat.le_of_succ_le_succ hle)

/-- A type ends with one answer only. -/
theorem unique (h : BindsWithin ws depth key supers) (hstep : ws.InStep)
    (h' : BindsWithin ws later key found) : supers = found := by
  rw [← h.supertypes_tableAfter hstep (Nat.le_max_left depth later),
    ← h'.supertypes_tableAfter hstep (Nat.le_max_right depth later)]

/-- A type without a declaration is bound at once. -/
theorem of_not_mem (hstep : ws.InStep) (hkey : key ∉ ws.typeKeys) : BindsWithin ws 1 key {} :=
  fun table _ => bindSupertypes_of_not_mem hstep hkey table

/-- **Behind a step after which nothing is new** nothing is new. -/
theorem of_le (hlast : ∀ key supers, BindsWithin ws (depth + 1) key supers →
    BindsWithin ws depth key supers) (h : BindsWithin ws later key supers) :
    BindsWithin ws depth key supers := by
  rcases Nat.le_total later depth with hle | hle
  · exact h.mono hle
  · induction hle generalizing key supers with
    | refl => exact h
    | step _ ih =>
      exact hlast key supers fun table htable => h table fun other found hother =>
        htable other found (ih hother)

open Classical in
/-- The declared types whose binding ends within so many steps. -/
noncomputable def keysWithin (ws : Workspace) (depth : Nat) : Finset TypeKey :=
  ws.typeKeys.toFinset.filter fun key => ∃ supers, BindsWithin ws depth key supers

theorem mem_keysWithin_iff : key ∈ keysWithin ws depth ↔
    key ∈ ws.typeKeys ∧ ∃ supers, BindsWithin ws depth key supers := by
  classical
  rw [keysWithin, Finset.mem_filter, List.mem_toFinset]

/-- A step after which something is new adds a declared type. -/
theorem card_keysWithin_lt (hstep : ws.InStep) (h : BindsWithin ws (depth + 1 + 1) key supers)
    (hnew : ¬ BindsWithin ws (depth + 1) key supers) :
    (keysWithin ws (depth + 1)).card < (keysWithin ws (depth + 1 + 1)).card := by
  have hkey : key ∈ ws.typeKeys := by
    by_contra hnot
    have hnone := of_not_mem hstep hnot
    rw [hnone.unique hstep h] at hnone
    exact hnew (hnone.mono (Nat.le_add_left 1 depth))
  have hmem : key ∈ keysWithin ws (depth + 1 + 1) :=
    mem_keysWithin_iff.2 ⟨hkey, supers, h⟩
  have hnot : key ∉ keysWithin ws (depth + 1) := by
    intro hbefore
    obtain ⟨-, found, hfound⟩ := mem_keysWithin_iff.1 hbefore
    rw [hfound.unique hstep h] at hfound
    exact hnew hfound
  refine Finset.card_lt_card ((Finset.ssubset_iff_of_subset ?_).2 ⟨key, hmem, hnot⟩)
  intro other hother
  obtain ⟨hdeclared, found, hfound⟩ := mem_keysWithin_iff.1 hother
  exact mem_keysWithin_iff.2 ⟨hdeclared, found, hfound.succ⟩

/-- **There is a last step** with anything new among as many as there are types and one more. -/
theorem exists_last (hstep : ws.InStep) : ∃ depth ≤ ws.typeKeys.length + 1,
    ∀ key supers, BindsWithin ws (depth + 1) key supers → BindsWithin ws depth key supers := by
  by_contra hnone
  -- each step would add a type
  have hcard : ∀ depth ≤ ws.typeKeys.length + 1, depth ≤ (keysWithin ws (depth + 1)).card := by
    intro depth
    induction depth with
    | zero => exact fun _ => Nat.zero_le _
    | succ depth ih =>
      intro hle
      by_contra hfew
      refine hnone ⟨depth + 1, hle, fun key supers h => ?_⟩
      by_contra hnew
      have hlt := card_keysWithin_lt hstep h hnew
      have hbefore := ih (Nat.le_of_succ_le hle)
      omega
  have hmany := hcard _ (Nat.le_refl _)
  have hfew : (keysWithin ws (ws.typeKeys.length + 1 + 1)).card ≤ ws.typeKeys.length := by
    refine le_trans (Finset.card_le_card fun key hkey => ?_) (List.toFinset_card_le ws.typeKeys)
    exact List.mem_toFinset.2 (mem_keysWithin_iff.1 hkey).1
  omega

/-- What ends ends within as many steps as there are types and one more. -/
theorem within (h : BindsWithin ws depth key supers) (hstep : ws.InStep) :
    BindsWithin ws (ws.typeKeys.length + 1) key supers := by
  obtain ⟨last, hle, hlast⟩ := exists_last hstep
  exact (of_le hlast h).mono hle

/-- **The rounds are enough**: where binding ends, a workspace has the supertypes with which it
ends. -/
theorem supertypes_eq (h : BindsWithin ws depth key supers) (hstep : ws.InStep) :
    (ofWorkspace ws).supertypes key = supers := by
  rw [ofWorkspace_eq_byTable]
  exact (h.within hstep).supertypes_tableAfter hstep (Nat.le_succ _)

/-- **Where binding ends**, the supertypes of the workspace give them once more. -/
theorem bindSupertypes_eq (h : BindsWithin ws depth key supers) (hstep : ws.InStep) :
    (ofWorkspace ws).bindSupertypes key = supers := by
  rw [ofWorkspace_eq_byTable]
  refine (h.within hstep).succ _ fun other found hother => ?_
  exact hother.supertypes_tableAfter hstep (Nat.le_succ _)

end BindsWithin

/-- **Where binding ends**, a type has the supertypes that are bound by means of those of all
types. -/
theorem BindingEnds.supertypes_eq (h : BindingEnds ws key) (hstep : ws.InStep) :
    (ofWorkspace ws).supertypes key = (ofWorkspace ws).bindSupertypes key := by
  obtain ⟨depth, supers, hends⟩ := h
  exact (hends.supertypes_eq hstep).trans (hends.bindSupertypes_eq hstep).symm

/-! ## Types that are bound at once -/

variable {s : BoundWorkspace} {info : DeclaredType}

/-- A simple name at the top of a file is bound without supertypes. -/
theorem typeOfRef?_of_simple (s : BoundWorkspace) {scope : NameScope}
    (hscope : scope.enclosing = none) {ref : TypeRef} {name : String}
    (hname : ref.segments = [name]) :
    s.typeOfRef? scope ref = if ref.isPrimitive then none else scope.topLevelType? name := by
  have haround : s.typeAround? scope name = none := by
    rw [typeAround?, hscope]
    rfl
  have hsimple : s.simpleType? scope name = scope.topLevelType? name := by
    rw [simpleType?, haround]
    rfl
  rw [typeOfRef?, hname, typeOfName?, hsimple]
  cases scope.topLevelType? name <;> rfl

/-- Simple names in the head of a type at the top of a file are bound without supertypes. -/
theorem typeOfHeadRef?_of_simple (hover : s.IsOver ws) (houter : info.outer = none) {ref : TypeRef}
    {name : String} (hname : ref.segments = [name]) (key : TypeKey) :
    s.typeOfHeadRef? info key ref = (ofWorkspace ws).typeOfHeadRef? info key ref := by
  unfold typeOfHeadRef?
  cases key.origin with
  | archive id =>
    dsimp only
    rw [binaryType?, hover.workspace]
    rfl
  | source file =>
    have hsame : ∀ source, s.scope? source none = (ofWorkspace ws).scope? source none := by
      intro source
      rw [scope?, hover.environments]
      rfl
    simp only [hover.workspace, houter, Option.map_none, hsame]
    refine Option.bind_congr fun source _ => Option.bind_congr fun scope hscope => ?_
    have henclosing := ((isOver_ofWorkspace ws).of_scope? hscope).2.2.1
    rw [typeOfRef?_of_simple s henclosing hname, typeOfRef?_of_simple _ henclosing hname]

/-- **A type at the top of a file that writes simple names only** is bound at once. -/
theorem BindingEnds.of_simple (hinfo : ws.declared? key = some info) (houter : info.outer = none)
    (hnames : ∀ ref ∈ info.writtenSupertypes, ∃ name, ref.segments = [name]) :
    BindingEnds ws key := by
  refine ⟨1, (ofWorkspace ws).bindSupertypes key, fun table _ => ?_⟩
  have hover : (byTable ws table).IsOver ws := isOver_withTable ws (ws.typeKeys.length + 2) table
  have hrefs : ∀ ref ∈ info.writtenSupertypes,
      (byTable ws table).typeOfHeadRef? info key ref =
        (ofWorkspace ws).typeOfHeadRef? info key ref := by
    intro ref href
    obtain ⟨name, hname⟩ := hnames ref href
    exact typeOfHeadRef?_of_simple hover houter hname key
  have hsuperclass : (byTable ws table).superclassOf? info key =
      (ofWorkspace ws).superclassOf? info key := by
    unfold superclassOf?
    cases hwritten : info.superclass with
    | none => simp only [hover.implicitObject?_eq]
    | some ref =>
      have href := hrefs ref (by simp [DeclaredType.writtenSupertypes, hwritten])
      simp only [href]
  have hinterfaces : info.interfaces.filterMap ((byTable ws table).typeOfHeadRef? info key) =
      info.interfaces.filterMap ((ofWorkspace ws).typeOfHeadRef? info key) :=
    List.filterMap_congr fun ref href => hrefs ref (List.mem_append_right _ href)
  have hdeclared : (byTable ws table).declared? key = some info := hinfo
  have hdeclared' : (ofWorkspace ws).declared? key = some info := hinfo
  rw [bindSupertypes, hdeclared, bindSupertypes, hdeclared']
  simp only [hsuperclass, hinterfaces]

end BoundWorkspace

end SourceSearch
