import Mathlib.Data.List.Chain
import Mathlib.Data.List.Nodup
import SourceSearch.Proofs.Inheritance
import SourceSearch.Proofs.Subtypes

/-!
# The order of look-ups

Members are looked for in a type, in its superclasses, and then in the interfaces of all of these.
Two loops without a bound find them: one climbs from superclass to superclass until there is none or
it meets a type again (`BoundWorkspace.Climbs`), the other takes interfaces from the head of a queue
and puts those that they extend at its end (`BoundWorkspace.Drains`). Both end, whether or not types
inherit from each other in circles, since only the declared types have supertypes and no type counts
twice. The bounds in `lookupOrder` leave room for all of them.

What the order holds is told level by level (`BoundWorkspace.AtLevel`): after so many levels it
holds the types that are so many interfaces away from the superclasses, the nearer ones first.
-/

set_option autoImplicit false

namespace SourceSearch

namespace BoundWorkspace

variable {s : BoundWorkspace} {key : TypeKey} {found queue order classes keys : List TypeKey}

/-- The interfaces that a type names. -/
def superinterfaces (s : BoundWorkspace) (key : TypeKey) : List TypeKey :=
  (s.supertypes key).interfaces

/-- A type names another one as an interface. -/
def NamesInterface (s : BoundWorkspace) (sub sup : TypeKey) : Prop := sup ∈ s.superinterfaces sub

/-- No types but these have supertypes. -/
def HasSupertypesIn (s : BoundWorkspace) (keys : List TypeKey) : Prop :=
  ∀ key, s.supertypes key ≠ {} → key ∈ keys

/-- **Only declared types** have supertypes. -/
theorem hasSupertypesIn_typeKeys (ws : Workspace) :
    (ofWorkspace ws).HasSupertypesIn ws.typeKeys := by
  intro key hne
  by_contra hkey
  obtain ⟨before, hlast⟩ :=
    @exists_settle_eq_refine ws ws.typeKeys (environmentsOf ws) (ws.typeKeys.length + 1) []
  apply hne
  show (withTable ws (environmentsOf ws) _ (settle ws _ _ _ [])).supertypes key = _
  rw [hlast, supertypes_refine, if_neg hkey]

/-- A type that was not found is no longer to be found when it is added. -/
theorem length_filter_append_lt {fresh : List TypeKey} (hfresh : key ∈ fresh) (hnot : key ∉ found)
    (hkey : key ∈ keys) :
    (keys.filter fun k => !(found ++ fresh).contains k).length <
      (keys.filter fun k => !found.contains k).length := by
  have hfilter : (keys.filter fun k => !(found ++ fresh).contains k) =
      (keys.filter fun k => !found.contains k).filter fun k => !fresh.contains k := by
    rw [List.filter_filter]
    refine List.filter_congr fun k _ => ?_
    rw [List.contains_append, Bool.not_or, Bool.and_comm]
  rw [hfilter]
  refine List.length_filter_lt_length_iff_exists.2 ⟨key, ?_, by simpa using hfresh⟩
  exact List.mem_filter.2 ⟨hkey, by simpa using hnot⟩

/-! ## The superclasses -/

/-- From a type, if there is one, the loop over superclasses has found some classes and comes to all
of them. -/
inductive Climbs (s : BoundWorkspace) : Option TypeKey → List TypeKey → List TypeKey → Prop
  | top {found : List TypeKey} : Climbs s none found found
  | met {key : TypeKey} {found : List TypeKey} : key ∈ found → Climbs s (some key) found found
  | up {key : TypeKey} {found classes : List TypeKey} : key ∉ found →
      Climbs s (s.superclass? key) (found ++ [key]) classes → Climbs s (some key) found classes

/-- **The loop over superclasses ends** with those that are listed. -/
theorem climbs_superclassChain (hkeys : s.HasSupertypesIn keys) {fuel : Nat}
    (hfuel : (keys.filter fun k => !found.contains k).length + 1 < fuel) :
    s.Climbs (some key) found (s.superclassChain fuel key found) := by
  induction fuel generalizing key found with
  | zero => exact absurd hfuel (Nat.not_lt_zero _)
  | succ fuel ih =>
    unfold superclassChain
    by_cases hfound : found.contains key = true
    · rw [if_pos hfound]
      exact .met (List.contains_iff_mem.1 hfound)
    · rw [if_neg hfound]
      have hnot : key ∉ found := fun hmem => hfound (List.contains_iff_mem.2 hmem)
      refine .up hnot ?_
      rw [superclass?]
      cases hsuperclass : (s.supertypes key).superclass with
      | none => exact .top
      | some superclass =>
        have hkey : key ∈ keys := hkeys key fun hnone => by
          rw [hnone] at hsuperclass
          cases hsuperclass
        have hless := length_filter_append_lt (List.mem_singleton_self key) hnot hkey
        exact ih (by omega)

/-- The superclasses of a type: each is that of the one before it, and the last one has none or one
that was met before. -/
structure IsSuperclassChain (s : BoundWorkspace) (key : TypeKey) (classes : List TypeKey) :
    Prop where
  head : classes.head? = some key
  nodup : classes.Nodup
  linked : classes.IsChain fun sub sup => s.superclass? sub = some sup
  ends : ∀ last ∈ classes.getLast?, ∀ sup, s.superclass? last = some sup → sup ∈ classes

/-- What the loop over superclasses keeps: the classes that were found are linked, and the last one
leads on to where the loop is. -/
theorem Climbs.isSuperclassChain {next : Option TypeKey} (h : s.Climbs next found classes)
    (hhead : (found.head?.or next) = some key) (hnodup : found.Nodup)
    (hlinked : found.IsChain fun sub sup => s.superclass? sub = some sup)
    (hlast : ∀ last ∈ found.getLast?, s.superclass? last = next) :
    s.IsSuperclassChain key classes := by
  induction h with
  | top =>
    refine ⟨by simpa using hhead, hnodup, hlinked, fun last hmem sup hsup => ?_⟩
    rw [hlast last hmem] at hsup
    cases hsup
  | @met here found hmet =>
    refine ⟨?_, hnodup, hlinked, fun last hmem sup hsup => ?_⟩
    · obtain ⟨first, rest, rfl⟩ := List.exists_cons_of_ne_nil (List.ne_nil_of_mem hmet)
      simpa using hhead
    · rw [hlast last hmem] at hsup
      exact Option.some.inj hsup ▸ hmet
  | @up here found classes hnot _ ih =>
    refine ih ?_ ?_ ?_ ?_
    · cases found with
      | nil => simpa using hhead
      | cons first rest => simpa using hhead
    · rw [← List.concat_eq_append]
      exact hnodup.concat hnot
    · refine hlinked.append (.singleton _) fun last hmem next hnext => ?_
      obtain rfl : here = next := by simpa using hnext
      exact hlast last hmem
    · intro last hmem
      obtain rfl : here = last := by simpa using hmem
      rfl

/-! ## The interfaces -/

/-- The interfaces among those that are waiting that were not found before, each once. -/
def freshInterfaces (pending found : List TypeKey) : List TypeKey :=
  pending.eraseDups.filter fun key => !found.contains key

theorem mem_freshInterfaces_iff {pending : List TypeKey} :
    key ∈ freshInterfaces pending found ↔ key ∈ pending ∧ key ∉ found := by
  simp [freshInterfaces, List.mem_filter, List.mem_eraseDups]

theorem nodup_freshInterfaces (pending found : List TypeKey) :
    (freshInterfaces pending found).Nodup :=
  (nodup_eraseDups pending).filter _

/-- Elements can be left out before duplicates are erased or after. -/
theorem eraseDups_filter {α : Type} [BEq α] [LawfulBEq α] (p : α → Bool) (as : List α) :
    (as.filter p).eraseDups = as.eraseDups.filter p := by
  generalize hlength : as.length = n
  induction n using Nat.strong_induction_on generalizing as with
  | _ n ih =>
    cases as with
    | nil => rfl
    | cons a as =>
      have hless : ∀ q : α → Bool, (as.filter q).length < n := fun q => by
        rw [← hlength, List.length_cons]
        exact Nat.lt_succ_of_le (List.length_filter_le _ _)
      have hcomm : ((as.filter p).filter fun b => !b == a) =
          (as.filter fun b => !b == a).filter p := by
        rw [List.filter_filter, List.filter_filter]
        exact List.filter_congr fun b _ => Bool.and_comm _ _
      rw [List.eraseDups_cons, List.filter_cons]
      by_cases hp : p a = true
      · rw [if_pos hp, List.eraseDups_cons, hcomm, ih _ (hless _) _ rfl,
          List.filter_cons_of_pos hp]
      · have hnot : as.filter p = (as.filter p).filter fun b => !b == a := by
          refine (List.filter_eq_self.2 fun b hb => ?_).symm
          rw [Bool.not_eq_true', beq_eq_false_iff_ne]
          rintro rfl
          exact hp (List.mem_filter.1 hb).2
        rw [if_neg hp, hnot, hcomm, ih _ (hless _) _ rfl, List.filter_cons_of_neg hp]

/-- Interfaces that are waiting are new or not one by one. -/
theorem freshInterfaces_cons (key : TypeKey) (pending found : List TypeKey) :
    freshInterfaces (key :: pending) found =
      if key ∈ found then freshInterfaces pending found
      else key :: freshInterfaces pending (found ++ [key]) := by
  rw [freshInterfaces, List.eraseDups_cons, eraseDups_filter, List.filter_cons, List.filter_filter]
  split
  next hnot =>
    have hnot : key ∉ found := by simpa using hnot
    rw [if_neg hnot, freshInterfaces]
    refine congrArg (key :: ·) (List.filter_congr fun other _ => ?_)
    simp [Bool.beq_eq_decide_eq]
  next hmem =>
    have hmem : key ∈ found := by simpa using hmem
    rw [if_pos hmem, freshInterfaces]
    refine List.filter_congr fun other _ => ?_
    by_cases hother : other = key
    · subst hother
      simp [hmem]
    · simp [hother]

/-- From a queue of interfaces, the loop over them has found some types and comes to all of them in
an order. -/
inductive Drains (s : BoundWorkspace) : List TypeKey → List TypeKey → List TypeKey → Prop
  | empty {found : List TypeKey} : Drains s [] found found
  | known {key : TypeKey} {queue found order : List TypeKey} : key ∈ found →
      Drains s queue found order → Drains s (key :: queue) found order
  | new {key : TypeKey} {queue found order : List TypeKey} : key ∉ found →
      Drains s (queue ++ s.superinterfaces key) (found ++ [key]) order →
      Drains s (key :: queue) found order

/-- Interfaces are found level by level. -/
inductive Levels (s : BoundWorkspace) : List TypeKey → List TypeKey → List TypeKey → Prop
  | last {pending found : List TypeKey} : freshInterfaces pending found = [] →
      Levels s pending found found
  | next {pending found order : List TypeKey} :
      Levels s ((freshInterfaces pending found).flatMap s.superinterfaces)
        (found ++ freshInterfaces pending found) order →
      Levels s pending found order

/-- **The levels come to an end**, and what was found then is listed. -/
theorem levels_addInterfaces (hkeys : s.HasSupertypesIn keys) {fuel : Nat} {pending : List TypeKey}
    (hfuel : pending ≠ [] → (keys.filter fun k => !found.contains k).length < fuel) :
    s.Levels pending found (s.addInterfaces fuel pending found) := by
  induction fuel generalizing pending found with
  | zero =>
    have hpending : pending = [] := by
      by_contra hne
      exact Nat.not_lt_zero _ (hfuel hne)
    rw [hpending]
    exact .last rfl
  | succ fuel ih =>
    show s.Levels pending found (if (freshInterfaces pending found).isEmpty then found
      else s.addInterfaces fuel ((freshInterfaces pending found).flatMap s.superinterfaces)
        (found ++ freshInterfaces pending found))
    by_cases hempty : freshInterfaces pending found = []
    · rw [hempty]
      exact .last hempty
    · rw [if_neg (by simpa using hempty)]
      refine .next (ih fun hnext => ?_)
      -- a new interface that extends others is a declared type, and no longer to be found
      obtain ⟨other, hother⟩ := List.exists_mem_of_ne_nil _ hnext
      obtain ⟨key, hkey, hother⟩ := List.mem_flatMap.1 hother
      obtain ⟨hpending, hnot⟩ := mem_freshInterfaces_iff.1 hkey
      have hdeclared : key ∈ keys := hkeys key fun hnone => by
        rw [superinterfaces, hnone] at hother
        cases hother
      have hless := length_filter_append_lt hkey hnot hdeclared
      have hbound := hfuel (List.ne_nil_of_mem hpending)
      omega

/-- To take the interfaces of a level from the queue is to find the new ones among them and to let
those that they extend wait. -/
theorem drains_append {pending : List TypeKey}
    (h : s.Drains (queue ++ (freshInterfaces pending found).flatMap s.superinterfaces)
      (found ++ freshInterfaces pending found) order) :
    s.Drains (pending ++ queue) found order := by
  induction pending generalizing queue found with
  | nil => simpa [freshInterfaces] using h
  | cons key pending ih =>
    rw [freshInterfaces_cons] at h
    by_cases hmem : key ∈ found
    · rw [if_pos hmem] at h
      exact .known hmem (ih h)
    · rw [if_neg hmem, List.flatMap_cons, ← List.append_assoc,
        List.append_cons found key (freshInterfaces pending (found ++ [key]))] at h
      refine .new hmem ?_
      rw [List.append_eq, List.append_assoc]
      exact ih h

/-- **Level by level and one by one** the same interfaces are found in the same order. -/
theorem Levels.drains {pending : List TypeKey} (h : s.Levels pending found order) :
    s.Drains pending found order := by
  induction h with
  | @last pending found hempty =>
    rw [← List.append_nil pending]
    refine drains_append ?_
    rw [hempty, List.append_nil]
    exact .empty
  | @next pending _ _ _ ih =>
    rw [← List.append_nil pending]
    exact drains_append ih

/-! ## Distances -/

/-- The types that are at most so many interfaces away from some classes. -/
def Within (s : BoundWorkspace) (classes : List TypeKey) : Nat → TypeKey → Prop
  | 0, key => key ∈ classes
  | n + 1, key => s.Within classes n key ∨ ∃ sub, s.Within classes n sub ∧ s.NamesInterface sub key

theorem Within.mono {n m : Nat} (h : s.Within classes n key) (hle : n ≤ m) :
    s.Within classes m key := by
  induction hle with
  | refl => exact h
  | step _ ih => exact .inl ih

/-- Interfaces lead from a class to the types within some distance. -/
theorem exists_within_iff : (∃ n, s.Within classes n key) ↔
    ∃ c ∈ classes, Relation.ReflTransGen s.NamesInterface c key := by
  constructor
  · rintro ⟨n, hn⟩
    induction n generalizing key with
    | zero => exact ⟨key, hn, .refl⟩
    | succ n ih =>
      rcases hn with hn | ⟨sub, hsub, hnames⟩
      · exact ih hn
      · obtain ⟨c, hc, hpath⟩ := ih hsub
        exact ⟨c, hc, hpath.tail hnames⟩
  · rintro ⟨c, hc, hpath⟩
    induction hpath with
    | refl => exact ⟨0, hc⟩
    | tail _ hnames ih =>
      obtain ⟨n, hn⟩ := ih
      exact ⟨n + 1, .inr ⟨_, hn, hnames⟩⟩

/-- A type is no farther away from some classes than another one. -/
def NoFarther (s : BoundWorkspace) (classes : List TypeKey) (key other : TypeKey) : Prop :=
  ∀ n, s.Within classes n other → s.Within classes n key

/-- What has been found after some levels: the types within that distance, the nearer ones first.
Those that are one interface farther away are waiting. -/
structure AtLevel (s : BoundWorkspace) (classes : List TypeKey) (n : Nat)
    (pending found : List TypeKey) : Prop where
  mem_found_iff : ∀ key, key ∈ found ↔ s.Within classes n key
  within_of_mem : ∀ key ∈ pending, s.Within classes (n + 1) key
  mem_of_within : ∀ key, s.Within classes (n + 1) key → key ∈ found ∨ key ∈ pending
  nodup : found.Nodup
  ordered : found.Pairwise (s.NoFarther classes)

/-- The classes are the first level. -/
theorem atLevel_zero (hnodup : classes.Nodup) :
    s.AtLevel classes 0 (classes.flatMap s.superinterfaces) classes where
  mem_found_iff _ := .rfl
  within_of_mem key hkey := by
    obtain ⟨sub, hsub, hnames⟩ := List.mem_flatMap.1 hkey
    exact .inr ⟨sub, hsub, hnames⟩
  mem_of_within key hkey := by
    refine hkey.imp_right ?_
    rintro ⟨sub, hsub, hnames⟩
    exact List.mem_flatMap.2 ⟨sub, hsub, hnames⟩
  nodup := hnodup
  ordered := List.pairwise_of_forall_mem_list fun key hkey _ _ n _ =>
    have hzero : s.Within classes 0 key := hkey
    hzero.mono (Nat.zero_le n)

/-- A type that was not found before a level is farther away than that. -/
theorem AtLevel.lt_of_fresh {n m : Nat} {pending : List TypeKey}
    (h : s.AtLevel classes n pending found) (hfresh : key ∈ freshInterfaces pending found)
    (hm : s.Within classes m key) : n < m := by
  by_contra hle
  refine (mem_freshInterfaces_iff.1 hfresh).2 ((h.mem_found_iff key).2 ?_)
  exact hm.mono (Nat.le_of_not_lt hle)

/-- **A level** goes one interface farther. -/
theorem AtLevel.next {n : Nat} {pending : List TypeKey} (h : s.AtLevel classes n pending found) :
    s.AtLevel classes (n + 1) ((freshInterfaces pending found).flatMap s.superinterfaces)
      (found ++ freshInterfaces pending found) := by
  have hfresh : ∀ key ∈ freshInterfaces pending found, s.Within classes (n + 1) key :=
    fun key hkey => h.within_of_mem key (mem_freshInterfaces_iff.1 hkey).1
  have hmem : ∀ key, key ∈ found ++ freshInterfaces pending found ↔
      s.Within classes (n + 1) key := by
    intro key
    rw [List.mem_append]
    constructor
    · rintro (hkey | hkey)
      · exact .inl ((h.mem_found_iff key).1 hkey)
      · exact hfresh key hkey
    · intro hkey
      by_cases hfound : key ∈ found
      · exact .inl hfound
      · have hpending := (h.mem_of_within key hkey).resolve_left hfound
        exact .inr (mem_freshInterfaces_iff.2 ⟨hpending, hfound⟩)
  refine ⟨hmem, fun key hkey => ?_, fun key hkey => ?_, ?_, ?_⟩
  · obtain ⟨sub, hsub, hnames⟩ := List.mem_flatMap.1 hkey
    exact .inr ⟨sub, hfresh sub hsub, hnames⟩
  · rcases hkey with hkey | ⟨sub, hsub, hnames⟩
    · exact .inl ((hmem key).2 hkey)
    · rcases List.mem_append.1 ((hmem sub).2 hsub) with hfound | hsub
      · refine .inl ((hmem key).2 (.inr ⟨sub, ?_, hnames⟩))
        exact (h.mem_found_iff sub).1 hfound
      · exact .inr (List.mem_flatMap.2 ⟨sub, hsub, hnames⟩)
  · refine List.nodup_append.2 ⟨h.nodup, nodup_freshInterfaces _ _, ?_⟩
    rintro key hkey _ hother rfl
    exact (mem_freshInterfaces_iff.1 hother).2 hkey
  · refine List.pairwise_append.2 ⟨h.ordered, ?_, ?_⟩
    · refine List.pairwise_of_forall_mem_list fun key hkey other hother m hm => ?_
      exact (hfresh key hkey).mono (h.lt_of_fresh hother hm)
    · intro key hkey other hother m hm
      exact ((h.mem_found_iff key).1 hkey).mono (Nat.le_of_lt (h.lt_of_fresh hother hm))

/-- **The levels** find the types that interfaces lead to, each once and the nearer ones first. -/
theorem Levels.spec {n : Nat} {pending : List TypeKey} (h : s.Levels pending found order)
    (hlevel : s.AtLevel classes n pending found) :
    order.Nodup ∧ order.Pairwise (s.NoFarther classes) ∧
      ∀ key, key ∈ order ↔ ∃ n, s.Within classes n key := by
  induction h generalizing n with
  | @last pending found hempty =>
    refine ⟨hlevel.nodup, hlevel.ordered, fun key => ?_⟩
    refine ⟨fun hkey => ⟨n, (hlevel.mem_found_iff key).1 hkey⟩, fun ⟨m, hm⟩ => ?_⟩
    -- nothing new was waiting, so that nothing is farther away
    have hnext := hlevel.next
    rw [hempty, List.append_nil] at hnext
    have hstays : ∀ m key, s.Within classes m key → key ∈ found := by
      intro m
      induction m with
      | zero =>
        intro key hkey
        exact (hlevel.mem_found_iff key).2 (Within.mono hkey (Nat.zero_le n))
      | succ m ih =>
        rintro key (hkey | ⟨sub, hsub, hnames⟩)
        · exact ih key hkey
        · refine (hnext.mem_found_iff key).2 (.inr ⟨sub, ?_, hnames⟩)
          exact (hlevel.mem_found_iff sub).1 (ih sub hsub)
    exact hstays m key hm
  | next _ ih => exact ih hlevel.next

/-- What is found is added at the end. -/
theorem Levels.exists_eq_append {pending : List TypeKey} (h : s.Levels pending found order) :
    ∃ rest, order = found ++ rest := by
  induction h with
  | last _ => exact ⟨[], (List.append_nil _).symm⟩
  | next _ ih =>
    obtain ⟨rest, rfl⟩ := ih
    exact ⟨_, List.append_assoc _ _ _⟩

end BoundWorkspace

/-! ## Workspaces -/

open BoundWorkspace

/-- **The order of look-ups** of a type in any workspace, whether or not types inherit from each
other in circles: both loops end; the superclasses come first, from the type on up to the first that
was met before; then come the interfaces in the order in which a queue gives them, so that no
interface is farther away from the superclasses than one behind it; and all in all these are, each
once, the types that interfaces lead to from one of the superclasses. -/
theorem lookupOrder_ofWorkspace (ws : Workspace) (key : TypeKey) :
    let s := BoundWorkspace.ofWorkspace ws
    ∃ classes interfaces, s.lookupOrder key = classes ++ interfaces ∧
      s.Climbs (some key) [] classes ∧ s.IsSuperclassChain key classes ∧
      s.Drains (classes.flatMap s.superinterfaces) classes (classes ++ interfaces) ∧
      (s.lookupOrder key).Nodup ∧ interfaces.Pairwise (s.NoFarther classes) ∧
      ∀ other, other ∈ s.lookupOrder key ↔
        ∃ c ∈ classes, Relation.ReflTransGen s.NamesInterface c other := by
  intro s
  have hkeys : s.HasSupertypesIn ws.typeKeys := hasSupertypesIn_typeKeys ws
  have hlength : ∀ found : List TypeKey,
      (ws.typeKeys.filter fun k => !found.contains k).length ≤ ws.typeKeys.length :=
    fun _ => List.length_filter_le _ _
  have hclimbs : s.Climbs (some key) [] (s.superclassChain s.chainLimit key []) := by
    refine climbs_superclassChain hkeys ?_
    have hle := hlength []
    show _ < ws.typeKeys.length + 2
    omega
  have hchain : s.IsSuperclassChain key (s.superclassChain s.chainLimit key []) :=
    hclimbs.isSuperclassChain rfl .nil .nil nofun
  generalize hclasses : s.superclassChain s.chainLimit key [] = classes at hclimbs hchain
  have hlevels : s.Levels (classes.flatMap s.superinterfaces) classes (s.lookupOrder key) := by
    unfold lookupOrder
    rw [hclasses]
    refine levels_addInterfaces hkeys fun _ => ?_
    have hle := hlength classes
    show _ < ws.typeKeys.length + 2
    omega
  obtain ⟨interfaces, horder⟩ := hlevels.exists_eq_append
  obtain ⟨hnodup, hordered, hmem⟩ := hlevels.spec (atLevel_zero hchain.nodup)
  refine ⟨classes, interfaces, horder, hclimbs, hchain, horder ▸ hlevels.drains, hnodup, ?_, ?_⟩
  · rw [horder] at hordered
    exact (List.pairwise_append.1 hordered).2.1
  · exact fun other => (hmem other).trans exists_within_iff

end SourceSearch
