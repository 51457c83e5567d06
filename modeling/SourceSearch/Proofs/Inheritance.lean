import Mathlib.Logic.Function.Iterate
import SourceSearch.Proofs.NameBinding

/-!
# Where supertypes are declared

The types in which members are looked up are those that direct supertypes lead to
(`extends_of_mem_lookupOrder`). Names are bound to types in the projects that a file's project sees
and in archives, and archives name types of archives only. So a direct supertype of a type is where
the type's own origin leads (`Workspace.Leads`), and so are its supertypes in turn. The direct
supertypes of a workspace are made in rounds, and each round keeps this (`inSight_refine`).
-/

set_option autoImplicit false

namespace SourceSearch

variable {ws : Workspace} {s : BoundWorkspace}

/-! ## The order of look-ups -/

namespace BoundWorkspace

/-- A type has a direct supertype. -/
def Extends (s : BoundWorkspace) (sub sup : TypeKey) : Prop := sup ∈ s.directSupertypes sub

variable {p : TypeKey → Prop} (hclosed : ∀ sub sup, p sub → s.Extends sub sup → p sup)

include hclosed

theorem forall_mem_superclassChain {fuel : Nat} {key : TypeKey} {found : List TypeKey}
    (hkey : p key) (hfound : ∀ other ∈ found, p other) :
    ∀ other ∈ s.superclassChain fuel key found, p other := by
  induction fuel generalizing key found with
  | zero => exact hfound
  | succ fuel ih =>
    have hmore : ∀ other ∈ found ++ [key], p other := by
      intro other hother
      rcases List.mem_append.1 hother with hother | hother
      · exact hfound other hother
      · rw [List.mem_singleton.1 hother]
        exact hkey
    unfold superclassChain
    split
    · exact hfound
    · split
      next superclass hsuperclass =>
        refine ih (hclosed key superclass hkey ?_) hmore
        rw [Extends, directSupertypes, hsuperclass]
        simp
      next => exact hmore

theorem forall_mem_addInterfaces {fuel : Nat} {interfaces found : List TypeKey}
    (hinterfaces : ∀ other ∈ interfaces, p other) (hfound : ∀ other ∈ found, p other) :
    ∀ other ∈ s.addInterfaces fuel interfaces found, p other := by
  induction fuel generalizing interfaces found with
  | zero => exact hfound
  | succ fuel ih =>
    have hfresh : ∀ other ∈ interfaces.eraseDups.filter (fun key => !found.contains key),
        p other := by
      intro other hother
      exact hinterfaces other (List.mem_eraseDups.1 (List.mem_filter.1 hother).1)
    unfold addInterfaces
    dsimp only
    split
    · exact hfound
    · apply ih
      · intro other hother
        obtain ⟨key, hkey, hother⟩ := List.mem_flatMap.1 hother
        exact hclosed key other (hfresh key hkey) (List.mem_append_right _ hother)
      · intro other hother
        rcases List.mem_append.1 hother with hother | hother
        · exact hfound other hother
        · exact hfresh other hother

theorem forall_mem_lookupOrder {key : TypeKey} (hkey : p key) :
    ∀ other ∈ s.lookupOrder key, p other := by
  have hclasses : ∀ other ∈ s.superclassChain s.chainLimit key [], p other :=
    forall_mem_superclassChain hclosed hkey (by simp)
  refine forall_mem_addInterfaces hclosed ?_ hclasses
  intro other hother
  obtain ⟨sub, hsub, hother⟩ := List.mem_flatMap.1 hother
  exact hclosed sub other (hclasses sub hsub) (List.mem_append_right _ hother)

omit hclosed

/-- **The types in which members are looked up** are those that direct supertypes lead to. -/
theorem extends_of_mem_lookupOrder {key other : TypeKey} (hother : other ∈ s.lookupOrder key) :
    Relation.ReflTransGen s.Extends key other :=
  forall_mem_lookupOrder (fun _ _ hsub hsup => hsub.tail hsup) .refl other hother

theorem exists_superclassChain_eq_append (s : BoundWorkspace) (fuel : Nat) (key : TypeKey)
    (found : List TypeKey) :
    ∃ rest, s.superclassChain fuel key found = found ++ rest := by
  induction fuel generalizing key found with
  | zero => exact ⟨[], (List.append_nil found).symm⟩
  | succ fuel ih =>
    unfold superclassChain
    split
    · exact ⟨[], (List.append_nil found).symm⟩
    · split
      · obtain ⟨rest, hrest⟩ := ih _ (found ++ [key])
        exact ⟨key :: rest, by rw [hrest, List.append_assoc]; rfl⟩
      · exact ⟨[key], rfl⟩

theorem exists_addInterfaces_eq_append (s : BoundWorkspace) (fuel : Nat)
    (interfaces found : List TypeKey) :
    ∃ rest, s.addInterfaces fuel interfaces found = found ++ rest := by
  induction fuel generalizing interfaces found with
  | zero => exact ⟨[], (List.append_nil found).symm⟩
  | succ fuel ih =>
    unfold addInterfaces
    dsimp only
    split
    · exact ⟨[], (List.append_nil found).symm⟩
    · obtain ⟨rest, hrest⟩ := ih _ (found ++ _)
      exact ⟨_, hrest.trans (List.append_assoc _ _ _)⟩

/-- A type that was not met before comes next. -/
theorem exists_superclassChain_of_notMem (s : BoundWorkspace) (fuel : Nat) {key : TypeKey}
    {found : List TypeKey} (hkey : key ∉ found) :
    ∃ rest, s.superclassChain (fuel + 1) key found = found ++ key :: rest := by
  rw [superclassChain, if_neg (by simpa using hkey)]
  split
  · obtain ⟨rest, hrest⟩ := s.exists_superclassChain_eq_append fuel _ (found ++ [key])
    exact ⟨rest, by rw [hrest, List.append_assoc]; rfl⟩
  · exact ⟨[], rfl⟩

/-- Superclasses come before interfaces. -/
theorem exists_lookupOrder_eq_append (s : BoundWorkspace) (key : TypeKey) :
    ∃ rest, s.lookupOrder key = s.superclassChain s.chainLimit key [] ++ rest :=
  s.exists_addInterfaces_eq_append _ _ _

/-- Members are looked for in the type itself first. -/
theorem exists_lookupOrder_eq_cons (s : BoundWorkspace) (hlimit : 0 < s.chainLimit)
    (key : TypeKey) : ∃ rest, s.lookupOrder key = key :: rest := by
  obtain ⟨fuel, hfuel⟩ := Nat.exists_eq_add_of_le' hlimit
  have hfresh : key ∉ ([] : List TypeKey) := List.not_mem_nil
  obtain ⟨classes, hclasses⟩ := s.exists_superclassChain_of_notMem fuel hfresh
  obtain ⟨rest, hrest⟩ := s.exists_lookupOrder_eq_append key
  rw [hfuel, hclasses] at hrest
  exact ⟨classes ++ rest, hrest⟩

/-- Members are looked for in the superclass next. -/
theorem exists_lookupOrder_of_superclass (hlimit : 1 < s.chainLimit) {key superclass : TypeKey}
    (hsuperclass : (s.supertypes key).superclass = some superclass) (hother : superclass ≠ key) :
    ∃ rest, s.lookupOrder key = key :: superclass :: rest := by
  obtain ⟨fuel, hfuel⟩ := Nat.exists_eq_add_of_le' hlimit
  have hfresh : superclass ∉ [key] := by simpa using hother
  obtain ⟨classes, hclasses⟩ := s.exists_superclassChain_of_notMem fuel hfresh
  have hchain : s.superclassChain s.chainLimit key [] = key :: superclass :: classes := by
    rw [hfuel, superclassChain, if_neg (by simp), hsuperclass]
    exact hclasses
  obtain ⟨rest, hrest⟩ := s.exists_lookupOrder_eq_append key
  rw [hchain] at hrest
  exact ⟨classes ++ rest, hrest⟩

/-- A member type of the superclass is inherited, unless the type has one of the name. -/
theorem memberType?_of_superclass (hlimit : 1 < s.chainLimit) {key superclass : TypeKey}
    (hsuperclass : (s.supertypes key).superclass = some superclass) (hother : superclass ≠ key)
    {name : String} (hown : s.declared? ⟨key.origin, key.qualifiedName ++ "." ++ name⟩ = none)
    {info : DeclaredType}
    (hinfo : s.declared? ⟨superclass.origin, superclass.qualifiedName ++ "." ++ name⟩ = some info) :
    s.memberType? key name =
      some ⟨superclass.origin, superclass.qualifiedName ++ "." ++ name⟩ := by
  obtain ⟨rest, hrest⟩ := exists_lookupOrder_of_superclass hlimit hsuperclass hother
  simp only [memberType?, hrest, List.findSome?_cons, hown, hinfo, Option.map_none, Option.map_some]

/-- A type's own field is found first. -/
theorem field?_of_own (hlimit : 0 < s.chainLimit) {key : TypeKey} {info : DeclaredType}
    (hinfo : s.declared? key = some info) {name : String} {field : DeclaredField}
    (hfield : info.field? name = some field) : s.field? key name = some ⟨info, field⟩ := by
  obtain ⟨rest, hrest⟩ := s.exists_lookupOrder_eq_cons hlimit key
  rw [field?, hrest, List.findSome?_cons, hinfo, Option.bind_some, hfield]
  rfl

/-- **A field of the type around a place** is what its name stands for there. -/
theorem fieldAround?_of_own (hlimit : 0 < s.chainLimit) {scope : NameScope} {key : TypeKey}
    (hscope : scope.enclosing = some key) {info : DeclaredType}
    (hinfo : s.declared? key = some info) {name : String} {field : DeclaredField}
    (hfield : info.field? name = some field) :
    s.fieldAround? scope name = some ⟨info, field⟩ := by
  rw [fieldAround?, hscope, enclosingChain, outerChain]
  simp only [List.findSome?_cons, field?_of_own hlimit hinfo hfield]

theorem origin_of_mem_outerChain {fuel : Nat} {key other : TypeKey}
    (hother : other ∈ s.outerChain fuel key) : other.origin = key.origin := by
  induction fuel generalizing key with
  | zero => cases hother
  | succ fuel ih =>
    rw [outerChain] at hother
    rcases List.mem_cons.1 hother with rfl | hother
    · rfl
    · split at hother
      next outer houter =>
        obtain ⟨info, -, hinfo⟩ := Option.bind_eq_some_iff.1 houter
        obtain ⟨name, -, rfl⟩ := Option.map_eq_some_iff.1 hinfo
        have horigin := ih hother
        exact horigin
      next => cases hother

/-- A type and the types around it are declared in one place. -/
theorem origin_of_mem_enclosingChain {key other : TypeKey}
    (hother : other ∈ s.enclosingChain (some key)) : other.origin = key.origin :=
  origin_of_mem_outerChain hother

end BoundWorkspace

/-! ## Where an origin leads -/

/-- A source file leads to what its project sees, an archive to archives. -/
def Workspace.Leads (ws : Workspace) : Origin → Origin → Prop
  | .source file, target =>
    ∃ source, ws.source? file = some source ∧ ws.SeesOrigin source.project target
  | .archive _, target => target.file? = none

theorem Workspace.Leads.trans {a b c : Origin} (h : ws.Leads a b) (h' : ws.Leads b c) :
    ws.Leads a c := by
  cases a with
  | source file =>
    obtain ⟨source, hsource, hsees⟩ := h
    refine ⟨source, hsource, ?_⟩
    cases b with
    | source between =>
      obtain ⟨other, hother, hproject⟩ := hsees
      obtain ⟨found, hfound, hfurther⟩ := h'
      obtain rfl := Option.some.inj (hother.symm.trans hfound)
      exact hfurther.trans hproject
    | archive id =>
      cases c with
      | source target => cases h'
      | archive target => exact True.intro
  | archive id =>
    cases b with
    | source between => cases h
    | archive between => exact h'

/-- Direct supertypes are of declared types, and are where the origin of the type leads. -/
structure BoundWorkspace.InSight (ws : Workspace) (s : BoundWorkspace) : Prop where
  declared : ∀ {sub sup}, s.Extends sub sup → ∃ info, ws.declared? sub = some info
  leads : ∀ {sub sup}, s.Extends sub sup → ws.Leads sub.origin sup.origin

theorem BoundWorkspace.InSight.leads_of_reflTransGen (hs : s.InSight ws) {start : Origin}
    {key other : TypeKey} (hstart : ws.Leads start key.origin)
    (hextends : Relation.ReflTransGen s.Extends key other) : ws.Leads start other.origin := by
  induction hextends with
  | refl => exact hstart
  | tail _ hstep ih => exact ih.trans (hs.leads hstep)

/-! ## Names -/

/-- A place stands in a source file, and so do the types around it. -/
structure NameScope.StandsIn (ws : Workspace) (file : FileId) (scope : NameScope) : Prop where
  isIn : scope.IsIn ws
  source : ws.source? file = some scope.file
  enclosing : ∀ key, scope.enclosing = some key → key.origin = .source file

namespace BoundWorkspace.InSight

variable {file : FileId} {scope : NameScope}

theorem leads_of_memberType? (hs : s.InSight ws) {start : Origin} {owner key : TypeKey}
    {name : String} (howner : ws.Leads start owner.origin)
    (hkey : s.memberType? owner name = some key) : ws.Leads start key.origin := by
  obtain ⟨other, hother, hfound⟩ := List.exists_of_findSome?_eq_some hkey
  obtain ⟨info, -, rfl⟩ := Option.map_eq_some_iff.1 hfound
  have hleads := hs.leads_of_reflTransGen howner (extends_of_mem_lookupOrder hother)
  exact hleads

end BoundWorkspace.InSight

namespace NameScope.StandsIn

variable {file : FileId} {scope : NameScope}

theorem leads_self (hscope : scope.StandsIn ws file) : ws.Leads (.source file) (.source file) :=
  ⟨scope.file, hscope.source, scope.file, hscope.source, .refl⟩

theorem leads_of_lookup? (hscope : scope.StandsIn ws file) (h : ws.InStep) {qualifiedName : String}
    {key : TypeKey} (hkey : scope.env.lookup? qualifiedName = some key) :
    ws.Leads (.source file) key.origin :=
  ⟨scope.file, hscope.source, (hscope.isIn.of_lookup? h hkey).2⟩

/-- **A type that is found for a name** of a file is declared where the file leads. -/
theorem leads_of_foundFor (hscope : scope.StandsIn ws file) (h : ws.InStep) (hs : s.InSight ws)
    {name : String} {key : TypeKey} (hfound : s.FoundFor scope name key) :
    ws.Leads (.source file) key.origin := by
  induction hfound with
  | @around key hkey =>
    have horigin : key.origin = .source file := by
      cases henclosing : scope.enclosing with
      | none =>
        rw [henclosing] at hkey
        cases hkey
      | some inner =>
        rw [henclosing] at hkey
        rw [BoundWorkspace.origin_of_mem_enclosingChain hkey, hscope.enclosing inner henclosing]
    exact horigin ▸ hscope.leads_self
  | member _ hkey ih => exact hs.leads_of_memberType? ih hkey
  | lookup hkey => exact hscope.leads_of_lookup? h hkey

/-- A simple name of a file stands for a type that is declared where the file leads. -/
theorem leads_of_simpleType? (hscope : scope.StandsIn ws file) (h : ws.InStep) (hs : s.InSight ws)
    {name : String} {key : TypeKey} (hkey : s.simpleType? scope name = some key) :
    ws.Leads (.source file) key.origin :=
  hscope.leads_of_foundFor h hs (.of_simpleType? hkey)

/-- **A dotted name** of a file stands for a type that is declared where the file leads. -/
theorem leads_of_typeOfName? (hscope : scope.StandsIn ws file) (h : ws.InStep) (hs : s.InSight ws)
    {segments : List String} {key : TypeKey} (hkey : s.typeOfName? scope segments = some key) :
    ws.Leads (.source file) key.origin := by
  obtain ⟨last, -, hfound⟩ := BoundWorkspace.FoundFor.of_typeOfName? hkey
  exact hscope.leads_of_foundFor h hs hfound

/-- **A written type** of a file is declared where the file leads. -/
theorem leads_of_typeOfRef? (hscope : scope.StandsIn ws file) (h : ws.InStep) (hs : s.InSight ws)
    {ref : TypeRef} {key : TypeKey} (hkey : s.typeOfRef? scope ref = some key) :
    ws.Leads (.source file) key.origin := by
  unfold BoundWorkspace.typeOfRef? at hkey
  split at hkey
  next => cases hkey
  next => exact hscope.leads_of_typeOfName? h hs hkey

end NameScope.StandsIn

/-! ## Supertypes -/

/-- The supertypes that the head of a type writes, the superclass first. -/
def DeclaredType.writtenSupertypes (info : DeclaredType) : List TypeRef :=
  info.superclass.toList ++ info.interfaces

namespace BoundWorkspace

/-- The type that an archive finds under a qualified name is in an archive. -/
theorem file?_of_binaryType? (hover : s.IsOver ws) (h : ws.ArchivesInStep) {id : ArchiveId}
    {qualifiedName : String} {key : TypeKey} (hkey : s.binaryType? id qualifiedName = some key) :
    key.origin.file? = none := by
  obtain ⟨archive, hmem, info, hinfo, rfl, -⟩ := exists_declared_of_binaryType? hkey
  rw [hover.workspace] at hmem
  obtain ⟨⟨path, listed⟩, hlisted, rfl⟩ := List.mem_map.1 hmem
  rw [(h.namedIn_archive hlisted hinfo).origin_eq]
  rfl

/-- A place in a file stands in the file when the type around it does. -/
theorem IsOver.standsIn_of_scope? (hover : s.IsOver ws) (h : ws.InStep) {file : FileId}
    {source : SourceFile} (hsource : ws.source? file = some source) {enclosing : Option TypeKey}
    (henclosing : ∀ key, enclosing = some key → key.origin = .source file) {scope : NameScope}
    (hscope : s.scope? source enclosing = some scope) : scope.StandsIn ws file := by
  obtain ⟨-, hfile, haround, -⟩ := hover.of_scope? hscope
  exact ⟨hover.isIn_of_scope? h hsource hscope, hfile ▸ hsource, haround ▸ henclosing⟩

/-- A supertype in the head of a type is declared where the type's origin leads. -/
theorem InSight.leads_of_typeOfHeadRef? (hs : s.InSight ws) (hover : s.IsOver ws) (h : ws.InStep)
    {info : DeclaredType} {key sup : TypeKey} {ref : TypeRef}
    (hsup : s.typeOfHeadRef? info key ref = some sup) : ws.Leads key.origin sup.origin := by
  unfold typeOfHeadRef? at hsup
  split at hsup
  next file horigin =>
    obtain ⟨source, hsource, hsup⟩ := Option.bind_eq_some_iff.1 hsup
    obtain ⟨scope, hscope, hsup⟩ := Option.bind_eq_some_iff.1 hsup
    rw [hover.workspace] at hsource
    rw [horigin] at hscope ⊢
    refine (hover.standsIn_of_scope? h hsource ?_ hscope).leads_of_typeOfRef? h hs hsup
    intro outer houter
    obtain ⟨name, -, rfl⟩ := Option.map_eq_some_iff.1 houter
    rfl
  next id horigin =>
    rw [horigin]
    exact file?_of_binaryType? hover h.archives hsup

/-- **The class that all classes extend** is looked up by its name: in the environment of the
project for a type of a source file, and in the archives for a type of an archive. -/
theorem implicitObject?_cases (hover : s.IsOver ws) (h : ws.FilesInStep) {key sup : TypeKey}
    (hsup : s.implicitObject? key = some sup) :
    (∃ file source project, key.origin = .source file ∧ ws.source? file = some source ∧
        project.name = source.project ∧ ws.project? project.name = some project ∧
        (Environment.ofProject ws project).lookup? objectName = some sup) ∨
      ∃ id, key.origin = .archive id ∧ s.binaryType? id objectName = some sup := by
  unfold implicitObject? at hsup
  split at hsup
  next file horigin =>
    obtain ⟨source, hsource, hsup⟩ := Option.bind_eq_some_iff.1 hsup
    obtain ⟨env, henv, hsup⟩ := Option.bind_eq_some_iff.1 hsup
    rw [hover.workspace] at hsource
    rw [hover.environments, get?_environmentsOf] at henv
    obtain ⟨project, hproject, rfl⟩ := Option.map_eq_some_iff.1 henv
    have hname : project.name = source.project := (h.project_name hproject).1
    rw [← hname] at hproject
    exact Or.inl ⟨file, source, project, horigin, hsource, hname, hproject, hsup⟩
  next id horigin => exact Or.inr ⟨id, horigin, hsup⟩

/-- The class that all classes extend has its name. -/
theorem qualifiedName_of_implicitObject? (hover : s.IsOver ws) (h : ws.InStep) {key sup : TypeKey}
    (hsup : s.implicitObject? key = some sup) : sup.qualifiedName = objectName := by
  rcases implicitObject?_cases hover h.files hsup with
    ⟨file, source, project, -, -, -, hproject, hfound⟩ | ⟨id, -, hfound⟩
  · exact (Environment.of_lookupFor? h hproject hfound).1
  · exact qualifiedName_of_binaryType? hfound

/-- The class that all classes extend is declared where the type's origin leads. -/
theorem leads_of_implicitObject? (hover : s.IsOver ws) (h : ws.InStep) {key sup : TypeKey}
    (hsup : s.implicitObject? key = some sup) : ws.Leads key.origin sup.origin := by
  rcases implicitObject?_cases hover h.files hsup with
    ⟨file, source, project, horigin, hsource, hname, hproject, hfound⟩ | ⟨id, horigin, hfound⟩
  · rw [horigin]
    exact ⟨source, hsource, hname ▸ (Environment.of_lookupFor? h hproject hfound).2⟩
  · rw [horigin]
    exact file?_of_binaryType? hover h.archives hfound

/-- **What is bound as a direct supertype** of a type is written in its head, or is the class that
all classes extend where no superclass is written. -/
theorem mem_bindSupertypes_cases {key sup : TypeKey}
    (hsup : sup ∈ (s.bindSupertypes key).superclass.toList ++ (s.bindSupertypes key).interfaces) :
    ∃ info, s.declared? key = some info ∧
      ((∃ ref ∈ info.writtenSupertypes, s.typeOfHeadRef? info key ref = some sup) ∨
        info.superclass = none ∧ s.implicitObject? key = some sup) := by
  unfold bindSupertypes at hsup
  split at hsup
  next => simp at hsup
  next info hinfo =>
    refine ⟨info, hinfo, ?_⟩
    rcases List.mem_append.1 hsup with hsup | hsup
    · obtain ⟨hbound, -⟩ := Option.filter_eq_some_iff.1 (Option.mem_toList.1 hsup)
      split at hbound
      next ref hwritten =>
        exact Or.inl ⟨ref, List.mem_append_left _ (Option.mem_toList.2 hwritten), hbound⟩
      next hunwritten =>
        split at hbound
        next => cases hbound
        next => exact Or.inr ⟨hunwritten, hbound⟩
    · obtain ⟨ref, hwritten, hbound⟩ := List.mem_filterMap.1 hsup
      exact Or.inl ⟨ref, List.mem_append_right _ hwritten, hbound⟩

/-- What is bound as a direct supertype of a type is declared where the type's origin leads. -/
theorem InSight.of_bindSupertypes (hs : s.InSight ws) (hover : s.IsOver ws) (h : ws.InStep)
    {key sup : TypeKey}
    (hsup : sup ∈ (s.bindSupertypes key).superclass.toList ++ (s.bindSupertypes key).interfaces) :
    (∃ info, ws.declared? key = some info) ∧ ws.Leads key.origin sup.origin := by
  obtain ⟨info, hinfo, hbound⟩ := mem_bindSupertypes_cases hsup
  rw [declared?, hover.workspace] at hinfo
  refine ⟨⟨info, hinfo⟩, ?_⟩
  rcases hbound with ⟨ref, -, hbound⟩ | ⟨-, hbound⟩
  · exact hs.leads_of_typeOfHeadRef? hover h hbound
  · exact leads_of_implicitObject? hover h hbound

variable {keys : List TypeKey} {chainLimit : Nat} {table : SupertypeTable}

/-- The table in which no type has a supertype. -/
theorem inSight_nil (ws : Workspace) (chainLimit : Nat) :
    (withTable ws (environmentsOf ws) chainLimit []).InSight ws where
  declared h := by simp [Extends, directSupertypes, withTable] at h
  leads h := by simp [Extends, directSupertypes, withTable] at h

/-- **A round** binds the supertypes of the types that were listed. -/
theorem supertypes_refine (environments : Table String Environment) (key : TypeKey) :
    (withTable ws environments chainLimit (refine ws environments keys table)).supertypes key =
      if key ∈ keys then
        (withTable ws environments (keys.length + 2) table).bindSupertypes key
      else {} := by
  simp only [withTable, refine, lookup_map_pair]
  cases hfind : keys.find? (· == key) with
  | none =>
    have hnot : key ∉ keys := fun hmem => List.find?_eq_none.1 hfind key hmem (beq_self_eq_true key)
    rw [if_neg hnot]
    rfl
  | some found =>
    obtain rfl : found = key := by simpa using List.find?_some hfind
    rw [if_pos (List.mem_of_find?_eq_some hfind)]
    rfl

/-- **Settling is refining so many times**, since a table that a round leaves as it is stays. -/
theorem settle_eq_iterate (ws : Workspace) (environments : Table String Environment)
    (keys : List TypeKey) (fuel : Nat) (table : SupertypeTable) :
    settle ws environments keys fuel table = (refine ws environments keys)^[fuel] table := by
  induction fuel generalizing table with
  | zero => rfl
  | succ fuel ih =>
    rw [settle, Function.iterate_succ_apply]
    split
    next hfixed => rw [hfixed, Function.iterate_fixed hfixed]
    next => exact ih _

/-- What is settled was made by a round. -/
theorem exists_settle_eq_refine (environments : Table String Environment) (fuel : Nat)
    (table : SupertypeTable) :
    ∃ before, settle ws environments keys (fuel + 1) table =
      refine ws environments keys before :=
  ⟨(refine ws environments keys)^[fuel] table,
    by rw [settle_eq_iterate, Function.iterate_succ_apply']⟩

/-- **The direct supertypes** of a declared type are bound by means of those of all types. -/
theorem exists_supertypes_eq_bindSupertypes {key : TypeKey} (hkey : key ∈ ws.typeKeys) :
    ∃ s : BoundWorkspace, s.IsOver ws ∧
      (ofWorkspace ws).supertypes key = s.bindSupertypes key := by
  obtain ⟨before, hlast⟩ :=
    exists_settle_eq_refine (environmentsOf ws) (ws.typeKeys.length + 1) []
  refine ⟨_, isOver_withTable ws (ws.typeKeys.length + 2) before, ?_⟩
  show (withTable ws (environmentsOf ws) _ (settle ws _ _ _ [])).supertypes key = _
  rw [hlast, supertypes_refine, if_pos hkey]

/-- The class that all classes extend does not hang on supertypes. -/
theorem IsOver.implicitObject?_eq (hover : s.IsOver ws) (key : TypeKey) :
    s.implicitObject? key = (ofWorkspace ws).implicitObject? key := by
  simp only [implicitObject?, binaryType?, hover.workspace, hover.environments]
  rfl

/-- **A class that writes no superclass** extends the class that all classes extend. -/
theorem superclass?_of_unwritten {key : TypeKey} (hkey : key ∈ ws.typeKeys) {info : DeclaredType}
    (hinfo : ws.declared? key = some info) (hunwritten : info.superclass = none)
    (hclass : (info.isInterface || info.qualifiedName == objectName) = false) :
    (ofWorkspace ws).superclass? key = ((ofWorkspace ws).implicitObject? key).filter (· ≠ key) := by
  obtain ⟨t, ht, hbound⟩ := exists_supertypes_eq_bindSupertypes hkey
  rw [superclass?, hbound, bindSupertypes, declared?, ht.workspace, hinfo]
  simp only [superclassOf?, hunwritten, hclass, Bool.false_eq_true, if_false,
    ht.implicitObject?_eq key]

/-- A round keeps supertypes in sight. -/
theorem inSight_refine (h : ws.InStep)
    (htable : (withTable ws (environmentsOf ws) (keys.length + 2) table).InSight ws) :
    (withTable ws (environmentsOf ws) (keys.length + 2)
      (refine ws (environmentsOf ws) keys table)).InSight ws := by
  have hbound : ∀ {sub sup}, (withTable ws (environmentsOf ws) (keys.length + 2)
      (refine ws (environmentsOf ws) keys table)).Extends sub sup →
      (∃ info, ws.declared? sub = some info) ∧ ws.Leads sub.origin sup.origin := by
    intro sub sup hextends
    rw [Extends, directSupertypes, supertypes_refine] at hextends
    split at hextends
    next => exact htable.of_bindSupertypes (isOver_withTable _ _ _) h hextends
    next => simp at hextends
  exact ⟨fun hextends => (hbound hextends).1, fun hextends => (hbound hextends).2⟩

/-- **The direct supertypes** of a workspace are in sight. -/
theorem inSight_ofWorkspace (h : ws.InStep) : (ofWorkspace ws).InSight ws := by
  have hsettle : ∀ (fuel : Nat) (table : SupertypeTable),
      (withTable ws (environmentsOf ws) (ws.typeKeys.length + 2) table).InSight ws →
      (withTable ws (environmentsOf ws) (ws.typeKeys.length + 2)
        (settle ws (environmentsOf ws) ws.typeKeys fuel table)).InSight ws := by
    intro fuel
    induction fuel with
    | zero => exact fun table htable => htable
    | succ fuel ih =>
      intro table htable
      unfold settle
      dsimp only
      split
      · exact htable
      · exact ih _ (inSight_refine h htable)
  exact hsettle _ _ (inSight_nil ws _)

end BoundWorkspace

end SourceSearch
