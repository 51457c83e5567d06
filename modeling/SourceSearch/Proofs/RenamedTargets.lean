import SourceSearch.Proofs.RenamedPlaces
import SourceSearch.Search.Reference

/-!
# Targets under other numbers

A renamed target in a renamed workspace decides of renamed declarations, calls and names as the
target itself decides of them, so at every place the same reference is found (`at?`). A pattern has a
target in the one workspace iff the renamed pattern has one in the other (`toOption_ofPattern`); the
texts of errors can show numbers and are left aside.
-/

set_option autoImplicit false

namespace SourceSearch

/-- Two steps succeed alike if each of them does, and then with answers that correspond. -/
theorem toOption_bind_of_map {ε α α' β β' : Type} {x : Except ε α} {x' : Except ε α'}
    {f : α → Except ε β} {f' : α' → Except ε β'} {g : α → α'} {k : β → β'}
    (hx : x'.toOption = x.toOption.map g)
    (hf : ∀ a, (f' (g a)).toOption = (f a).toOption.map k) :
    (x' >>= f').toOption = (x >>= f).toOption.map k := by
  cases x with
  | error e =>
    cases x' with
    | error e' => rfl
    | ok a' => cases hx
  | ok a =>
    cases x' with
    | error e' => cases hx
    | ok a' =>
      obtain rfl : a' = g a := Option.some.inj hx
      exact hf a

namespace Renaming

variable (r : Renaming)

def hierarchy (hierarchy : TypeHierarchy) : TypeHierarchy :=
  ⟨r.key hierarchy.focus, hierarchy.supertypes.map r.key, hierarchy.subtypes.map r.key⟩

def target : Target → Target
  | .type key => .type (r.key key)
  | .method handle hierarchy => .method (r.method handle) (r.hierarchy hierarchy)
  | .field handle => .field (r.field handle)
  | .named kind qualifier name params => .named kind qualifier name params

def subject : Subject → Subject
  | .type key => .type (r.key key)
  | .method handle => .method (r.method handle)
  | .field handle => .field (r.field handle)
  | .name kind qualifier name params => .name kind qualifier name params

def pattern (pattern : SearchPattern) : SearchPattern :=
  { pattern with subject := r.subject pattern.subject }

/-! ## Hierarchies -/

@[simp] theorem types_hierarchy (hierarchy : TypeHierarchy) :
    (r.hierarchy hierarchy).types = hierarchy.types.map r.key := by
  simp [TypeHierarchy.types, Renaming.hierarchy]

@[simp] theorem contains_hierarchy (hierarchy : TypeHierarchy) (key : TypeKey) :
    (r.hierarchy hierarchy).contains (r.key key) = hierarchy.contains key := by
  rw [TypeHierarchy.contains, types_hierarchy, contains_map_key, TypeHierarchy.contains]

@[simp] theorem isSubtype_hierarchy (hierarchy : TypeHierarchy) (key : TypeKey) :
    (r.hierarchy hierarchy).isSubtype (r.key key) = hierarchy.isSubtype key :=
  r.contains_map_key hierarchy.subtypes key

@[simp] theorem all_contains_hierarchy (hierarchy : TypeHierarchy) (key : Option TypeKey) :
    (key.map r.key).all (r.hierarchy hierarchy).contains = key.all hierarchy.contains := by
  cases key with
  | none => rfl
  | some key => exact r.contains_hierarchy hierarchy key

@[simp] theorem any_contains_hierarchy (hierarchy : TypeHierarchy) (key : Option TypeKey) :
    (key.map r.key).any (r.hierarchy hierarchy).contains = key.any hierarchy.contains := by
  cases key with
  | none => rfl
  | some key => exact r.contains_hierarchy hierarchy key

/-- Level by level the subtypes are found among renamed candidates in the same order. -/
theorem addSubtypes_map (candidates : List (TypeKey × List TypeKey)) (fuel : Nat)
    (last found : List TypeKey) :
    BoundWorkspace.addSubtypes (candidates.map fun c => (r.key c.1, c.2.map r.key)) fuel
        (last.map r.key) (found.map r.key) =
      (BoundWorkspace.addSubtypes candidates fuel last found).map r.key := by
  have hbelow : ∀ last : List TypeKey, ((last.map r.key).flatMap fun sup =>
      ((candidates.map fun c => (r.key c.1, c.2.map r.key)).filter
        fun c => c.2.contains sup).map (·.1)) =
      (last.flatMap fun sup => (candidates.filter fun c => c.2.contains sup).map (·.1)).map
        r.key := by
    intro last
    rw [List.flatMap_map, List.map_flatMap]
    congr 1
    funext sup
    simp only [List.filter_map, List.map_map, Function.comp_def, contains_map_key]
  induction fuel generalizing last found with
  | zero => rfl
  | succ fuel ih =>
    rw [BoundWorkspace.addSubtypes, BoundWorkspace.addSubtypes, hbelow, r.eraseDups_map_key,
      r.filter_not_contains, List.isEmpty_map, ← List.map_append]
    split
    · rfl
    · exact ih _ _

/-! ## What a target decides -/

variable (target : Target)

@[simp] theorem kind_target : (r.target target).kind = target.kind := by
  cases target <;> rfl

@[simp] theorem indexWord?_target : (r.target target).indexWord? = target.indexWord? := by
  cases target <;> rfl

@[simp] theorem isType_target (key : TypeKey) :
    (r.target target).isType (r.key key) = target.isType key := by
  cases target with
  | type wanted => exact r.beq_key wanted key
  | named kind qualifier name params => cases kind <;> rfl
  | _ => rfl

@[simp] theorem typeAccuracy?_target (bound : Option TypeKey) (segments : List String) :
    (r.target target).typeAccuracy? (bound.map r.key) segments =
      target.typeAccuracy? bound segments := by
  cases bound with
  | some key => simp only [Target.typeAccuracy?, Option.map_some, isType_target]
  | none => cases target <;> rfl

@[simp] theorem typeUse?_target (key : TypeKey) :
    (r.target target).typeUse? (r.key key) = target.typeUse? key := by
  simp only [Target.typeUse?, isType_target]

@[simp] theorem isMethodOf_target (owner : DeclaredType) (m : DeclaredMethod) :
    (r.target target).isMethodOf (r.info owner) m = target.isMethodOf owner m := by
  cases target with
  | method wanted hierarchy =>
    simp [Target.isMethodOf, Renaming.target]
  | named kind qualifier name params => cases kind <;> rfl
  | _ => rfl

@[simp] theorem isFieldOf_target (owner : DeclaredType) (f : DeclaredField) :
    (r.target target).isFieldOf (r.info owner) f = target.isFieldOf owner f := by
  cases target with
  | field wanted => exact r.beq_field (f.handle owner.key) wanted
  | named kind qualifier name params => cases kind <;> rfl
  | _ => rfl

theorem callAccuracy?_target (call : BoundCall) (selector : String) (arity : Nat) :
    (r.target target).callAccuracy? (r.boundCall call) selector arity =
      target.callAccuracy? call selector arity := by
  obtain ⟨receiver, method⟩ := call
  cases target with
  | method wanted hierarchy =>
    cases method with
    | none => simp [Target.callAccuracy?, Renaming.target, boundCall]
    | some binding => simp [Target.callAccuracy?, Renaming.target, boundCall]
  | named kind qualifier name params =>
    cases kind <;> cases method <;> rfl
  | _ => rfl

theorem methodRefAccuracy?_target (receiver : Option TypeKey) (selector : String) :
    (r.target target).methodRefAccuracy? (receiver.map r.key) selector =
      target.methodRefAccuracy? receiver selector := by
  cases target with
  | method wanted hierarchy =>
    cases receiver with
    | none => rfl
    | some key => simp [Target.methodRefAccuracy?, Renaming.target]
  | named kind qualifier name params =>
    cases kind <;> cases receiver <;> rfl
  | _ => rfl

theorem fieldAccuracy?_target (binding : Option BoundField) (used : String) (untyped : Bool) :
    (r.target target).fieldAccuracy? (binding.map r.boundField) used untyped =
      target.fieldAccuracy? binding used untyped := by
  cases target with
  | field wanted =>
    cases binding with
    | none => rfl
    | some bound => simp [Target.fieldAccuracy?, Renaming.target]
  | named kind qualifier name params =>
    cases kind <;> cases binding <;> rfl
  | _ => rfl

end Renaming

namespace BoundWorkspace.RenamedBy

variable {r : Renaming} {s s' : BoundWorkspace} {scope scope' : NameScope}

/-! ## Hierarchies -/

theorem projectsSeeing (h : s.RenamedBy r s') (key : TypeKey) :
    s'.workspace.projectsSeeing (r.key key) = s.workspace.projectsSeeing key := by
  have hhome : s'.workspace.homeProjects (r.key key) = s.workspace.homeProjects key := by
    obtain ⟨origin, name⟩ := key
    cases origin with
    | source file => exact congrArg Option.toList (h.workspace.projectOf? ⟨.source file, name⟩)
    | archive id =>
      have hlibrary : ∀ p : Project, (s'.workspace.libraries (r.project p)).any (·.id == id) =
          (s.workspace.libraries p).any (·.id == id) := by
        intro p
        rw [h.workspace.libraries, List.any_map]
        rfl
      simp only [Workspace.homeProjects, Renaming.key_origin, Renaming.origin_archive,
        h.workspace.projects_values, List.filter_map, List.map_map, Function.comp_def, hlibrary]
      rfl
  have hdependents : s'.workspace.dependents = s.workspace.dependents := by
    funext name
    exact h.workspace.dependents name
  rw [Workspace.projectsSeeing, hhome, hdependents, h.workspace.projects_keys,
    Workspace.projectsSeeing]

theorem subtypes (h : s.RenamedBy r s') (focus : TypeKey) :
    s'.subtypes (r.key focus) = (s.subtypes focus).map r.key := by
  have hcandidates : s'.subtypeCandidates (r.key focus) =
      (s.subtypeCandidates focus).map r.key := by
    rw [subtypeCandidates, h.projectsSeeing, subtypeCandidates, List.map_append, List.map_flatMap]
    congr 1
    · congr 1
      funext name
      exact h.workspace.projectTypes name
    · obtain ⟨origin, name⟩ := focus
      cases origin with
      | source file => rfl
      | archive id =>
        simp only [Renaming.key_origin, Renaming.origin_archive, h.workspace.archive?]
        cases s.workspace.archive? id with
        | none => rfl
        | some archive => simp [Renaming.archive, Function.comp_def]
  have hpairs : ((s'.subtypeCandidates (r.key focus)).map fun key =>
      (key, s'.directSupertypes key)) =
      ((s.subtypeCandidates focus).map fun key => (key, s.directSupertypes key)).map
        fun c => (r.key c.1, c.2.map r.key) := by
    rw [hcandidates, List.map_map, List.map_map]
    congr 1
    funext key
    exact congrArg (Prod.mk _) (h.directSupertypes key)
  have hsearch := r.addSubtypes_map
    ((s.subtypeCandidates focus).map fun key => (key, s.directSupertypes key))
    ((s.subtypeCandidates focus).length + 1) [focus] [focus]
  rw [BoundWorkspace.subtypes, hpairs, BoundWorkspace.subtypes]
  simp only [List.length_map]
  rw [List.map_drop, ← hsearch]
  rfl

theorem hierarchy (h : s.RenamedBy r s') (focus : TypeKey) :
    s'.hierarchy (r.key focus) = r.hierarchy (s.hierarchy focus) := by
  rw [BoundWorkspace.hierarchy, h.allSupertypes, h.subtypes]
  rfl

/-! ## Targets -/

theorem constructorAccuracy? (h : s.RenamedBy r s') (target : Target) (owner : Option TypeKey)
    (binding : Option BoundMethod) (written : String) (arity : Nat) :
    (r.target target).constructorAccuracy? s' (owner.map r.key) (binding.map r.boundMethod)
        written arity =
      target.constructorAccuracy? s owner binding written arity := by
  cases target with
  | method wanted hierarchy =>
    cases owner with
    | none => simp [Target.constructorAccuracy?, Renaming.target]
    | some key =>
      cases binding with
      | none =>
        have hconstructor : (s'.declared? (r.key key)).any (!·.hasConstructor) =
            (s.declared? key).any (!·.hasConstructor) := by
          rw [h.declared?, Option.any_map]
          rfl
        simp [Target.constructorAccuracy?, Renaming.target, hconstructor]
      | some bound => simp [Target.constructorAccuracy?, Renaming.target, bne]
  | _ => rfl

/-- An element has a target iff the renamed element has one, and then it is the renamed target. -/
theorem toOption_bind (h : s.RenamedBy r s') (subject : Subject) :
    (Target.bind s' (r.subject subject)).toOption =
      (Target.bind s subject).toOption.map r.target := by
  cases subject with
  | type key =>
    simp only [Target.bind, Renaming.subject, h.declared?, Option.isSome_map]
    split <;> rfl
  | method handle =>
    have hmethod : ∀ info : DeclaredType, (r.info info).hasMethod (r.method handle) =
        info.hasMethod handle := by
      intro info
      simp only [DeclaredType.hasMethod, Renaming.info_key, Renaming.handle_method,
        Renaming.beq_method]
      rfl
    simp only [Target.bind, Renaming.subject, Renaming.method_owner, h.declared?, Option.any_map,
      hmethod, h.hierarchy]
    split <;> rfl
  | field handle =>
    have hfield : (s'.declared? (r.field handle).owner).any
        (fun info => (info.field? (r.field handle).name).isSome) =
        (s.declared? handle.owner).any fun info => (info.field? handle.name).isSome := by
      rw [Renaming.field_owner, h.declared?, Option.any_map]
      rfl
    simp only [Target.bind, Renaming.subject, hfield]
    split <;> rfl
  | name kind qualifier name params => rfl

theorem toOption_ofPattern (h : s.RenamedBy r s') (pattern : SearchPattern) :
    (Target.ofPattern s' (r.pattern pattern)).toOption =
      (Target.ofPattern s pattern).toOption.map r.target := by
  apply toOption_bind_of_map (h.toOption_bind pattern.subject)
  intro target
  rw [r.kind_target]
  show (if pattern.limitTo = .implementors ∧ target.kind ≠ .type then _ else _ : Except _ _).toOption =
    (if pattern.limitTo = .implementors ∧ target.kind ≠ .type then _ else _ : Except _ _).toOption.map
      r.target
  split <;> rfl

end BoundWorkspace.RenamedBy

end SourceSearch
