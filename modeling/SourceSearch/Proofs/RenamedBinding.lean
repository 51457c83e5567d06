import SourceSearch.Binding.Members
import SourceSearch.Proofs.RenamedWorkspace

/-!
# Names and members under other numbers

`BoundWorkspace.RenamedBy r` and `NameScope.RenamedBy r` say that a bound workspace and a place in it
are others under other numbers. Names, supertypes, member types, methods and fields that are bound
there are the renamed ones.
-/

set_option autoImplicit false

namespace SourceSearch

/-- Steps that lead from related things to renamed answers do so after related look-ups. -/
theorem bind_of_rel {α α' β β' : Type} {R : α → α' → Prop} {x : Option α} {x' : Option α'}
    {f : α → Option β} {f' : α' → Option β'} {g : β → β'} (hx : Option.Rel R x x')
    (hf : ∀ {a a'}, R a a' → f' a' = (f a).map g) : x'.bind f' = (x.bind f).map g := by
  cases hx with
  | none => rfl
  | some ha => exact hf ha

namespace Renaming

variable (r : Renaming)

def supertypes (supertypes : Supertypes) : Supertypes :=
  ⟨supertypes.superclass.map r.key, supertypes.interfaces.map r.key⟩

def staticType : StaticType → StaticType
  | .primitive name => .primitive name
  | .named key => .named (r.key key)
  | .array element => .array (staticType element)
  | .unresolved name => .unresolved name
  | .null => .null
  | .unknown => .unknown

def boundMethod (binding : BoundMethod) : BoundMethod :=
  { binding with owner := r.info binding.owner }

def boundField (binding : BoundField) : BoundField :=
  { binding with owner := r.info binding.owner }

@[simp] theorem handle_boundMethod (binding : BoundMethod) :
    (r.boundMethod binding).handle = r.method binding.handle := rfl

@[simp] theorem handle_boundField (binding : BoundField) :
    (r.boundField binding).field.handle (r.boundField binding).owner.key =
      r.field (binding.field.handle binding.owner.key) := rfl

@[simp] theorem erasedName?_staticType (type : StaticType) :
    (r.staticType type).erasedName? = type.erasedName? := by
  induction type with
  | array element ih => simp [staticType, StaticType.erasedName?, ih]
  | _ => rfl

@[simp] theorem staticType_arrayOf (type : StaticType) (dims : Nat) :
    r.staticType (type.arrayOf dims) = (r.staticType type).arrayOf dims := by
  induction dims with
  | zero => rfl
  | succ dims ih => simp [StaticType.arrayOf, staticType, ih]

/-- Overloads are told apart by the erased types of the arguments. -/
@[simp] theorem bestOverload?_map (args : List StaticType) (methods : List DeclaredMethod) :
    BoundWorkspace.bestOverload? (args.map r.staticType) methods =
      BoundWorkspace.bestOverload? args methods := by
  have hagree : BoundWorkspace.agreement (args.map r.staticType) =
      BoundWorkspace.agreement args := by
    funext method
    rw [BoundWorkspace.agreement, List.zip_map_right, List.countP_map, BoundWorkspace.agreement]
    congr 1
    funext pair
    simp
  cases methods with
  | nil => rfl
  | cons first others => simp only [BoundWorkspace.bestOverload?, hagree]

theorem ownMethod?_map (info : DeclaredType) (name : String) (args : List StaticType) :
    BoundWorkspace.ownMethod? (r.info info) name (args.map r.staticType) =
      BoundWorkspace.ownMethod? info name args := by
  rw [BoundWorkspace.ownMethod?, bestOverload?_map, List.length_map]
  rfl

end Renaming

/-- The second place is the first one under other numbers. -/
structure NameScope.RenamedBy (r : Renaming) (scope scope' : NameScope) : Prop where
  unit : scope'.unit = scope.unit
  env : scope.env.RenamedBy r scope'.env
  enclosing : scope'.enclosing = scope.enclosing.map r.key

namespace NameScope.RenamedBy

variable {r : Renaming} {scope scope' : NameScope}

theorem inside (h : scope.RenamedBy r scope') (enclosing : Option TypeKey) :
    (scope.inside enclosing).RenamedBy r (scope'.inside (enclosing.map r.key)) :=
  ⟨h.unit, h.env, rfl⟩

theorem topLevelType? (h : scope.RenamedBy r scope') (name : String) :
    scope'.topLevelType? name = (scope.topLevelType? name).map r.key := by
  have hondemand : scope'.onDemand? name = (scope.onDemand? name).map r.key := by
    simp only [NameScope.onDemand?, h.unit, List.map_findSome?]
    congr 1
    funext i
    exact h.env.lookup? _
  simp only [NameScope.topLevelType?, NameScope.importOf?, h.unit, hondemand, h.env.lookup?]
  split
  · rfl
  · simp only [Option.orElse_eq_orElse, Option.orElse_eq_or, Option.map_or]

end NameScope.RenamedBy

/-- The second bound workspace is the first one under other numbers. -/
structure BoundWorkspace.RenamedBy (r : Renaming) (s s' : BoundWorkspace) : Prop where
  workspace : s.workspace.RenamedBy r s'.workspace
  environments : ∀ name,
    Option.Rel (Environment.RenamedBy r) (s.environments.get? name) (s'.environments.get? name)
  supertypes : ∀ key, s'.supertypes (r.key key) = r.supertypes (s.supertypes key)
  chainLimit : s'.chainLimit = s.chainLimit

namespace BoundWorkspace.RenamedBy

variable {r : Renaming} {s s' : BoundWorkspace} {scope scope' : NameScope}

/-! ## Types around a place -/

theorem declared? (h : s.RenamedBy r s') (key : TypeKey) :
    s'.declared? (r.key key) = (s.declared? key).map r.info := h.workspace.declared? key

theorem scope? (h : s.RenamedBy r s') (file : SourceFile) (enclosing : Option TypeKey) :
    Option.Rel (NameScope.RenamedBy r) (s.scope? file enclosing)
      (s'.scope? (r.source file) (enclosing.map r.key)) := by
  have henv := h.environments file.project
  unfold BoundWorkspace.scope?
  rw [show (r.source file).unit? = file.unit? from rfl,
    show (r.source file).project = file.project from rfl]
  cases file.unit? with
  | none => exact Option.Rel.none
  | some unit =>
    generalize s.environments.get? file.project = env, s'.environments.get? file.project = env'
      at henv
    cases henv with
    | none => exact Option.Rel.none
    | some henv => exact Option.Rel.some ⟨rfl, henv, rfl⟩

theorem declarationScope? (h : s.RenamedBy r s') (key : TypeKey) :
    Option.Rel (NameScope.RenamedBy r) (s.declarationScope? key)
      (s'.declarationScope? (r.key key)) := by
  obtain ⟨origin, name⟩ := key
  cases origin with
  | archive id => exact Option.Rel.none
  | source file =>
    show Option.Rel _ ((s.workspace.source? file).bind _)
      ((s'.workspace.source? (r.file file)).bind _)
    rw [h.workspace.source?]
    cases s.workspace.source? file with
    | none => exact Option.Rel.none
    | some source => exact h.scope? source (some _)

theorem outer? (h : s.RenamedBy r s') (key : TypeKey) :
    s'.outer? (r.key key) = (s.outer? key).map r.key := by
  rw [BoundWorkspace.outer?, h.declared?, BoundWorkspace.outer?]
  cases s.declared? key with
  | none => rfl
  | some info => simp [Renaming.info, Renaming.key, Function.comp_def]

theorem outerChain (h : s.RenamedBy r s') (fuel : Nat) (key : TypeKey) :
    s'.outerChain fuel (r.key key) = (s.outerChain fuel key).map r.key := by
  induction fuel generalizing key with
  | zero => rfl
  | succ fuel ih =>
    rw [BoundWorkspace.outerChain, h.outer?, BoundWorkspace.outerChain]
    cases s.outer? key with
    | none => rfl
    | some outer => simp [ih]

theorem enclosingChain (h : s.RenamedBy r s') (key : Option TypeKey) :
    s'.enclosingChain (key.map r.key) = (s.enclosingChain key).map r.key := by
  cases key with
  | none => rfl
  | some key => exact h.outerChain _ key

/-! ## Inheritance -/

theorem superclassChain (h : s.RenamedBy r s') (fuel : Nat) (key : TypeKey)
    (found : List TypeKey) :
    s'.superclassChain fuel (r.key key) (found.map r.key) =
      (s.superclassChain fuel key found).map r.key := by
  induction fuel generalizing key found with
  | zero => rfl
  | succ fuel ih =>
    have hnext : found.map r.key ++ [r.key key] = (found ++ [key]).map r.key := by simp
    rw [BoundWorkspace.superclassChain, r.contains_map_key, h.supertypes,
      BoundWorkspace.superclassChain, hnext]
    split
    · rfl
    · cases hsup : (s.supertypes key).superclass with
      | none => simp [Renaming.supertypes, hsup]
      | some superclass =>
        simp only [Renaming.supertypes, hsup, Option.map_some]
        exact ih superclass _

theorem interfaces (h : s.RenamedBy r s') (keys : List TypeKey) :
    ((keys.map r.key).flatMap fun key => (s'.supertypes key).interfaces) =
      (keys.flatMap fun key => (s.supertypes key).interfaces).map r.key := by
  rw [List.flatMap_map, List.map_flatMap]
  simp only [h.supertypes, Renaming.supertypes]

theorem addInterfaces (h : s.RenamedBy r s') (fuel : Nat) (interfaces found : List TypeKey) :
    s'.addInterfaces fuel (interfaces.map r.key) (found.map r.key) =
      (s.addInterfaces fuel interfaces found).map r.key := by
  induction fuel generalizing interfaces found with
  | zero => rfl
  | succ fuel ih =>
    rw [BoundWorkspace.addInterfaces, BoundWorkspace.addInterfaces, r.eraseDups_map_key,
      r.filter_not_contains, h.interfaces, ← List.map_append, List.isEmpty_map]
    split
    · rfl
    · exact ih _ _

theorem lookupOrder (h : s.RenamedBy r s') (key : TypeKey) :
    s'.lookupOrder (r.key key) = (s.lookupOrder key).map r.key := by
  have hclasses := h.superclassChain s.chainLimit key []
  rw [List.map_nil] at hclasses
  rw [BoundWorkspace.lookupOrder, h.chainLimit, hclasses, h.interfaces, h.addInterfaces,
    BoundWorkspace.lookupOrder]

theorem superclass? (h : s.RenamedBy r s') (key : TypeKey) :
    s'.superclass? (r.key key) = (s.superclass? key).map r.key := by
  rw [BoundWorkspace.superclass?, h.supertypes]
  rfl

theorem directSupertypes (h : s.RenamedBy r s') (key : TypeKey) :
    s'.directSupertypes (r.key key) = (s.directSupertypes key).map r.key := by
  rw [BoundWorkspace.directSupertypes, h.supertypes, BoundWorkspace.directSupertypes,
    List.map_append, Renaming.supertypes, Option.toList_map]

theorem allSupertypes (h : s.RenamedBy r s') (key : TypeKey) :
    s'.allSupertypes (r.key key) = (s.allSupertypes key).map r.key := by
  rw [BoundWorkspace.allSupertypes, h.lookupOrder, BoundWorkspace.allSupertypes, List.filter_map]
  congr 1
  apply List.filter_congr
  intro other _
  simp

/-! ## Names of types -/

theorem memberType? (h : s.RenamedBy r s') (owner : TypeKey) (name : String) :
    s'.memberType? (r.key owner) name = (s.memberType? owner name).map r.key := by
  rw [BoundWorkspace.memberType?, h.lookupOrder, List.findSome?_map, BoundWorkspace.memberType?,
    List.map_findSome?]
  congr 1
  funext key
  simp only [Function.comp]
  have hcandidate : (⟨(r.key key).origin, (r.key key).qualifiedName ++ "." ++ name⟩ : TypeKey) =
      r.key ⟨key.origin, key.qualifiedName ++ "." ++ name⟩ := rfl
  rw [hcandidate, h.declared?, Option.map_map, Option.map_map]
  rfl

theorem memberTypeAt? (h : s.RenamedBy r s') (key : TypeKey) (path : List String) :
    s'.memberTypeAt? (r.key key) path = (s.memberTypeAt? key path).map r.key := by
  induction path generalizing key with
  | nil => rfl
  | cons name path ih =>
    rw [BoundWorkspace.memberTypeAt?, h.memberType?, BoundWorkspace.memberTypeAt?]
    cases s.memberType? key name with
    | none => rfl
    | some inner => exact ih inner

theorem simpleType? (h : s.RenamedBy r s') (hscope : scope.RenamedBy r scope') (name : String) :
    s'.simpleType? scope' name = (s.simpleType? scope name).map r.key := by
  have haround : s'.typeAround? scope' name = (s.typeAround? scope name).map r.key := by
    rw [typeAround?, hscope.enclosing, h.enclosingChain, List.findSome?_map, typeAround?,
      List.map_findSome?]
    congr 1
    funext key
    simp only [Function.comp, Renaming.key_simpleName, h.memberType?]
    split <;> rfl
  simp only [BoundWorkspace.simpleType?, haround, hscope.topLevelType?,
    Option.orElse_eq_orElse, Option.orElse_eq_or, Option.map_or]

theorem typeOfName? (h : s.RenamedBy r s') (hscope : scope.RenamedBy r scope')
    (segments : List String) :
    s'.typeOfName? scope' segments = (s.typeOfName? scope segments).map r.key := by
  cases segments with
  | nil => rfl
  | cons first rest =>
    have hmember : ((s'.simpleType? scope' first).bind fun key => s'.memberTypeAt? key rest) =
        ((s.simpleType? scope first).bind fun key => s.memberTypeAt? key rest).map r.key := by
      rw [h.simpleType? hscope, Option.bind_map, Option.map_bind]
      congr 1
      funext key
      exact h.memberTypeAt? key rest
    simp only [BoundWorkspace.typeOfName?, hmember, hscope.env.lookup?,
      Option.orElse_eq_orElse, Option.orElse_eq_or, Option.map_or]
    congr 1
    split <;> rfl

theorem typeOfRef? (h : s.RenamedBy r s') (hscope : scope.RenamedBy r scope') (ref : TypeRef) :
    s'.typeOfRef? scope' ref = (s.typeOfRef? scope ref).map r.key := by
  unfold BoundWorkspace.typeOfRef?
  split
  · rfl
  · exact h.typeOfName? hscope ref.segments

theorem binaryType? (h : s.RenamedBy r s') (archive : ArchiveId) (name : String) :
    s'.binaryType? archive name = (s.binaryType? archive name).map r.key := by
  have hown : ((s'.workspace.archive? archive).bind (·.lookup? name)) =
      ((s.workspace.archive? archive).bind (·.lookup? name)).map r.key := by
    rw [h.workspace.archive?, Option.bind_map, Option.map_bind]
    congr 1
    funext library
    exact r.lookup?_archive library name
  have hall : s'.workspace.archives.values.findSome? (·.lookup? name) =
      (s.workspace.archives.values.findSome? (·.lookup? name)).map r.key := by
    rw [h.workspace.archives_values, List.findSome?_map, List.map_findSome?]
    congr 1
    funext library
    exact r.lookup?_archive library name
  simp only [BoundWorkspace.binaryType?, hown, hall, Option.orElse_eq_orElse, Option.orElse_eq_or,
    Option.map_or]

theorem typeOfMemberRef? (h : s.RenamedBy r s') (owner : TypeKey) (ref : TypeRef) :
    s'.typeOfMemberRef? (r.key owner) ref = (s.typeOfMemberRef? owner ref).map r.key := by
  obtain ⟨origin, name⟩ := owner
  unfold BoundWorkspace.typeOfMemberRef?
  split
  · rfl
  · cases origin with
    | source file =>
      exact bind_of_rel (h.declarationScope? ⟨.source file, name⟩) fun hscope =>
        h.typeOfRef? hscope ref
    | archive id => exact h.binaryType? id ref.dotted

/-! ## Supertypes -/

theorem implicitObject? (h : s.RenamedBy r s') (key : TypeKey) :
    s'.implicitObject? (r.key key) = (s.implicitObject? key).map r.key := by
  obtain ⟨origin, name⟩ := key
  cases origin with
  | archive id => exact h.binaryType? id objectName
  | source file =>
    show (s'.workspace.source? (r.file file)).bind _ = ((s.workspace.source? file).bind _).map r.key
    rw [h.workspace.source?]
    cases s.workspace.source? file with
    | none => rfl
    | some source =>
      show (s'.environments.get? source.project).bind _ =
        ((s.environments.get? source.project).bind _).map r.key
      exact bind_of_rel (h.environments source.project) fun henv => henv.lookup? objectName

theorem typeOfHeadRef? (h : s.RenamedBy r s') (info : DeclaredType) (key : TypeKey)
    (ref : TypeRef) :
    s'.typeOfHeadRef? (r.info info) (r.key key) ref = (s.typeOfHeadRef? info key ref).map r.key := by
  obtain ⟨origin, name⟩ := key
  cases origin with
  | archive id => exact h.binaryType? id ref.dotted
  | source file =>
    show (s'.workspace.source? (r.file file)).bind _ = ((s.workspace.source? file).bind _).map r.key
    rw [h.workspace.source?]
    cases s.workspace.source? file with
    | none => rfl
    | some source =>
      have hrel := h.scope? source (info.outer.map fun name => ⟨.source file, name⟩)
      rw [Option.map_map] at hrel
      show (s'.scope? (r.source source) _).bind _ = ((s.scope? source _).bind _).map r.key
      exact bind_of_rel hrel fun hscope => h.typeOfRef? hscope ref

theorem writtenSuperclass? (h : s.RenamedBy r s') (info : DeclaredType) (key : TypeKey) :
    (match (r.info info).superclass with
      | some ref => s'.typeOfHeadRef? (r.info info) (r.key key) ref
      | none =>
        if (r.info info).isInterface || (r.info info).qualifiedName == objectName then none
        else s'.implicitObject? (r.key key)) =
      (match info.superclass with
        | some ref => s.typeOfHeadRef? info key ref
        | none =>
          if info.isInterface || info.qualifiedName == objectName then none
          else s.implicitObject? key).map r.key := by
  rw [h.implicitObject?, show (r.info info).superclass = info.superclass from rfl]
  cases info.superclass with
  | some ref => exact h.typeOfHeadRef? info key ref
  | none =>
    rw [show (r.info info).isInterface = info.isInterface from rfl,
      show (r.info info).qualifiedName = info.qualifiedName from rfl]
    dsimp only
    split <;> rfl

theorem superclassOf? (h : s.RenamedBy r s') (info : DeclaredType) (key : TypeKey) :
    s'.superclassOf? (r.info info) (r.key key) = (s.superclassOf? info key).map r.key := by
  have hfilter : ∀ superclass : Option TypeKey, (superclass.map r.key).filter (· ≠ r.key key) =
      (superclass.filter (· ≠ key)).map r.key := by
    intro superclass
    rw [Option.filter_map]
    congr 2
    funext other
    simp
  exact (congrArg (Option.filter (· ≠ r.key key)) (h.writtenSuperclass? info key)).trans (hfilter _)

theorem bindSupertypes (h : s.RenamedBy r s') (key : TypeKey) :
    s'.bindSupertypes (r.key key) = r.supertypes (s.bindSupertypes key) := by
  rw [BoundWorkspace.bindSupertypes, h.declared?, BoundWorkspace.bindSupertypes]
  cases s.declared? key with
  | none => rfl
  | some info =>
    have hinterfaces : info.interfaces.filterMap (s'.typeOfHeadRef? (r.info info) (r.key key)) =
        (info.interfaces.filterMap (s.typeOfHeadRef? info key)).map r.key := by
      rw [List.map_filterMap]
      exact List.filterMap_congr fun ref _ => h.typeOfHeadRef? info key ref
    simp only [Option.map_some, Renaming.supertypes, h.superclassOf?]
    exact congrArg (Supertypes.mk _) hinterfaces

/-! ## Static types -/

theorem staticTypeOf (r : Renaming) (ref : TypeRef) (key : Option TypeKey) :
    BoundWorkspace.staticTypeOf ref (key.map r.key) =
      r.staticType (BoundWorkspace.staticTypeOf ref key) := by
  unfold BoundWorkspace.staticTypeOf
  split
  · simp [Renaming.staticType]
  · cases key <;> simp [Renaming.staticType]

theorem staticTypeOfRef (h : s.RenamedBy r s') (hscope : scope.RenamedBy r scope')
    (ref : TypeRef) : s'.staticTypeOfRef scope' ref = r.staticType (s.staticTypeOfRef scope ref) := by
  rw [BoundWorkspace.staticTypeOfRef, h.typeOfRef? hscope, staticTypeOf,
    BoundWorkspace.staticTypeOfRef]

theorem staticTypeOfMemberRef (h : s.RenamedBy r s') (owner : TypeKey) (ref : TypeRef) :
    s'.staticTypeOfMemberRef (r.key owner) ref = r.staticType (s.staticTypeOfMemberRef owner ref) := by
  rw [BoundWorkspace.staticTypeOfMemberRef, h.typeOfMemberRef?, staticTypeOf,
    BoundWorkspace.staticTypeOfMemberRef]

/-! ## Members -/

theorem method? (h : s.RenamedBy r s') (receiver : TypeKey) (name : String)
    (args : List StaticType) :
    s'.method? (r.key receiver) name (args.map r.staticType) =
      (s.method? receiver name args).map r.boundMethod := by
  have horder : s'.methodOrder (r.key receiver) = (s.methodOrder receiver).map r.key := by
    rw [methodOrder, h.lookupOrder, h.declared?, h.implicitObject?, methodOrder, List.map_append,
      Option.any_map]
    congr 1
    rw [show (fun info => (r.info info).isInterface) = DeclaredType.isInterface from rfl]
    split
    · rw [Option.toList_map]
    · rfl
  rw [BoundWorkspace.method?, horder, List.findSome?_map, BoundWorkspace.method?,
    List.map_findSome?]
  congr 1
  funext key
  rw [Function.comp_apply, h.declared?, Option.bind_map, Function.comp_apply, Option.map_bind]
  congr 1
  funext info
  rw [Function.comp_apply, Function.comp_apply, r.ownMethod?_map, Option.map_map]
  rfl

theorem constructor? (h : s.RenamedBy r s') (owner : TypeKey) (args : List StaticType) :
    s'.constructor? (r.key owner) (args.map r.staticType) =
      (s.constructor? owner args).map r.boundMethod := by
  simp only [BoundWorkspace.constructor?, h.declared?, r.bestOverload?_map, List.length_map,
    Option.bind_map, Option.map_bind]
  congr 1
  funext info
  simp only [Function.comp, Option.map_map]
  rfl

theorem field? (h : s.RenamedBy r s') (receiver : TypeKey) (name : String) :
    s'.field? (r.key receiver) name = (s.field? receiver name).map r.boundField := by
  rw [BoundWorkspace.field?, h.lookupOrder, List.findSome?_map, BoundWorkspace.field?,
    List.map_findSome?]
  congr 1
  funext key
  rw [Function.comp_apply, h.declared?, Option.bind_map, Function.comp_apply, Option.map_bind]
  congr 1
  funext info
  rw [Function.comp_apply, Function.comp_apply, Option.map_map]
  rfl

theorem fieldType (h : s.RenamedBy r s') (binding : BoundField) :
    s'.fieldType (r.boundField binding) = r.staticType (s.fieldType binding) :=
  h.staticTypeOfMemberRef binding.owner.key binding.field.type

theorem returnType (h : s.RenamedBy r s') (binding : BoundMethod) :
    s'.returnType (r.boundMethod binding) = r.staticType (s.returnType binding) := by
  unfold BoundWorkspace.returnType
  rw [show (r.boundMethod binding).method = binding.method from rfl]
  cases binding.method.returnType with
  | none => rfl
  | some ref => exact h.staticTypeOfMemberRef binding.owner.key ref

theorem fieldAround? (h : s.RenamedBy r s') (hscope : scope.RenamedBy r scope') (name : String) :
    s'.fieldAround? scope' name = (s.fieldAround? scope name).map r.boundField := by
  rw [BoundWorkspace.fieldAround?, hscope.enclosing, h.enclosingChain, List.findSome?_map,
    BoundWorkspace.fieldAround?, List.map_findSome?]
  congr 1
  funext key
  exact h.field? key name

end BoundWorkspace.RenamedBy

end SourceSearch
