import Mathlib.Data.List.Basic
import SourceSearch.Environment
import SourceSearch.Proofs.Store

/-!
# Renamings of numbers

The numbers of files and projects tell one of them from another and mean nothing else. A `Renaming`
gives them other numbers, different ones to different files, and acts on all that is made of numbers:
keys, declared types, parsed files, projects and providers. Names, texts and archives stay.

What counts is that look-ups, tests of membership and the removal of repetitions do not notice a
renaming, since different keys stay different (`key_injective`).
-/

set_option autoImplicit false
set_option linter.unusedSectionVars false

namespace SourceSearch

/-! ## Lists under maps that keep elements apart -/

section Lists

variable {α β : Type} [BEq α] [LawfulBEq α] [BEq β] [LawfulBEq β] {f : α → β}

theorem contains_map_of_injective (hf : Function.Injective f) (as : List α) (a : α) :
    (as.map f).contains (f a) = as.contains a := by
  rw [Bool.eq_iff_iff, List.contains_iff_mem, List.contains_iff_mem]
  exact List.mem_map_of_injective hf

theorem beq_of_injective (hf : Function.Injective f) (a b : α) : (f a == f b) = (a == b) := by
  rw [Bool.eq_iff_iff, beq_iff_eq, beq_iff_eq]
  exact hf.eq_iff

/-- Repetitions are the same before and after the map. -/
theorem eraseDups_map_of_injective (hf : Function.Injective f) (as : List α) :
    (as.map f).eraseDups = as.eraseDups.map f := by
  induction hlength : as.length using Nat.strongRecOn generalizing as with
  | ind n ih =>
    cases as with
    | nil => rfl
    | cons a as =>
      have hfilter : (as.map f).filter (fun b => !b == f a) =
          (as.filter fun b => !b == a).map f := by
        rw [List.filter_map]
        congr 1
        apply List.filter_congr
        intro b _
        simp only [Function.comp, beq_of_injective hf]
      have hshort : (as.filter fun b => !b == a).length < n := by
        have := List.length_filter_le (fun b => !b == a) as
        simp only [List.length_cons] at hlength
        omega
      rw [List.map_cons, List.eraseDups_cons, List.eraseDups_cons, List.map_cons, hfilter,
        ih _ hshort _ rfl]

end Lists

/-! ## Tables with other values -/

namespace Table

variable {κ α β : Type} [LE κ] [LT κ] [Std.IsLinearOrder κ] [Std.LawfulOrderLT κ] [DecidableLT κ]
  [DecidableEq κ]

/-- The table with other values under the same keys. -/
def mapValues (f : α → β) (table : Table κ α) : Table κ β :=
  ⟨table.entries.map fun e => (e.1, f e.2), List.pairwise_map.2 table.ascending⟩

theorem get?_mapValues (f : α → β) (table : Table κ α) (key : κ) :
    (table.mapValues f).get? key = (table.get? key).map f := by
  simp only [get?, mapValues, List.find?_map, Option.map_map]
  rfl

theorem contains_mapValues (f : α → β) (table : Table κ α) (key : κ) :
    (table.mapValues f).contains key = table.contains key := by
  rw [contains, contains, get?_mapValues, Option.isSome_map]

theorem keys_mapValues (f : α → β) (table : Table κ α) :
    (table.mapValues f).keys = table.keys := by
  simp [keys, mapValues]

theorem values_mapValues (f : α → β) (table : Table κ α) :
    (table.mapValues f).values = table.values.map f := by
  simp [values, mapValues]

theorem mapValues_insert (f : α → β) (table : Table κ α) (key : κ) (value : α) :
    (table.insert key value).mapValues f = (table.mapValues f).insert key (f value) := by
  apply ext_get?
  intro other
  rw [get?_mapValues, get?_insert, get?_insert, get?_mapValues]
  split <;> rfl

theorem mapValues_insertIfNew (f : α → β) (table : Table κ α) (key : κ) (value : α) :
    (table.insertIfNew key value).mapValues f = (table.mapValues f).insertIfNew key (f value) := by
  unfold insertIfNew
  rw [contains_mapValues]
  split
  · rfl
  · exact mapValues_insert f table key value

end Table

/-! ## Renamings -/

/-- Other numbers for files, different ones for different files, and for projects. -/
structure Renaming where
  file : FileId → FileId
  injective : Function.Injective file
  number : String → ProjectId

namespace Renaming

variable (r : Renaming)

/-- The place of a declaration under its new number; archives keep theirs. -/
def origin : Origin → Origin
  | .source file => .source (r.file file)
  | .archive id => .archive id

/-- The type of the same name at the renamed place. -/
def key (key : TypeKey) : TypeKey := ⟨r.origin key.origin, key.qualifiedName⟩

def method (handle : MethodHandle) : MethodHandle := { handle with owner := r.key handle.owner }

def field (handle : FieldHandle) : FieldHandle := { handle with owner := r.key handle.owner }

def info (info : DeclaredType) : DeclaredType := { info with key := r.key info.key }

def source (source : SourceFile) : SourceFile :=
  { source with id := r.file source.id, types := source.types.map r.info }

def archive (archive : Archive) : Archive := { archive with types := archive.types.map r.info }

def project (project : Project) : Project :=
  { project with
    id := r.number project.name
    files := project.files.mapValues r.file
    types := project.types.mapValues r.key }

def provider : Provider → Provider
  | .sources project => .sources (r.project project)
  | .archive archive => .archive (r.archive archive)

/-! ## Keys -/

theorem origin_injective : Function.Injective r.origin := by
  intro a b h
  cases a with
  | source file =>
    cases b with
    | source other => exact congrArg _ (r.injective (Origin.source.inj h))
    | archive id => cases h
  | archive id =>
    cases b with
    | source other => cases h
    | archive other => exact h

/-- **Different types stay different.** -/
theorem key_injective : Function.Injective r.key := by
  intro a b h
  obtain ⟨horigin, hname⟩ := TypeKey.mk.inj h
  cases a
  cases b
  exact congrArg₂ TypeKey.mk (r.origin_injective horigin) hname

theorem method_injective : Function.Injective r.method := by
  intro a b h
  obtain ⟨howner, hselector, hparams⟩ := MethodHandle.mk.inj h
  cases a
  cases b
  exact MethodHandle.mk.injEq .. ▸ ⟨r.key_injective howner, hselector, hparams⟩

theorem field_injective : Function.Injective r.field := by
  intro a b h
  obtain ⟨howner, hname⟩ := FieldHandle.mk.inj h
  cases a
  cases b
  exact congrArg₂ FieldHandle.mk (r.key_injective howner) hname

@[simp] theorem beq_key (a b : TypeKey) : (r.key a == r.key b) = (a == b) :=
  beq_of_injective r.key_injective a b

@[simp] theorem key_eq_iff {a b : TypeKey} : r.key a = r.key b ↔ a = b := r.key_injective.eq_iff

@[simp] theorem beq_method (a b : MethodHandle) : (r.method a == r.method b) = (a == b) :=
  beq_of_injective r.method_injective a b

@[simp] theorem method_eq_iff {a b : MethodHandle} : r.method a = r.method b ↔ a = b :=
  r.method_injective.eq_iff

@[simp] theorem field_eq_iff {a b : FieldHandle} : r.field a = r.field b ↔ a = b :=
  r.field_injective.eq_iff

@[simp] theorem beq_field (a b : FieldHandle) : (r.field a == r.field b) = (a == b) :=
  beq_of_injective r.field_injective a b

@[simp] theorem contains_map_key (keys : List TypeKey) (key : TypeKey) :
    (keys.map r.key).contains (r.key key) = keys.contains key :=
  contains_map_of_injective r.key_injective keys key

@[simp] theorem eraseDups_map_key (keys : List TypeKey) :
    (keys.map r.key).eraseDups = keys.eraseDups.map r.key :=
  eraseDups_map_of_injective r.key_injective keys

/-- What is new among renamed keys are the renamed keys that are new. -/
theorem filter_not_contains (keys found : List TypeKey) :
    ((keys.map r.key).filter fun key => !(found.map r.key).contains key) =
      (keys.filter fun key => !found.contains key).map r.key := by
  rw [List.filter_map]
  congr 1
  apply List.filter_congr
  intro key _
  rw [Function.comp, contains_map_key]

@[simp] theorem key_origin (key : TypeKey) : (r.key key).origin = r.origin key.origin := rfl

@[simp] theorem key_qualifiedName (key : TypeKey) :
    (r.key key).qualifiedName = key.qualifiedName := rfl

@[simp] theorem key_simpleName (key : TypeKey) : (r.key key).simpleName = key.simpleName := rfl

@[simp] theorem origin_archive (id : ArchiveId) : r.origin (.archive id) = .archive id := rfl

@[simp] theorem origin_source (file : FileId) : r.origin (.source file) = .source (r.file file) :=
  rfl

/-! ## Handles -/

@[simp] theorem method_owner (handle : MethodHandle) :
    (r.method handle).owner = r.key handle.owner := rfl

@[simp] theorem method_selector (handle : MethodHandle) :
    (r.method handle).selector = handle.selector := rfl

@[simp] theorem method_params (handle : MethodHandle) :
    (r.method handle).params = handle.params := rfl

@[simp] theorem isConstructor_method (handle : MethodHandle) :
    (r.method handle).isConstructor = handle.isConstructor := rfl

@[simp] theorem arity_method (handle : MethodHandle) :
    (r.method handle).arity = handle.arity := rfl

@[simp] theorem field_owner (handle : FieldHandle) :
    (r.field handle).owner = r.key handle.owner := rfl

@[simp] theorem handle_method (m : DeclaredMethod) (owner : TypeKey) :
    m.handle (r.key owner) = r.method (m.handle owner) := rfl

@[simp] theorem info_key (info : DeclaredType) : (r.info info).key = r.key info.key := rfl

/-! ## Declarations -/

/-- The first declaration of a name is that of the renamed types. -/
theorem find?_map_info (infos : List DeclaredType) (name : String) :
    (infos.map r.info).find? (·.key.qualifiedName == name) =
      (infos.find? (·.key.qualifiedName == name)).map r.info := by
  rw [List.find?_map]
  rfl

theorem declared?_source (file : SourceFile) (name : String) :
    (r.source file).declared? name = (file.declared? name).map r.info :=
  r.find?_map_info file.types name

theorem declared?_archive (archive : Archive) (name : String) :
    (r.archive archive).declared? name = (archive.declared? name).map r.info :=
  r.find?_map_info archive.types name

theorem lookup?_archive (archive : Archive) (name : String) :
    (r.archive archive).lookup? name = (archive.lookup? name).map r.key := by
  simp only [Archive.lookup?, declared?_archive, Option.map_map]
  rfl

theorem hasPackage_archive (library : Archive) (package : String) :
    (r.archive library).hasPackage package = library.hasPackage package := by
  simp only [Archive.hasPackage, archive, List.any_map]
  rfl

/-! ## Providers -/

theorem lookup?_provider (provider : Provider) (name : String) :
    (r.provider provider).lookup? name = (provider.lookup? name).map r.key := by
  cases provider with
  | sources project => exact Table.get?_mapValues r.key project.types name
  | archive archive => exact r.lookup?_archive archive name

theorem hasPackage_provider (provider : Provider) (package : String) :
    (r.provider provider).hasPackage package = provider.hasPackage package := by
  cases provider with
  | sources project => rfl
  | archive archive => exact r.hasPackage_archive archive package

@[simp] theorem module_provider (provider : Provider) :
    (r.provider provider).module = provider.module := by
  cases provider <;> rfl

theorem any_isSourcesOf (providers : List Provider) (name : String) :
    (providers.map r.provider).any (·.isSourcesOf name) = providers.any (·.isSourcesOf name) := by
  rw [List.any_map]
  congr 1
  funext provider
  cases provider <;> rfl

theorem any_isArchive (providers : List Provider) (id : ArchiveId) :
    (providers.map r.provider).any (·.isArchive id) = providers.any (·.isArchive id) := by
  rw [List.any_map]
  congr 1
  funext provider
  cases provider <;> rfl

end Renaming

end SourceSearch
