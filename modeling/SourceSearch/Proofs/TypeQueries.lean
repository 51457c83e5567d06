import Mathlib.Data.List.Perm.Basic
import SourceSearch.Proofs.DeclaredNames
import SourceSearch.Proofs.IndexedSearch
import SourceSearch.Proofs.Subtypes

/-!
# Searches for types by name

Who looks for types by name looks for each declared type that the name covers. An occurrence is
exact if it binds to a type; then this type is declared, and it is the only one whose search finds
the occurrence. So what such a search finds and is exact is what the searches for the covered types
find and is exact, put together (`search_types_perm`).

The argument follows the search through files and archives, with `SumsUp` at each level.
Implementors are another matter: an archive tells of a type once that it is one, whatever number of
covered types it inherits from.
-/

set_option autoImplicit false

namespace SourceSearch

variable {ws : Workspace} {s : BoundWorkspace} {whole : Target} {α β : Type}

/-! ## Sums -/

/-- What is found for a target that covers types and passes a test is what is found for each of
these types and passes it, in some order. -/
def SumsUp (ws : Workspace) (whole : Target) (p : α → Bool) (found : Target → List α) : Prop :=
  ((found whole).filter p).Perm
    ((ws.typeKeys.eraseDups.filter whole.isType).flatMap fun key => (found (.type key)).filter p)

namespace SumsUp

variable {p : α → Bool} {found other : Target → List α}

/-- Nothing that passes is found for any target. -/
theorem of_none (hkind : whole.kind = .type)
    (h : ∀ target : Target, target.kind = .type → (found target).filter p = []) :
    SumsUp ws whole p found := by
  unfold SumsUp
  rw [h whole hkind, List.flatMap_eq_nil_iff.2 fun key _ => h (.type key) rfl]

/-- The order in which something is found does not matter. -/
theorem of_perm (hkind : whole.kind = .type) (h : SumsUp ws whole p found)
    (hperm : ∀ target : Target, target.kind = .type → (other target).Perm (found target)) :
    SumsUp ws whole p other := by
  refine (((hperm whole hkind).filter p).trans h).trans ?_
  exact List.Perm.flatMap_left _ fun key _ => ((hperm (.type key) rfl).filter p).symm

theorem of_eq (hkind : whole.kind = .type) (h : SumsUp ws whole p found)
    (heq : ∀ target : Target, target.kind = .type → other target = found target) :
    SumsUp ws whole p other :=
  h.of_perm hkind fun target htarget => .of_eq (heq target htarget)

theorem append (h : SumsUp ws whole p found) (h' : SumsUp ws whole p other) :
    SumsUp ws whole p fun target => found target ++ other target := by
  unfold SumsUp
  simp only [List.filter_append]
  exact (List.Perm.append h h').trans (List.flatMap_append_perm _ _ _)

theorem flatMap (hkind : whole.kind = .type) {as : List β} {found : β → Target → List α}
    (h : ∀ a ∈ as, SumsUp ws whole p (found a)) :
    SumsUp ws whole p fun target => as.flatMap fun a => found a target := by
  induction as with
  | nil => exact of_none hkind fun _ _ => rfl
  | cons a as ih =>
    exact (h a List.mem_cons_self).append (ih fun b hb => h b (List.mem_cons_of_mem _ hb))

theorem filterMap (hkind : whole.kind = .type) {as : List β} {found : β → Target → Option α}
    (h : ∀ a ∈ as, SumsUp ws whole p fun target => (found a target).toList) :
    SumsUp ws whole p fun target => as.filterMap fun a => found a target := by
  simp only [List.filterMap_eq_flatMap_toList]
  exact flatMap hkind h

theorem map {q : β → Bool} {g : α → β} (h : SumsUp ws whole (q ∘ g) found) :
    SumsUp ws whole q fun target => (found target).map g := by
  unfold SumsUp
  simp only [List.filter_map, ← List.map_flatMap]
  exact List.Perm.map g h

theorem flatMap_ite_beq {keys : List TypeKey} (hnodup : keys.Nodup) (key : TypeKey)
    (found : List α) :
    (keys.flatMap fun other => if other == key then found else []) =
      if key ∈ keys then found else [] := by
  induction keys with
  | nil => rfl
  | cons first keys ih =>
    obtain ⟨hfirst, hnodup⟩ := List.nodup_cons.1 hnodup
    rw [List.flatMap_cons, ih hnodup]
    by_cases heq : first = key
    · subst heq
      simp [hfirst]
    · simp [heq, Ne.symm heq]

/-- **What binds to a declared type** is found for just one of the covered types, or the type is
not covered. -/
theorem single {key : TypeKey} (hkey : key ∈ ws.typeKeys) (found : List α) :
    SumsUp ws whole p fun target => if target.isType key then found else [] := by
  have hfilter : ∀ test : Bool, (if test then found else []).filter p =
      if test then found.filter p else [] := by
    intro test
    cases test <;> rfl
  have hparts : ((ws.typeKeys.eraseDups.filter whole.isType).flatMap fun wanted =>
      (if (Target.type wanted).isType key then found else []).filter p) =
      if key ∈ ws.typeKeys.eraseDups.filter whole.isType then found.filter p else [] := by
    rw [← flatMap_ite_beq ((BoundWorkspace.nodup_eraseDups _).filter whole.isType)]
    congr 1
    funext wanted
    exact hfilter (wanted == key)
  unfold SumsUp
  rw [hparts, hfilter]
  simp [hkey]

end SumsUp

/-! ## Occurrences that bind -/

/-- Whether an occurrence is bound to what it is an occurrence of. -/
def Occurrence.isExact (o : Occurrence) : Bool := o.accuracy == .exact

/-- Whether a finding is bound to what it is an occurrence of. -/
def Finding.isExact (found : Finding) : Bool := found.occurrence.isExact

/-- Whether a match is bound to what it is an occurrence of. -/
def Match.isExact (found : Match) : Bool := found.accuracy == .exact

namespace Target

/-- Who looks for types finds no methods. -/
theorem isMethodOf_eq_false {target : Target} (hkind : target.kind = .type) (info : DeclaredType)
    (m : DeclaredMethod) : target.isMethodOf info m = false := by
  cases target <;> cases hkind <;> rfl

/-- Who looks for types finds no fields. -/
theorem isFieldOf_eq_false {target : Target} (hkind : target.kind = .type) (info : DeclaredType)
    (f : DeclaredField) : target.isFieldOf info f = false := by
  cases target <;> cases hkind <;> rfl

variable (hkind : whole.kind = .type)
include hkind

/-- A name of a type is exact for the type that it binds to alone. -/
theorem sumsUp_typeAccuracy? (bound : Option TypeKey)
    (hbound : ∀ key, bound = some key → key ∈ ws.typeKeys) (segments : List String) :
    SumsUp ws whole (· == .exact) fun target =>
      (target.typeAccuracy? bound segments).toList := by
  cases bound with
  | some key =>
    refine (SumsUp.single (hbound key rfl) [Accuracy.exact]).of_eq hkind fun target _ => ?_
    show Option.toList (if target.isType key then some Accuracy.exact else none) = _
    split <;> rfl
  | none =>
    refine SumsUp.of_none hkind fun target _ => ?_
    show (Option.toList (if target.couldBeType segments then some Accuracy.inaccurate
      else none)).filter _ = []
    split <;> rfl

/-- The same of an occurrence with the range of the name. -/
theorem sumsUp_at? (bound : Option TypeKey)
    (hbound : ∀ key, bound = some key → key ∈ ws.typeKeys) (segments : List String)
    (range : TextRange) :
    SumsUp ws whole Occurrence.isExact fun target =>
      (Occurrence.at? range (target.typeAccuracy? bound segments)).toList := by
  refine SumsUp.of_eq hkind
    (SumsUp.map (g := fun a => Occurrence.mk range a) (sumsUp_typeAccuracy? hkind bound hbound segments))
    fun target _ => ?_
  rw [Occurrence.at?, Option.toList_map]

variable {scope : NameScope} (hscope : scope.IsDeclaredIn ws) (hover : s.IsOver ws) (h : ws.InStep)
include hscope hover h

theorem sumsUp_inTypeRef? (ref : TypeRef) :
    SumsUp ws whole Occurrence.isExact fun target =>
      (target.inTypeRef? s scope ref).toList := by
  unfold inTypeRef?
  split
  · exact SumsUp.of_none hkind fun _ _ => rfl
  · exact sumsUp_at? hkind _ (fun _ hkey => hscope.mem_typeKeys_of_typeOfRef? hover h hkey) _ _

theorem sumsUp_inName? (locals : Locals) (name : Ident) :
    SumsUp ws whole Occurrence.isExact fun target =>
      (target.inName? s scope locals name).toList := by
  cases hmeaning : s.meaningOfName scope locals name.text with
  | type key =>
    refine (sumsUp_at? hkind (some key) ?_ [name.text] name.range).of_eq hkind ?_
    · rintro _ ⟨⟩
      exact hscope.mem_typeKeys_of_meaningOfName hover h hmeaning
    · intro target htarget
      rw [inName?, htarget, hmeaning]
      rfl
  | unknown =>
    refine (sumsUp_at? hkind none (by simp) [name.text] name.range).of_eq hkind ?_
    intro target htarget
    rw [inName?, htarget, hmeaning]
  | value type =>
    refine SumsUp.of_none hkind fun target htarget => ?_
    rw [inName?, htarget, hmeaning]
    rfl
  | package outer =>
    refine SumsUp.of_none hkind fun target htarget => ?_
    rw [inName?, htarget, hmeaning]
    rfl

theorem sumsUp_inFieldAccess? (locals : Locals) (range : TextRange) (qualifier : Expr)
    (name : Ident) :
    SumsUp ws whole Occurrence.isExact fun target =>
      (target.inFieldAccess? s scope locals range qualifier name).toList := by
  cases hmeaning : s.meaningOfMember scope (s.meaning scope locals qualifier) name.text with
  | type key =>
    refine (sumsUp_at? hkind (some key) ?_ [name.text] range).of_eq hkind ?_
    · rintro _ ⟨⟩
      exact hscope.mem_typeKeys_of_meaningOfMember hover h hmeaning
    · intro target htarget
      simp only [inFieldAccess?, htarget, hmeaning]
      rfl
  | _ =>
    refine SumsUp.of_none hkind fun target htarget => ?_
    simp only [inFieldAccess?, htarget, hmeaning]
    rfl

/-- **A place** is an exact reference to the type that it binds to alone. -/
theorem sumsUp_at (place : Place) :
    SumsUp ws whole Occurrence.isExact fun target => (target.at? s scope place).toList := by
  cases place with
  | typeRef ref =>
    refine (sumsUp_inTypeRef? hkind hscope hover h ref).of_eq hkind fun target htarget => ?_
    simp only [at?, htarget, if_true]
  | expr locals e =>
    obtain ⟨kind, range⟩ := e
    cases kind with
    | name name =>
      refine (sumsUp_inName? hkind hscope hover h locals name).of_eq hkind fun target htarget => ?_
      rw [at?, inExpr?, htarget]
    | fieldAccess qualifier name =>
      refine (sumsUp_inFieldAccess? hkind hscope hover h locals range qualifier name).of_eq hkind
        fun target htarget => ?_
      rw [at?, inExpr?, htarget]
    | _ =>
      refine SumsUp.of_none hkind fun target htarget => ?_
      rw [at?, inExpr?, htarget]
      rfl

/-- The references under one label. -/
theorem sumsUp_references (label : String) (places : List Place) :
    SumsUp ws whole Finding.isExact fun target =>
      Finding.references label (places.filterMap (target.at? s scope)) :=
  SumsUp.map (SumsUp.filterMap hkind fun place _ => sumsUp_at hkind hscope hover h place)

end Target

/-! ## Files -/

namespace Target

variable (hkind : whole.kind = .type)
include hkind

/-- The declaration of a type is that of itself alone. -/
theorem sumsUp_declarations {info : DeclaredType} (hinfo : info.key ∈ ws.typeKeys)
    (decl : TypeDecl) :
    SumsUp ws whole Finding.isExact fun target => target.declarations info decl := by
  refine SumsUp.append ?_ (SumsUp.of_none hkind fun target htarget => ?_)
  · refine (SumsUp.single hinfo
      [⟨info.qualifiedName, .declaration, decl.head.name.range, .exact⟩]).of_eq hkind
      fun target _ => ?_
    rw [Finding.declaration?]
    split <;> rfl
  · have hnone : ∀ label name, Finding.declaration? label name false = none := fun _ _ => rfl
    simp only [isMethodOf_eq_false htarget, isFieldOf_eq_false htarget, hnone]
    rw [List.filterMap_eq_nil_iff.2 fun m _ => by cases m <;> rfl]
    rfl

theorem sumsUp_inImports (h : ws.InStep) {scope : NameScope} (hscope : scope.IsIn ws) :
    SumsUp ws whole Finding.isExact fun target => target.inImports scope := by
  have himports : SumsUp ws whole Finding.isExact fun target =>
      scope.unit.imports.filterMap fun i => target.inImport? scope i := by
    refine SumsUp.filterMap hkind fun i _ => ?_
    unfold inImport?
    cases importedType? i with
    | none => exact SumsUp.of_none hkind fun _ _ => rfl
    | some segments =>
      refine SumsUp.of_eq hkind (SumsUp.map (g := fun a => Finding.mk
        ("import " ++ ".".intercalate i.segments) .reference ⟨i.range, a⟩)
        (sumsUp_typeAccuracy? hkind (scope.env.lookup? (".".intercalate segments))
          (fun key hkey => hscope.mem_typeKeys_of_lookup? h hkey) segments)) fun target _ => ?_
      rw [← Option.toList_map, Option.map_eq_bind]
      rfl
  refine himports.of_eq hkind fun target htarget => ?_
  rw [inImports, if_pos htarget]

variable (hover : s.IsOver ws) (h : ws.InStep)
include hover h

/-- **What counts in a type** itself. -/
theorem sumsUp_inType {limitTo : LimitTo} (hlimit : limitTo ≠ .implementors) {scope : NameScope}
    (hscope : scope.IsIn ws) {file : FileId} {source : SourceFile}
    (hsource : ws.source? file = some source) {info : DeclaredType} (hinfo : info ∈ source.types) :
    SumsUp ws whole Finding.isExact fun target => target.inType s limitTo scope info := by
  unfold inType
  cases info.decl? scope.unit with
  | none => exact SumsUp.of_none hkind fun _ _ => rfl
  | some decl =>
    have hkey := Workspace.mem_typeKeys hsource hinfo
    have hinside : (scope.inside (some info.key)).IsDeclaredIn ws :=
      hscope.inside_declared fun key heq => Option.some.inj heq ▸ hkey
    have houtside :
        (scope.inside (info.outer.map fun name => ⟨info.key.origin, name⟩)).IsDeclaredIn ws := by
      refine hscope.inside_declared fun key heq => ?_
      obtain ⟨name, hname, rfl⟩ := Option.map_eq_some_iff.1 heq
      exact h.outer_mem_typeKeys_of_mem hsource hinfo hname
    refine SumsUp.append (SumsUp.append ?_ ?_) ?_
    · cases limitTo.includesDeclarations with
      | true => exact sumsUp_declarations hkind hkey decl
      | false => exact SumsUp.of_none hkind fun _ _ => rfl
    · cases limitTo.includesReferences with
      | true =>
        refine SumsUp.append (sumsUp_references hkind houtside hover h _ _) ?_
        exact SumsUp.flatMap hkind fun member _ => sumsUp_references hkind hinside hover h _ _
      | false => exact SumsUp.of_none hkind fun _ _ => rfl
    · simp only [if_neg hlimit]
      exact SumsUp.of_none hkind fun _ _ => rfl

/-- **What counts in a source file.** -/
theorem sumsUp_findings {limitTo : LimitTo} (hlimit : limitTo ≠ .implementors)
    (coverage : Coverage) {file : FileId} {source : SourceFile}
    (hsource : ws.source? file = some source) :
    SumsUp ws whole Finding.isExact fun target =>
      target.findings s limitTo coverage source := by
  unfold findings
  cases hscope : s.scope? source none with
  | none => exact SumsUp.of_none hkind fun _ _ => rfl
  | some scope =>
    have hisIn := hover.isIn_of_scope? h hsource hscope
    refine SumsUp.append ?_ (SumsUp.flatMap hkind fun info hinfo => ?_)
    · split
      · exact sumsUp_inImports hkind h hisIn
      · exact SumsUp.of_none hkind fun _ _ => rfl
    · exact sumsUp_inType hkind hover h hlimit hisIn hsource (List.mem_filter.1 hinfo).1

/-! ## Archives and searches -/

omit hover h in
/-- **What counts in an archive.** -/
theorem sumsUp_inArchive {limitTo : LimitTo} (hlimit : limitTo ≠ .implementors) (doc : Document)
    {archive : Archive} (harchive : archive ∈ ws.archives.values) :
    SumsUp ws whole Match.isExact fun target => target.inArchive s limitTo doc archive := by
  refine SumsUp.flatMap hkind fun info hinfo => SumsUp.map ?_
  have hkey : info.key ∈ ws.typeKeys :=
    Workspace.mem_typeKeys_of_archive harchive (List.mem_mergeSort.1 (List.mem_filter.1 hinfo).1)
  unfold inBinaryType
  simp only [if_neg hlimit]
  split
  · refine SumsUp.map ((SumsUp.single hkey [info.qualifiedName]).of_eq hkind
      fun target htarget => ?_)
    rw [binaryDeclarations, htarget]
  · exact SumsUp.of_none hkind fun _ _ => rfl

end Target

/-- The declared types that a name with a qualifier covers, each of them once. -/
def Workspace.typesCovered (ws : Workspace) (qualifier : Option NamePattern) (name : NamePattern) :
    List TypeKey :=
  ws.typeKeys.eraseDups.filter fun key =>
    name.matches? key.simpleName && Target.allows qualifier key.qualifier

namespace Searchable

variable (hkind : whole.kind = .type) (hover : s.IsOver ws) (h : ws.InStep)
include hkind hover h

theorem sumsUp_locate {limitTo : LimitTo} (hlimit : limitTo ≠ .implementors) (doc : Document) :
    SumsUp ws whole Match.isExact fun target => locate s target limitTo doc := by
  unfold locate
  rw [hover.workspace]
  split
  · split
    next source hsource =>
      exact SumsUp.map (Target.sumsUp_findings hkind hover h hlimit doc.coverage hsource)
    next => exact SumsUp.of_none hkind fun _ _ => rfl
  · split
    next archive harchive =>
      exact Target.sumsUp_inArchive hkind hlimit doc (Workspace.mem_archives_values harchive)
    next => exact SumsUp.of_none hkind fun _ _ => rfl

/-- **What counts in some documents**, in order. -/
theorem sumsUp_locateAll {limitTo : LimitTo} (hlimit : limitTo ≠ .implementors)
    (docs : List Document) :
    SumsUp ws whole Match.isExact fun target => locateAll s target limitTo docs :=
  SumsUp.flatMap hkind fun doc _ => (sumsUp_locate hkind hover h hlimit doc).of_perm hkind
    fun _ _ => List.mergeSort_perm _ _

omit hkind hover h

/-- A class that uses itself. -/
def copiedText : String := "class X \x7b X x; \x7d"

/-- Two projects with copies of the class. -/
def copiesInTwoProjects : List Edit :=
  [.createProject ⟨"P", [""], [], none⟩, .createFile "/P/X.java" copiedText,
    .createProject ⟨"Q", [""], [], none⟩, .createFile "/Q/X.java" copiedText]

/-- Both files. -/
def copiesInTwoProjectsScope : SearchScope :=
  ⟨.workspace, ["P", "Q"],
    [⟨.source ⟨0⟩, "P", "X.java", .all⟩, ⟨.source ⟨1⟩, "Q", "X.java", .all⟩]⟩

end Searchable

end SourceSearch
