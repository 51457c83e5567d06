import SourceSearch.Proofs.DeclaredNames
import SourceSearch.Proofs.SettledSupertypes

/-!
# Resolved types are declared under their names

Names are resolved to keys of types. Some of the keys come from the tables of projects and archives
and some are put together, of a type and the name of a member or of an outer type, and then a key
could be of no type at all, or of one with another name. `Workspace.MayName` says that it is not. It
holds of whatever is found for a name (`FoundFor.mayName`), so of the types of dotted and of simple
names and of members, and of what archives find (`mayName_of_binaryType?`). The heads of types and
the declarations of members are resolved by these (`mayName_of_typeOfHeadRef?`,
`mayName_of_typeOfMemberRef?`), and so are direct supertypes, among them the class that all classes
extend (`resolved_afterAll`).
-/

set_option autoImplicit false

namespace SourceSearch

/-- A name may stand for a type: the type is declared, and its simple name is what the name ends in.
Of a segment of a dotted name this is the whole. -/
structure Workspace.MayName (ws : Workspace) (name : String) (key : TypeKey) : Prop where
  declared : ∃ info, ws.declared? key = some info ∧ info.key = key
  simpleName : key.simpleName = Text.lastSegment name
  simpleName_of_segment : '.' ∉ name.toList → key.simpleName = name

variable {ws : Workspace} {s : BoundWorkspace} {scope : NameScope} {name : String} {key : TypeKey}
  {ref : TypeRef}

theorem Workspace.InStep.mayName (h : ws.InStep) (hkey : key ∈ ws.typeKeys)
    (hname : key.simpleName = Text.lastSegment name) : ws.MayName name key := by
  obtain ⟨info, hinfo⟩ := h.mem_typeKeys_iff.1 hkey
  exact ⟨⟨info, hinfo, (h.of_declared? hinfo).1⟩, hname,
    fun hsegment => hname.trans (Text.lastSegment_eq_self hsegment)⟩

namespace BoundWorkspace

/-! ## Names at a place -/

/-- **What is found for a name** at a place in a declared type is a type that it may stand for. -/
theorem FoundFor.mayName (hfound : s.FoundFor scope name key) (hover : s.IsOver ws)
    (h : ws.InStep) (hscope : scope.HasEnvOf ws)
    (henclosing : ∀ key, scope.enclosing = some key → key ∈ ws.typeKeys) : ws.MayName name key :=
  h.mayName (hfound.mem_typeKeys hover h hscope henclosing) (hfound.simpleName_eq hscope h)

theorem mayName_of_memberType? (hover : s.IsOver ws) (h : ws.InStep) {owner : TypeKey}
    (hkey : s.memberType? owner name = some key) : ws.MayName name key :=
  h.mayName (mem_typeKeys_of_memberType? hover h hkey) (simpleName_eq_of_memberType? hkey)

/-- A written type may stand for the type that it is bound to. -/
theorem mayName_of_typeOfRef? (hover : s.IsOver ws) (h : ws.InStep) (hscope : scope.HasEnvOf ws)
    (henclosing : ∀ key, scope.enclosing = some key → key ∈ ws.typeKeys)
    (hkey : s.typeOfRef? scope ref = some key) : ws.MayName ref.simpleName key := by
  unfold typeOfRef? at hkey
  split at hkey
  next => cases hkey
  next =>
    obtain ⟨last, hlast, hfound⟩ := FoundFor.of_typeOfName? hkey
    rw [TypeRef.simpleName, hlast, Option.getD_some]
    exact hfound.mayName hover h hscope henclosing

/-! ## Names in archives and in declarations -/

theorem mem_typeKeys_of_binaryType? (hover : s.IsOver ws) {id : ArchiveId}
    (hkey : s.binaryType? id name = some key) : key ∈ ws.typeKeys := by
  obtain ⟨archive, hmem, info, hinfo, rfl, -⟩ := exists_declared_of_binaryType? hkey
  rw [hover.workspace] at hmem
  exact Workspace.mem_typeKeys_of_archive hmem hinfo

/-- **What archives find** for the dotted name of a written type is a type that it may stand for. -/
theorem mayName_of_binaryType? (hover : s.IsOver ws) (h : ws.InStep) {id : ArchiveId}
    (hkey : s.binaryType? id ref.dotted = some key) : ws.MayName ref.simpleName key := by
  refine h.mayName (mem_typeKeys_of_binaryType? hover hkey) ?_
  rw [TypeKey.simpleName, qualifiedName_of_binaryType? hkey, TypeRef.dotted,
    Text.lastSegment_joined]
  rfl

/-- The type that the declaration of a member writes. -/
theorem mayName_of_typeOfMemberRef? (hover : s.IsOver ws) (h : ws.InStep) {owner : TypeKey}
    (howner : owner.origin.file?.isSome = true → owner ∈ ws.typeKeys)
    (hkey : s.typeOfMemberRef? owner ref = some key) : ws.MayName ref.simpleName key := by
  unfold typeOfMemberRef? at hkey
  split at hkey
  next => cases hkey
  next =>
    split at hkey
    next file horigin =>
      obtain ⟨scope, hscope, hbound⟩ := Option.bind_eq_some_iff.1 hkey
      obtain ⟨id, -, hscope⟩ := Option.bind_eq_some_iff.1 hscope
      obtain ⟨source, -, hscope⟩ := Option.bind_eq_some_iff.1 hscope
      obtain ⟨-, rfl, haround, henv⟩ := hover.of_scope? hscope
      refine mayName_of_typeOfRef? hover h henv ?_ hbound
      intro around hmem
      obtain rfl := Option.some.inj (haround.symm.trans hmem)
      exact howner (by rw [horigin]; rfl)
    next id horigin => exact mayName_of_binaryType? hover h hkey

/-- The type that the head of a declared type writes. It is bound outside the type. -/
theorem mayName_of_typeOfHeadRef? (hover : s.IsOver ws) (h : ws.InStep) {info : DeclaredType}
    {sup : TypeKey} (hinfo : ws.declared? key = some info)
    (hsup : s.typeOfHeadRef? info key ref = some sup) : ws.MayName ref.simpleName sup := by
  unfold typeOfHeadRef? at hsup
  split at hsup
  next file horigin =>
    obtain ⟨source, -, hsup⟩ := Option.bind_eq_some_iff.1 hsup
    obtain ⟨scope, hscope, hbound⟩ := Option.bind_eq_some_iff.1 hsup
    obtain ⟨-, rfl, haround, henv⟩ := hover.of_scope? hscope
    refine mayName_of_typeOfRef? hover h henv ?_ hbound
    intro outer hmem
    rw [haround] at hmem
    obtain ⟨name, houter, rfl⟩ := Option.map_eq_some_iff.1 hmem
    exact h.outer_mem_typeKeys hinfo houter
  next id horigin => exact mayName_of_binaryType? hover h hsup

/-- The class that all classes extend is declared wherever it is found. -/
theorem mayName_of_implicitObject? (hover : s.IsOver ws) (h : ws.InStep) {sup : TypeKey}
    (hsup : s.implicitObject? key = some sup) : ws.MayName objectName sup := by
  refine h.mayName ?_ (by rw [TypeKey.simpleName, qualifiedName_of_implicitObject? hover h hsup])
  rcases implicitObject?_cases hover h.files hsup with
    ⟨file, source, project, -, -, -, hproject, hfound⟩ | ⟨id, -, hfound⟩
  · exact Environment.mem_typeKeys_of_lookupFor? h hproject hfound
  · exact mem_typeKeys_of_binaryType? hover hfound

/-- A direct supertype is one that the head of the type writes, or the class that all classes
extend. -/
theorem mayName_of_mem_directSupertypes (h : ws.InStep) {sup : TypeKey}
    (hsup : sup ∈ (ofWorkspace ws).directSupertypes key) :
    ∃ info, ws.declared? key = some info ∧
      ((∃ ref ∈ info.writtenSupertypes, ws.MayName ref.simpleName sup) ∨
        info.superclass = none ∧ sup.qualifiedName = objectName ∧ ws.MayName objectName sup) := by
  obtain ⟨other, hother⟩ := (inSight_ofWorkspace h).declared hsup
  obtain ⟨t, ht, hbound⟩ :=
    exists_supertypes_eq_bindSupertypes (h.mem_typeKeys_iff.2 ⟨other, hother⟩)
  rw [directSupertypes, hbound] at hsup
  obtain ⟨info, hinfo, hsup⟩ := mem_bindSupertypes_cases hsup
  rw [declared?, ht.workspace] at hinfo
  refine ⟨info, hinfo, ?_⟩
  rcases hsup with ⟨ref, href, hsup⟩ | ⟨hunwritten, hsup⟩
  · exact Or.inl ⟨ref, href, mayName_of_typeOfHeadRef? ht h hinfo hsup⟩
  · exact Or.inr ⟨hunwritten, qualifiedName_of_implicitObject? ht h hsup,
      mayName_of_implicitObject? ht h hsup⟩

/-! ## After any edits -/

/-- **Resolution answers with declared types of the name that was asked for.** In a workspace that
edits have made, dotted and simple names at a place stand for declared types with the last segment
as their simple name, whatever the file is, if the type around the place is declared. So do the
names of members of any type, and the types that are written in the declarations of members, those
of a declared type or those that an archive records. Each direct supertype of a type is declared
too: it has the last segment of a supertype that the type writes as its simple name, or it is the
class that all classes extend where the type writes no superclass. -/
theorem resolved_afterAll (edits : List Edit) :
    let ws := Workspace.initial.afterAll edits
    let s := ofWorkspace ws
    (∀ file enclosing scope, s.scope? file enclosing = some scope →
        (∀ key, enclosing = some key → ∃ info, ws.declared? key = some info) →
        (∀ segments key, s.typeOfName? scope segments = some key →
          ∃ last, segments.getLast? = some last ∧ ws.MayName last key) ∧
        ∀ name key, s.simpleType? scope name = some key → ws.MayName name key) ∧
      (∀ owner name key, s.memberType? owner name = some key → ws.MayName name key) ∧
      (∀ owner ref key,
        (owner.origin.file?.isSome = true → ∃ info, ws.declared? owner = some info) →
        s.typeOfMemberRef? owner ref = some key → ws.MayName ref.simpleName key) ∧
      ∀ key sup, sup ∈ s.directSupertypes key →
        ∃ info, ws.declared? key = some info ∧
          ((∃ ref ∈ info.writtenSupertypes, ws.MayName ref.simpleName sup) ∨
            info.superclass = none ∧ sup.qualifiedName = objectName ∧
              ws.MayName objectName sup) := by
  intro ws s
  have h : ws.InStep := Workspace.inStep_afterAll edits
  have hover : s.IsOver ws := isOver_ofWorkspace ws
  refine ⟨?_, fun owner name key => mayName_of_memberType? hover h, ?_,
    fun key sup => mayName_of_mem_directSupertypes h⟩
  · intro file enclosing scope hscope hdeclared
    obtain ⟨-, rfl, haround, henv⟩ := hover.of_scope? hscope
    have henclosing : ∀ key, scope.enclosing = some key → key ∈ ws.typeKeys :=
      fun key hkey => h.mem_typeKeys_iff.2 (hdeclared key (haround.symm.trans hkey))
    refine ⟨fun segments key hkey => ?_, fun name key hkey =>
      (FoundFor.of_simpleType? hkey).mayName hover h henv henclosing⟩
    obtain ⟨last, hlast, hfound⟩ := FoundFor.of_typeOfName? hkey
    exact ⟨last, hlast, hfound.mayName hover h henv henclosing⟩
  · intro owner ref key howner
    exact mayName_of_typeOfMemberRef? hover h fun hfile => h.mem_typeKeys_iff.2 (howner hfile)

/-- A class that inherits a member type from a class of another project, which it imports. -/
def inheritedMember : List Edit :=
  [.registerArchive "/J.jar"
      [("Object.java", "package java.lang; public class Object \x7b\x7d")] none,
    .createProject ⟨"P", [""], [.library "/J.jar"], none⟩, .createFolder "/P/p",
    .createFile "/P/p/A.java" "package p; public class A \x7b public class In \x7b\x7d \x7d",
    .createProject ⟨"Q", [""], [.project "P" false], none⟩, .createFolder "/Q/q",
    .createFile "/Q/q/B.java" "package q; import p.A; class B extends A \x7b In f; \x7d"]

/-- The inherited type is found by its name behind that of the class, and the direct supertypes of
both classes, one written and one not, are declared. -/
theorem resolved_inheritedMember :
    let ws := Workspace.initial.afterAll inheritedMember
    let s := ofWorkspace ws
    let a : TypeKey := ⟨.source ⟨0⟩, "p.A"⟩
    let b : TypeKey := ⟨.source ⟨1⟩, "q.B"⟩
    let inner : TypeKey := ⟨.source ⟨0⟩, "p.A.In"⟩
    let object : TypeKey := ⟨.archive ⟨1⟩, objectName⟩
    ∃ source scope, ws.source? ⟨1⟩ = some source ∧ s.scope? source none = some scope ∧
      s.typeOfName? scope ["B", "In"] = some inner ∧ ws.MayName "In" inner ∧
      s.directSupertypes b = [a] ∧ (∃ info, ws.declared? a = some info ∧ info.key = a) ∧
      s.directSupertypes a = [object] ∧
      ∃ info, ws.declared? object = some info ∧ info.key = object := by
  intro ws s a b inner object
  have h : ws.InStep := Workspace.inStep_afterAll inheritedMember
  -- the heads of both classes have simple names only, so they are bound without supertypes
  have hbound : ∀ {key : TypeKey} {names : List (List String)},
      ((ws.declared? key).map fun info => (info.outer, info.writtenSupertypes.map (·.segments))) =
        some (none, names) → (∀ segments ∈ names, segments.length = 1) →
      s.supertypes key = s.bindSupertypes key := by
    intro key names hwritten hsimple
    obtain ⟨info, hinfo, heq⟩ := Option.map_eq_some_iff.1 hwritten
    obtain ⟨houter, rfl⟩ := Prod.mk.inj heq
    refine (BindingEnds.of_simple hinfo houter fun ref href => ?_).supertypes_eq h
    exact List.length_eq_one_iff.1 (hsimple _ (List.mem_map_of_mem href))
  have hb : s.supertypes b = ⟨some a, []⟩ := by
    rw [hbound (by decide +kernel : _ = some (none, [["A"]])) (by decide)]
    decide +kernel
  have ha : s.supertypes a = ⟨some object, []⟩ := by
    rw [hbound (by decide +kernel : _ = some (none, [])) (by decide)]
    decide +kernel
  have hdirect : s.directSupertypes b = [a] := by rw [directSupertypes, hb]; rfl
  have hdirect' : s.directSupertypes a = [object] := by rw [directSupertypes, ha]; rfl
  have hplaced : ((ws.source? ⟨1⟩).bind fun source => (s.scope? source none).map fun scope =>
      s.simpleType? scope "B") = some (some b) := by
    decide +kernel
  obtain ⟨source, hsource, hplaced⟩ := Option.bind_eq_some_iff.1 hplaced
  obtain ⟨scope, hscope, hsimple⟩ := Option.map_eq_some_iff.1 hplaced
  have hinner : (s.declared? inner).isSome = true := by decide +kernel
  obtain ⟨info, hinfo⟩ := Option.isSome_iff_exists.1 hinner
  have hmember : s.memberType? b "In" = some inner :=
    memberType?_of_superclass (Nat.le_add_left 2 _) (congrArg Supertypes.superclass hb) (by decide)
      (by decide +kernel) hinfo
  have hname : s.typeOfName? scope ["B", "In"] = some inner := by
    rw [typeOfName?, hsimple, Option.bind_some, memberTypeAt?, hmember]
    rfl
  obtain ⟨hplaces, -, -, hsupers⟩ := resolved_afterAll inheritedMember
  have htop : ∀ key, none = some key → ∃ info, ws.declared? key = some info := by
    intro key hkey
    cases hkey
  obtain ⟨last, hlast, hinnerNamed⟩ := (hplaces source none scope hscope htop).1 _ inner hname
  obtain rfl := Option.some.inj hlast
  have hdeclared : ∀ {key sup : TypeKey}, sup ∈ s.directSupertypes key →
      ∃ info, ws.declared? sup = some info ∧ info.key = sup := by
    intro key sup hsup
    obtain ⟨_, -, ⟨_, -, hnamed⟩ | ⟨-, -, hnamed⟩⟩ := hsupers key sup hsup
    · exact hnamed.declared
    · exact hnamed.declared
  exact ⟨source, scope, hsource, hscope, hname, hinnerNamed, hdirect,
    hdeclared (hdirect ▸ List.mem_singleton_self a), hdirect',
    hdeclared (hdirect' ▸ List.mem_singleton_self object)⟩

end BoundWorkspace

end SourceSearch
