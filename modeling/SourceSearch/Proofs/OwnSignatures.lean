import SourceSearch.Proofs.CallPatterns
import SourceSearch.Proofs.DeclaredNames

/-!
# Methods by their own signatures

A declared method has an identifier for its name, and its parameter types end in simple names
(`InStep.isNamed`). This holds in archives too: the qualified name of a type ends in the name that
the source wrote (`Qualification.simpleName_typeRef`).

So a method is found by its name and its recorded parameters iff all of these are signatures of
themselves, and the same goes for the pattern that the call of the method reads like
(`findMethod_afterAll`).
-/

set_option autoImplicit false

namespace SourceSearch

/-- A method whose name is an identifier and whose parameter types end in simple names. -/
structure DeclaredMethod.IsNamed (method : DeclaredMethod) : Prop where
  name : IsIdentifier method.name
  params : ∀ ref ∈ method.params, IsSimpleName ref.simpleName

/-! ## Methods of a tree -/

/-- A type that is written in identifiers ends in a simple name. -/
theorem TypeRef.WrittenIn.isSimpleName {ref : TypeRef} (h : ref.WrittenIn IsIdentifier) :
    IsSimpleName ref.simpleName := by
  rcases h with ⟨p, hp⟩ | ⟨hne, hall⟩
  · rw [TypeRef.simpleName, hp]
    exact p.isSimpleName_spelling
  · rw [TypeRef.simpleName, List.getLast?_eq_some_getLast hne, Option.getD_some]
    exact (hall _ (List.getLast_mem hne)).isSimpleName

/-- What the methods of a declaration write. -/
theorem DeclaredType.writtenIn_methods {words : String → Prop} {origin : Origin}
    {package qualified : String} {outer : Option String} {path : List Nat} {decl : TypeDecl}
    (h : WrittenIn words (Walk.typeDecl decl)) :
    ∀ method ∈ (ofDecl origin package outer qualified path decl).methods,
      words method.name ∧ ∀ ref ∈ method.params, ref.WrittenIn words := by
  intro method hmethod
  obtain ⟨⟨head, body⟩, hlisted, rfl⟩ := List.mem_map.1 hmethod
  obtain ⟨member, hmember, hsome⟩ := List.mem_filterMap.1 hlisted
  split at hsome <;> cases hsome
  have hnodes := writtenIn_member (TypeDecl.writtenIn_members h) hmember
  rw [Walk.member, List.cons_append, writtenIn_cons, writtenIn_append, writtenIn_map_typeRef]
    at hnodes
  exact ⟨hnodes.1, fun ref href =>
    hnodes.2.1 ref (List.mem_append_left _ (List.mem_append_right _ href))⟩

/-- What the methods of a unit write. -/
theorem writtenIn_of_mem_collectTypes {words : String → Prop} {unit : CompilationUnit}
    {origin : Origin} (h : unit.WrittenIn words) {info : DeclaredType}
    (hinfo : info ∈ collectTypes unit origin) {method : DeclaredMethod}
    (hmethod : method ∈ info.methods) :
    words method.name ∧ ∀ ref ∈ method.params, ref.WrittenIn words := by
  obtain ⟨decl, hdecl, heq⟩ := DeclaredType.exists_decl? hinfo
  rw [heq] at hmethod
  exact DeclaredType.writtenIn_methods (DeclaredType.writtenIn_decl? h hdecl) method hmethod

/-- The methods of a text write identifiers. -/
theorem writtenIn_of_parse {text : String} {unit : CompilationUnit} {origin : Origin}
    (hparse : parse text = .ok unit) {info : DeclaredType} (hinfo : info ∈ collectTypes unit origin)
    {method : DeclaredMethod} (hmethod : method ∈ info.methods) :
    IsIdentifier method.name ∧ ∀ ref ∈ method.params, ref.WrittenIn IsIdentifier :=
  writtenIn_of_mem_collectTypes
    ((parse_written hparse).imp fun _ => isIdentifier_of_mem_wordsOfText)
    hinfo hmethod

/-! ## Methods of an archive -/

namespace Qualification

variable {site : Site} {name : String}

/-- **A qualified name** ends in the name that it stands for. -/
theorem lastSegment_inOuterTypes? (hname : '.' ∉ name.toList) {fuel : Nat}
    {current qualified : String} (h : inOuterTypes? site name fuel current = some qualified) :
    Text.lastSegment qualified = name := by
  induction fuel generalizing current with
  | zero => cases h
  | succ fuel ih =>
    rw [inOuterTypes?] at h
    split at h
    next => cases h
    next =>
      dsimp only at h
      split at h
      next =>
        cases h
        exact Text.lastSegment_append current hname
      next =>
        split at h
        next hown =>
          cases h
          exact hown
        next =>
          split at h
          next => exact ih h
          next => cases h

theorem lastSegment_importedName? (hname : '.' ∉ name.toList) {qualified : String}
    (h : importedName? site name = some qualified) : Text.lastSegment qualified = name := by
  obtain ⟨i, hi, rfl⟩ := Option.map_eq_some_iff.1 h
  have hlast : i.segments.getLast? = some name := by
    have := List.find?_some hi
    simp only [Bool.and_eq_true, beq_iff_eq] at this
    exact this.2
  obtain ⟨before, hsegments⟩ := List.getLast?_eq_some_iff.1 hlast
  rw [hsegments]
  by_cases hbefore : before = []
  · rw [hbefore, List.nil_append, String.intercalate_singleton]
    exact Text.lastSegment_eq_self hname
  · rw [Text.intercalate_concat hbefore]
    exact Text.lastSegment_append _ hname

theorem eq_of_ifDeclared {candidate qualified : String}
    (h : ifDeclared site candidate = some qualified) : candidate = qualified := by
  unfold ifDeclared at h
  split at h <;> cases h
  rfl

theorem lastSegment_onDemandName? (hname : '.' ∉ name.toList) {qualified : String}
    (h : onDemandName? site name = some qualified) : Text.lastSegment qualified = name := by
  obtain ⟨i, -, hi⟩ := List.exists_of_findSome?_eq_some h
  dsimp only at hi
  split at hi <;> cases hi
  exact Text.lastSegment_append _ hname

theorem lastSegment_resolve? (hname : '.' ∉ name.toList) {qualified : String}
    (h : resolve? site name = some qualified) : Text.lastSegment qualified = name := by
  unfold resolve? at h
  rcases (Option.orElse_eq_some _ _ _).1 h with h | ⟨-, h⟩
  · exact lastSegment_inOuterTypes? hname h
  rcases (Option.orElse_eq_some _ _ _).1 h with h | ⟨-, h⟩
  · exact lastSegment_importedName? hname h
  rcases (Option.orElse_eq_some _ _ _).1 h with h | ⟨-, h⟩
  · exact eq_of_ifDeclared h ▸ Text.lastSegment_qualify _ hname
  rcases (Option.orElse_eq_some _ _ _).1 h with h | ⟨-, h⟩
  · exact lastSegment_onDemandName? hname h
  · exact eq_of_ifDeclared h ▸ Text.lastSegment_append "java.lang" hname

/-- **A qualified type** ends in the same simple name as the written one. -/
theorem simpleName_typeRef {ref : TypeRef} (h : ref.WrittenIn fun word => '.' ∉ word.toList) :
    (typeRef site ref).simpleName = ref.simpleName := by
  unfold typeRef
  split
  · rfl
  next hprimitive =>
    split
    next => rfl
    next first rest hsegments =>
      split
      next qualified hqualified =>
        have hfirst : '.' ∉ first.toList := by
          rcases h with ⟨p, hp⟩ | ⟨-, hall⟩
          · exact absurd (TypeRef.isPrimitive_of_spelling hp) hprimitive
          · exact hall first (hsegments ▸ List.mem_cons_self)
        have hlast : (Text.split '.' qualified).getLast?.getD "" = first := by
          rw [← Text.lastSegment_intercalate fun segment => Text.not_mem_of_mem_split,
            Text.intercalate_split]
          exact lastSegment_resolve? hfirst hqualified
        rw [TypeRef.simpleName, TypeRef.simpleName, hsegments]
        cases rest with
        | nil => rwa [List.append_nil]
        | cons second rest =>
          rw [List.getLast?_append_of_ne_nil _ (List.cons_ne_nil second rest),
            List.getLast?_cons_cons]
      next => rfl

end Qualification

/-- The methods of a compiled archive are named. -/
theorem isNamed_of_mem_ofUnits {id : ArchiveId} {path : String} {units : List CompilationUnit}
    {module : Option ModuleDescription} {info : DeclaredType}
    (hunits : ∀ unit ∈ units, ∃ text, parse text = .ok unit)
    (hinfo : info ∈ (Archive.ofUnits id path units module).types) {method : DeclaredMethod}
    (hmethod : method ∈ info.methods) : method.IsNamed := by
  obtain ⟨⟨imports, infos⟩, hcollected, hinfo⟩ := List.mem_flatMap.1 hinfo
  obtain ⟨plain, hplain, rfl⟩ := List.mem_map.1 hinfo
  obtain ⟨unit, hunit, heq⟩ := List.mem_map.1 hcollected
  obtain ⟨rfl, rfl⟩ := Prod.mk.inj heq
  obtain ⟨text, hparse⟩ := hunits unit hunit
  obtain ⟨written, hwritten, rfl⟩ := List.mem_map.1 hmethod
  obtain ⟨hname, hparams⟩ := writtenIn_of_parse hparse hplain hwritten
  refine ⟨hname, fun ref href => ?_⟩
  obtain ⟨plainRef, hplainRef, rfl⟩ := List.mem_map.1 href
  rw [Qualification.simpleName_typeRef ((hparams plainRef hplainRef).imp fun _ h => h.no_dot)]
  exact (hparams plainRef hplainRef).isSimpleName

/-! ## Methods of a workspace -/

namespace Workspace

variable {ws : Workspace}

/-- **Declared methods** are named. -/
theorem InStep.isNamed (h : ws.InStep) {key : TypeKey} {info : DeclaredType}
    (hinfo : ws.declared? key = some info) {method : DeclaredMethod}
    (hmethod : method ∈ info.methods) : method.IsNamed := by
  obtain ⟨origin, qualifiedName⟩ := key
  cases origin with
  | source file =>
    obtain ⟨source, hsource, hfound⟩ := Option.bind_eq_some_iff.1 hinfo
    have hlisted := List.mem_of_find?_eq_some hfound
    obtain ⟨unit, hunit⟩ := h.files.exists_unit hsource hlisted
    rw [h.files.types_eq hsource hunit] at hlisted
    have hwritten :=
      (h.files.unit_written hsource hunit).imp fun _ => isIdentifier_of_mem_wordsOfText
    obtain ⟨hname, hparams⟩ := writtenIn_of_mem_collectTypes hwritten hlisted hmethod
    exact ⟨hname, fun ref href => (hparams ref href).isSimpleName⟩
  | archive id =>
    obtain ⟨archive, harchive, hfound⟩ := Option.bind_eq_some_iff.1 hinfo
    obtain ⟨-, path, hmem⟩ := mem_entries_of_archive? harchive
    obtain ⟨units, hunits, heq⟩ := h.archives.archive_compiled hmem
    exact isNamed_of_mem_ofUnits hunits (heq ▸ List.mem_of_find?_eq_some hfound) hmethod

end Workspace

/-! ## Look-up by the own signature -/

namespace DeclaredMethod

variable {method : DeclaredMethod}

/-- **The recorded parameters are erased to themselves** iff each is its own signature. -/
theorem IsNamed.map_erase_eq_iff (h : method.IsNamed) :
    method.erasedParams.map Signature.erase = method.erasedParams ↔
      ∀ ref ∈ method.params, ref.IsOwnSignature := by
  simp only [erasedParams, List.map_map, List.map_inj_left, Function.comp_apply]
  exact forall₂_congr fun ref href => Signature.erase_displaySimple_eq_iff (h.params ref href)

/-- The recorded parameters can be told apart in the text of a call. -/
theorem IsNamed.of_mem_erasedParams (h : method.IsNamed) {param : String}
    (hparam : param ∈ method.erasedParams) :
    ',' ∉ param.toList ∧ trimBlank param.toList = param.toList ∧ param ≠ "" := by
  obtain ⟨ref, href, rfl⟩ := List.mem_map.1 hparam
  have hsimple := h.params ref href
  exact ⟨TypeRef.not_mem_displaySimple hsimple (by decide), TypeRef.trimBlank_displaySimple hsimple,
    TypeRef.displaySimple_ne_empty hsimple⟩

end DeclaredMethod

namespace Workspace

variable {ws : Workspace} {key : TypeKey} {info : DeclaredType} {method : DeclaredMethod}

/-- A method is found under its own handle iff its handle is what is looked for. -/
theorem findMethod_eq_handle_iff (hinfo : ws.declared? key = some info)
    (hmethod : method ∈ info.methods) (signatures : List String) :
    ws.findMethod key method.name signatures = .ok (method.handle key) ↔
      signatures.map Signature.erase = method.erasedParams := by
  have hwanted : MethodHandle.ofSignatures key method.name signatures = method.handle key ↔
      signatures.map Signature.erase = method.erasedParams := by
    simp [MethodHandle.ofSignatures, DeclaredMethod.handle]
  simp only [findMethod, hinfo]
  rw [← hwanted]
  constructor
  · intro h
    split at h
    next => exact Except.ok.inj h
    next => cases h
  · intro h
    rw [if_pos (List.any_eq_true.2 ⟨method, hmethod, by simp [h]⟩), h]

/-- **A declared method is found by its name and its recorded parameters** iff each of these is its
own signature: it holds no dollar sign and, without brackets, is no code of a primitive type. The
pattern that is written like the call of the method has the recorded parameters under the same
condition. -/
theorem findMethod_afterAll (edits : List Edit) {key : TypeKey} {info : DeclaredType}
    (hinfo : (initial.afterAll edits).declared? key = some info) {method : DeclaredMethod}
    (hmethod : method ∈ info.methods) :
    ((initial.afterAll edits).findMethod key method.name method.erasedParams =
        .ok (method.handle key) ↔ ∀ ref ∈ method.params, ref.IsOwnSignature) ∧
    ∀ limitTo caseSensitive, ∃ params,
      SearchPattern.ofString
          (method.name ++ "(" ++ ", ".intercalate method.erasedParams ++ ")") .method limitTo
          caseSensitive =
        .ok ⟨.name .method none ⟨method.name, caseSensitive⟩ (some params), limitTo⟩ ∧
      (params = method.erasedParams ↔ ∀ ref ∈ method.params, ref.IsOwnSignature) := by
  have hnamed := (inStep_afterAll edits).isNamed hinfo hmethod
  refine ⟨(findMethod_eq_handle_iff hinfo hmethod _).trans hnamed.map_erase_eq_iff,
    fun limitTo caseSensitive => ⟨_, SearchPattern.ofString_call hnamed.name
      (fun _ => hnamed.of_mem_erasedParams) limitTo caseSensitive, hnamed.map_erase_eq_iff⟩⟩

/-- Parameter types whose names are read as a code, are cut at a dollar sign, and are read well. -/
def misreadText : String :=
  "class I \x7b\x7d class A$B \x7b\x7d class X \x7b void m(I i) \x7b\x7d void n(A$B a) \x7b\x7d void k(I[] i) \x7b\x7d \x7d"

/-- A project with the methods. -/
def misread : List Edit :=
  [.createProject ⟨"P", [""], [], none⟩, .createFile "/P/X.java" misreadText]

/-- Of the three methods only the last is found by what is recorded of it. -/
theorem findMethod_misread :
    let ws := initial.afterAll misread
    ∃ info, ws.declared? ⟨.source ⟨0⟩, "X"⟩ = some info ∧
      info.methods.map (fun method => (method.name, method.erasedParams)) =
        [("m", ["I"]), ("n", ["A$B"]), ("k", ["I[]"])] ∧
      ∀ method ∈ info.methods,
        (ws.findMethod ⟨.source ⟨0⟩, "X"⟩ method.name method.erasedParams =
          .ok (method.handle ⟨.source ⟨0⟩, "X"⟩) ↔ method.name = "k") := by
  intro ws
  have h := inStep_afterAll misread
  obtain ⟨source, hsource, hdeclared⟩ : ∃ source : SourceFile, ws.source? ⟨0⟩ = some source ∧
      (source.declared? "X").any (fun info =>
        decide (info.methods.map (fun method => (method.name, method.erasedParams)) =
          [("m", ["I"]), ("n", ["A$B"]), ("k", ["I[]"])]) &&
        info.methods.all fun method =>
          decide ((∀ ref ∈ method.params, ref.IsOwnSignature) ↔ method.name = "k")) = true := by
    refine ⟨.ofText ⟨0⟩ "P" "X.java" misreadText, h.files.source_iff.2
      ⟨"P", "X.java", misreadText, ?_, ?_, ?_, rfl⟩, ?_⟩
    all_goals decide +kernel
  obtain ⟨info, hlisted, hfacts⟩ := (Option.any_eq_true _ _).1 hdeclared
  simp only [Bool.and_eq_true, decide_eq_true_eq, List.all_eq_true] at hfacts
  have hinfo : ws.declared? ⟨.source ⟨0⟩, "X"⟩ = some info := by
    simp only [Workspace.declared?, hsource, Option.bind_some, hlisted]
  exact ⟨info, hinfo, hfacts.1, fun method hmethod =>
    (findMethod_afterAll misread hinfo hmethod).1.trans (hfacts.2 method hmethod)⟩

end Workspace

end SourceSearch
