import SourceSearch.Search.Reference
import SourceSearch.Proofs.NameBinding
import SourceSearch.Proofs.NamePatterns
import SourceSearch.Proofs.Places

/-!
# The word of a target

A target that the index can help with has one name (`Target.Seeks`), and whatever a target accepts
has this name: types, declarations and uses of members, bound or not. Constructors are the
exception, as no use of them has to write their name. So every reference at a place writes the word
there (`word_of_at?`).
-/

set_option autoImplicit false

namespace SourceSearch

variable {ws : Workspace} {s : BoundWorkspace}

/-- The type of an element that exists, and each of its members, is named by a word. A name pattern
that accepts nothing but one text seeks this text, word or not. -/
def Target.Seeks (word : String) : Target → Prop
  | .type key => key.simpleName = word ∧ IsWord word
  | .method handle _ => handle.selector = word ∧ IsWord word ∧ handle.isConstructor = false
  | .field handle => handle.name = word ∧ IsWord word
  | .named _ _ name _ => ∀ other, name.matches? other = true ↔ other = word

/-- Whether the pattern looks for a constructor. -/
def SearchPattern.seeksConstructor (pattern : SearchPattern) : Bool :=
  match pattern.subject with
  | .method handle => handle.isConstructor
  | _ => false

namespace Target

/-- A method of a type that is not a constructor has the name of one that the type declares. -/
theorem exists_of_hasMethod {info : DeclaredType} {handle : MethodHandle}
    (hconstructor : handle.isConstructor = false) (h : info.hasMethod handle = true) :
    ∃ m ∈ info.methods, m.name = handle.selector := by
  unfold DeclaredType.hasMethod at h
  rw [hconstructor, Bool.false_and, Bool.false_and, Bool.or_false, List.any_eq_true] at h
  obtain ⟨m, hm, heq⟩ := h
  exact ⟨m, hm, congrArg MethodHandle.selector (beq_iff_eq.1 heq)⟩

/-- The target of a pattern is what its subject is bound to. -/
theorem ofPattern_eq_ok_iff {pattern : SearchPattern} {target : Target} :
    ofPattern s pattern = .ok target ↔
      bind s pattern.subject = .ok target ∧
        (pattern.limitTo = .implementors → target.kind = .type) := by
  unfold ofPattern
  rw [bind_eq_ok_iff]
  constructor
  · rintro ⟨bound, hbound, hrest⟩
    split at hrest
    next => cases hrest
    next hkind =>
      cases hrest
      exact ⟨hbound, fun hlimit => Decidable.not_not.1 fun hne => hkind ⟨hlimit, hne⟩⟩
  · rintro ⟨hbound, hkind⟩
    refine ⟨target, hbound, ?_⟩
    rw [if_neg fun hlimit => hlimit.2 (hkind hlimit.1)]
    rfl

/-- Only names are bound to names. -/
theorem subject_of_bind_named {subject : Subject} {kind : ElementKind}
    {qualifier : Option NamePattern} {name : NamePattern} {params : Option (List String)}
    (h : bind s subject = .ok (.named kind qualifier name params)) :
    subject = .name kind qualifier name params := by
  cases subject with
  | name =>
    cases h
    rfl
  | _ =>
    simp only [bind] at h
    split at h <;> cases h

/-- **The target of a pattern** seeks the word that the index is asked for. -/
theorem seeks_of_ofPattern (hover : s.IsOver ws) (h : ws.InStep) {pattern : SearchPattern}
    {target : Target} {word : String} (hpattern : pattern.seeksConstructor = false)
    (htarget : ofPattern s pattern = .ok target) (hword : target.indexWord? = some word) :
    target.Seeks word := by
  have hdeclared : ∀ {key : TypeKey} {info : DeclaredType}, s.declared? key = some info →
      info.key = key ∧ info.NamedIn IsWord (fun word => '.' ∉ word.toList) key.origin := by
    intro key info hinfo
    rw [BoundWorkspace.declared?, hover.workspace] at hinfo
    exact h.of_declared? hinfo
  have hbind := (ofPattern_eq_ok_iff.1 htarget).1
  unfold bind at hbind
  split at hbind
  next key heq =>
    split at hbind
    next hsome =>
      cases hbind
      cases hword
      obtain ⟨info, hinfo⟩ := Option.isSome_iff_exists.1 hsome
      obtain ⟨rfl, hnamed⟩ := hdeclared hinfo
      exact ⟨rfl, hnamed.name⟩
    next => cases hbind
  next handle heq =>
    split at hbind
    next hany =>
      cases hbind
      cases hword
      obtain ⟨info, hinfo, hmethod⟩ := (Option.any_eq_true _ _).1 hany
      have hconstructor : handle.isConstructor = false := by
        rw [SearchPattern.seeksConstructor, heq] at hpattern
        exact hpattern
      obtain ⟨m, hm, hname⟩ := exists_of_hasMethod hconstructor hmethod
      exact ⟨rfl, hname ▸ (hdeclared hinfo).2.methods m hm, hconstructor⟩
    next => cases hbind
  next handle heq =>
    split at hbind
    next hany =>
      cases hbind
      cases hword
      obtain ⟨info, hinfo, hfield⟩ := (Option.any_eq_true _ _).1 hany
      obtain ⟨f, hf⟩ := Option.isSome_iff_exists.1 hfield
      have hname : f.name = handle.name := by simpa using List.find?_some hf
      exact ⟨rfl, hname ▸ (hdeclared hinfo).2.fields f (List.mem_of_find?_eq_some hf)⟩
    next => cases hbind
  next kind qualifier name params heq =>
    cases hbind
    intro other
    exact NamePattern.matches?_of_exactWord? hword

/-! ## What a target accepts -/

variable {target : Target} {word : String}

/-- A type that is the target has the word as its simple name. -/
theorem Seeks.simpleName_of_isType (hseeks : target.Seeks word) {key : TypeKey}
    (h : target.isType key = true) : key.simpleName = word := by
  unfold isType at h
  split at h
  next wanted =>
    rw [← beq_iff_eq.1 h]
    exact hseeks.1
  next qualifier name params =>
    rw [Bool.and_eq_true] at h
    exact (hseeks _).1 h.1
  next => cases h

/-- A written name that could stand for the target ends in the word. -/
theorem Seeks.last_of_couldBeType (hseeks : target.Seeks word) {segments : List String}
    (h : target.couldBeType segments = true) : segments.getLast? = some word := by
  unfold couldBeType at h
  split at h
  next => cases h
  next last hlast =>
    rw [hlast]
    split at h
    next wanted => rw [← beq_iff_eq.1 h, hseeks.1]
    next qualifier name params =>
      rw [Bool.and_eq_true] at h
      rw [(hseeks last).1 h.1]
    next => cases h

/-- A written name that is an occurrence, and is the name of what it binds to, ends in the word. -/
theorem Seeks.last_of_typeAccuracy? (hseeks : target.Seeks word) {bound : Option TypeKey}
    {segments : List String} {accuracy : Accuracy}
    (hbound : ∀ key, bound = some key → segments.getLast? = some key.simpleName)
    (h : target.typeAccuracy? bound segments = some accuracy) :
    segments.getLast? = some word := by
  unfold typeAccuracy? at h
  split at h
  next key =>
    split at h
    next htype => rw [hbound key rfl, hseeks.simpleName_of_isType htype]
    next => cases h
  next =>
    split at h
    next hcould => exact hseeks.last_of_couldBeType hcould
    next => cases h

/-- A method that is the target, or overrides it, has its name. -/
theorem name_of_isMethodOf_method {handle : MethodHandle} {hierarchy : TypeHierarchy}
    {owner : DeclaredType} {m : DeclaredMethod}
    (h : (method handle hierarchy).isMethodOf owner m = true) : m.name = handle.selector := by
  simp only [isMethodOf, Bool.or_eq_true, Bool.and_eq_true, beq_iff_eq] at h
  rcases h with h | ⟨⟨-, h⟩, -⟩
  · exact congrArg MethodHandle.selector h
  · exact h

theorem Seeks.name_of_isMethodOf (hseeks : target.Seeks word) {owner : DeclaredType}
    {m : DeclaredMethod} (h : target.isMethodOf owner m = true) : m.name = word := by
  cases target with
  | method wanted hierarchy => exact (name_of_isMethodOf_method h).trans hseeks.1
  | named kind qualifier name params =>
    cases kind with
    | method =>
      simp only [isMethodOf, Bool.and_eq_true] at h
      exact (hseeks _).1 h.1.1.2
    | _ => cases h
  | _ => cases h

theorem Seeks.name_of_isFieldOf (hseeks : target.Seeks word) {owner : DeclaredType}
    {f : DeclaredField} (h : target.isFieldOf owner f = true) : f.name = word := by
  unfold isFieldOf at h
  split at h
  next wanted =>
    rw [← hseeks.1]
    exact congrArg FieldHandle.name (beq_iff_eq.1 h)
  next qualifier name params =>
    rw [Bool.and_eq_true] at h
    exact (hseeks _).1 h.1
  next => cases h

/-- What is declared as the target has the word as its name. -/
structure Names (word : String) (target : Target) : Prop where
  type : ∀ {key}, target.isType key = true → key.simpleName = word
  method : ∀ {owner m}, target.isMethodOf owner m = true → m.name = word
  field : ∀ {owner f}, target.isFieldOf owner f = true → f.name = word

theorem Seeks.names (hseeks : target.Seeks word) : target.Names word :=
  ⟨hseeks.simpleName_of_isType, hseeks.name_of_isMethodOf, hseeks.name_of_isFieldOf⟩

/-- A method is declared under its name, be it a constructor or not. -/
theorem names_method (handle : MethodHandle) (hierarchy : TypeHierarchy) :
    (method handle hierarchy).Names handle.selector where
  type h := by cases h
  method := name_of_isMethodOf_method
  field h := by cases h

/-- A call that is an occurrence writes the word. -/
theorem Seeks.selector_of_callAccuracy? (hseeks : target.Seeks word) {call : BoundCall}
    {selector : String} {arity : Nat} {accuracy : Accuracy}
    (h : target.callAccuracy? call selector arity = some accuracy) : selector = word := by
  unfold callAccuracy? at h
  split at h
  next wanted hierarchy =>
    split at h
    next => cases h
    next hselector =>
      simp only [Bool.or_eq_true, bne_iff_ne, ne_eq, not_or, Decidable.not_not] at hselector
      rw [hselector.2, hseeks.1]
  next qualifier name params =>
    split at h
    next => cases h
    next hmatches => exact (hseeks _).1 (by simpa using hmatches)
  next => cases h

/-- A method reference that is an occurrence writes the word, and it is not one to a constructor. -/
theorem Seeks.selector_of_methodRefAccuracy? (hseeks : target.Seeks word)
    {receiver : Option TypeKey} {selector : String} {accuracy : Accuracy}
    (h : target.methodRefAccuracy? receiver selector = some accuracy) :
    selector = word ∧ selector ≠ "new" := by
  unfold methodRefAccuracy? at h
  obtain ⟨hcounts, -⟩ := Option.ite_none_right_eq_some.1 h
  split at hcounts
  next wanted hierarchy =>
    obtain ⟨rfl, hword, hconstructor⟩ := hseeks
    rw [hconstructor] at hcounts
    simp only [Bool.false_eq_true, if_false, Bool.and_eq_true, beq_iff_eq] at hcounts
    refine ⟨hcounts.1, ?_⟩
    intro hnew
    have hreserved := hword.not_reserved
    rw [← hcounts.1, hnew] at hreserved
    exact absurd hreserved (by decide)
  next qualifier name params =>
    simp only [Bool.and_eq_true, bne_iff_ne, ne_eq] at hcounts
    exact ⟨(hseeks _).1 hcounts.1.2, hcounts.1.1⟩
  next => cases hcounts

/-- No call of a constructor is an occurrence, since the target is no constructor. -/
theorem Seeks.constructorAccuracy?_eq_none (hseeks : target.Seeks word) {owner : Option TypeKey}
    {binding : Option BoundMethod} {written : String} {arity : Nat} :
    target.constructorAccuracy? s owner binding written arity = none := by
  unfold constructorAccuracy?
  split
  next wanted hierarchy =>
    have hconstructor : wanted.isConstructor = false := hseeks.2.2
    rw [hconstructor]
    rfl
  next => rfl

/-- A use of a field that is an occurrence writes the word, as names bind to fields of the name. -/
theorem Seeks.used_of_fieldAccuracy? (hseeks : target.Seeks word) {binding : Option BoundField}
    {used : String} {untyped : Bool} {accuracy : Accuracy}
    (hbinding : ∀ bound, binding = some bound → bound.field.name = used)
    (h : target.fieldAccuracy? binding used untyped = some accuracy) : used = word := by
  unfold fieldAccuracy? at h
  split at h
  next wanted =>
    split at h
    next bound =>
      split at h
      next heq =>
        rw [← hbinding bound rfl, ← hseeks.1]
        exact congrArg FieldHandle.name (beq_iff_eq.1 heq)
      next => cases h
    next =>
      split at h
      next heq =>
        rw [Bool.and_eq_true] at heq
        rw [beq_iff_eq.1 heq.2, hseeks.1]
      next => cases h
  next qualifier name params =>
    split at h
    next => cases h
    next hmatches => exact (hseeks _).1 (by simpa using hmatches)
  next => cases h

/-! ## What a reference writes -/

section Places

variable {words : String → Prop} {scope : NameScope} {locals : Locals} {found : Occurrence}

/-- An expression that stands for a type counts when the type is the target. -/
theorem isType_of_typeUse? {key : TypeKey} {accuracy : Accuracy}
    (h : target.typeUse? key = some accuracy) : target.isType key = true :=
  (Option.ite_none_right_eq_some.1 h).1

/-- A written type that is no primitive one, and is an occurrence, writes the word. -/
theorem Seeks.word_of_typeRef (hseeks : target.Seeks word) (hscope : scope.IsIn ws) (h : ws.InStep)
    (hwords : ∀ other, words other → IsWord other) {ref : TypeRef} (href : ref.WrittenIn words)
    (hprimitive : ref.isPrimitive = false) {accuracy : Accuracy}
    (hfound : target.typeAccuracy? (s.typeOfRef? scope ref) ref.segments = some accuracy) :
    words word := by
  have hlast : ref.segments.getLast? = some word := by
    refine hseeks.last_of_typeAccuracy? (fun key hkey => ?_) hfound
    exact (BoundWorkspace.simpleName_of_typeOfRef? hscope h (href.imp hwords) hkey).2
  exact href.word_of_getLast? hprimitive hlast

theorem Seeks.word_of_inTypeRef? (hseeks : target.Seeks word) (hscope : scope.IsIn ws)
    (h : ws.InStep) (hwords : ∀ other, words other → IsWord other) {ref : TypeRef}
    (href : ref.WrittenIn words) (hfound : target.inTypeRef? s scope ref = some found) :
    words word := by
  unfold inTypeRef? at hfound
  split at hfound
  next => cases hfound
  next hnot =>
    obtain ⟨accuracy, haccuracy, -⟩ := Option.map_eq_some_iff.1 hfound
    refine hseeks.word_of_typeRef hscope h hwords href ?_ haccuracy
    cases hprimitive : ref.isPrimitive with
    | false => rfl
    | true => exact absurd (by rw [hprimitive]; rfl) hnot

/-- A simple name that is an occurrence is the word. -/
theorem Seeks.name_of_inName? (hseeks : target.Seeks word) (hscope : scope.IsIn ws) (h : ws.InStep)
    {name : Ident} (hname : '.' ∉ name.text.toList)
    (hfound : target.inName? s scope locals name = some found) : name.text = word := by
  obtain ⟨accuracy, haccuracy, -⟩ := Option.map_eq_some_iff.1 hfound
  split at haccuracy
  next key _ hmeaning =>
    rw [← BoundWorkspace.simpleName_of_meaningOfName hscope h hname hmeaning]
    exact hseeks.simpleName_of_isType (isType_of_typeUse? haccuracy)
  next =>
    have hlast := hseeks.last_of_typeAccuracy? (by simp) haccuracy
    simpa using hlast
  next =>
    split at haccuracy
    next => cases haccuracy
    next =>
      exact hseeks.used_of_fieldAccuracy? (fun _ => BoundWorkspace.name_of_fieldAround?) haccuracy
  next => exact hseeks.used_of_fieldAccuracy? (by simp) haccuracy
  next => cases haccuracy

/-- A name behind a point that refers to a field is the word. -/
theorem Seeks.name_of_memberUse? (hseeks : target.Seeks word) {before : Meaning} {name : String}
    {accuracy : Accuracy} (hfound : target.memberUse? s before name = some accuracy) :
    name = word := by
  unfold memberUse? at hfound
  split at hfound
  · exact hseeks.used_of_fieldAccuracy? (fun _ => BoundWorkspace.name_of_field?) hfound
  · exact hseeks.used_of_fieldAccuracy? (fun _ => BoundWorkspace.name_of_field?) hfound
  · exact hseeks.used_of_fieldAccuracy? (by simp) hfound
  · exact hseeks.used_of_fieldAccuracy? (by simp) hfound
  · exact hseeks.used_of_fieldAccuracy? (by simp) hfound
  · cases hfound

/-- A name behind a point that is an occurrence is the word. -/
theorem Seeks.name_of_inFieldAccess? (hseeks : target.Seeks word) (hscope : scope.IsIn ws)
    (h : ws.InStep) {range : TextRange} {qualifier : Expr} {name : Ident}
    (hname : '.' ∉ name.text.toList)
    (hfound : target.inFieldAccess? s scope locals range qualifier name = some found) :
    name.text = word := by
  unfold inFieldAccess? at hfound
  dsimp only at hfound
  split at hfound
  next key _ hmeaning =>
    obtain ⟨accuracy, haccuracy, -⟩ := Option.map_eq_some_iff.1 hfound
    rw [← BoundWorkspace.simpleName_of_meaningOfMember hscope h hname hmeaning]
    exact hseeks.simpleName_of_isType (isType_of_typeUse? haccuracy)
  next => cases hfound
  next =>
    obtain ⟨accuracy, haccuracy, -⟩ := Option.map_eq_some_iff.1 hfound
    exact hseeks.name_of_memberUse? haccuracy
  next => cases hfound

/-- **An expression** that is an occurrence writes the word. -/
theorem Seeks.word_of_inExpr? (hseeks : target.Seeks word) (hscope : scope.IsIn ws) (h : ws.InStep)
    (hwords : ∀ other, words other → IsWord other) {e : Expr} (he : e.kind.NamedIn words)
    (hfound : target.inExpr? s scope locals e = some found) : words word := by
  unfold inExpr? at hfound
  split at hfound
  next name hkind =>
    rw [hkind] at he
    exact hseeks.name_of_inName? hscope h (hwords _ he).no_dot hfound ▸ he
  next qualifier name hkind =>
    rw [hkind] at he
    exact hseeks.name_of_inFieldAccess? hscope h (hwords _ he).no_dot hfound ▸ he
  next receiver name args _ hkind =>
    rw [hkind] at he
    obtain ⟨accuracy, haccuracy, -⟩ := Option.map_eq_some_iff.1 hfound
    exact hseeks.selector_of_callAccuracy? haccuracy ▸ he
  next =>
    rw [constructorUse?, hseeks.constructorAccuracy?_eq_none] at hfound
    cases hfound
  next =>
    rw [constructorUse?, hseeks.constructorAccuracy?_eq_none] at hfound
    cases hfound
  next receiver name _ hkind =>
    rw [hkind] at he
    obtain ⟨accuracy, haccuracy, -⟩ := Option.map_eq_some_iff.1 hfound
    obtain ⟨rfl, hnew⟩ := hseeks.selector_of_methodRefAccuracy? haccuracy
    exact he.resolve_right hnew
  next => cases hfound

/-- **A reference** at a place writes the word there. -/
theorem Seeks.word_of_at? (hseeks : target.Seeks word) (hscope : scope.IsIn ws) (h : ws.InStep)
    (hwords : ∀ other, words other → IsWord other) {place : Place}
    (hplace : place.node.WrittenIn words) (hfound : target.at? s scope place = some found) :
    words word := by
  cases place with
  | expr locals e => exact hseeks.word_of_inExpr? hscope h hwords hplace hfound
  | typeRef ref =>
    obtain ⟨-, href⟩ := Option.ite_none_right_eq_some.1 hfound
    exact hseeks.word_of_inTypeRef? hscope h hwords hplace href

end Places

end Target

end SourceSearch
