import SourceSearch.Proofs.DocumentWords
import SourceSearch.Proofs.Inheritance

/-!
# What a use of a constructor writes

A constructor has the name of its type, but no use of it is bound to write this name itself. Most
uses have it nearby: `new` names the type, `this(...)` stands in the type, `super(...)` stands in a
type whose head names the superclass, and `T::new` names `T`. Two uses do without
(`BoundWorkspace.UsesUnnamed`): `super(...)` in a type that writes no superclass, since it extends
the class that all classes extend, and `value::new`, since the type of a value is told from
declarations anywhere. There are no other ones (`word_or_usesUnnamed`).
-/

set_option autoImplicit false

namespace SourceSearch

variable {ws : Workspace} {s : BoundWorkspace}

/-- A call may be one of the constructor: it is bound to it, or to nothing and has as many
arguments. -/
def MethodHandle.MayBeCalled (handle : MethodHandle) (binding : Option BoundMethod)
    (arity : Nat) : Prop :=
  match binding with
  | some bound => bound.handle = handle
  | none => arity = handle.arity

instance (handle : MethodHandle) (binding : Option BoundMethod) (arity : Nat) :
    Decidable (handle.MayBeCalled binding arity) :=
  match binding with
  | some bound => inferInstanceAs (Decidable (bound.handle = handle))
  | none => inferInstanceAs (Decidable (arity = handle.arity))

/-- **An expression uses a constructor without its name**, and no name of its type is around. -/
inductive BoundWorkspace.UsesUnnamed (s : BoundWorkspace) (scope : NameScope) (locals : Locals)
    (handle : MethodHandle) : ExprKind → Prop
  /-- The call of a superclass's constructor in a type that writes no superclass. -/
  | superCall {key : TypeKey} {args : List Expr} (enclosing : scope.enclosing = some key)
      (unwritten : (s.declared? key).bind (·.superclass) = none)
      (superclass : s.superclass? key = some handle.owner)
      (call : handle.MayBeCalled (s.constructor? handle.owner (s.types scope locals args))
        args.length) :
      UsesUnnamed s scope locals handle (.constructorCall true args)
  /-- A method reference that has a value where the type could be named. -/
  | valueRef {receiver : Expr} {name : Ident} (new : name.text = "new")
      (value : s.meaning scope locals receiver = .value (.named handle.owner)) :
      UsesUnnamed s scope locals handle (.methodRef receiver name)

/-- The type around a place, and a superclass that it writes, are named by the words. -/
structure NameScope.NamedIn (words : String → Prop) (s : BoundWorkspace) (scope : NameScope) :
    Prop where
  enclosing : ∀ {key}, scope.enclosing = some key → words key.simpleName
  superclass : ∀ {key sup}, scope.enclosing = some key → s.superclass? key = some sup →
    words sup.simpleName ∨ (s.declared? key).bind (·.superclass) = none

/-! ## Types that expressions stand for -/

/-- **An expression that stands for a type** writes the type's name. -/
theorem BoundWorkspace.word_of_meaning {scope : NameScope} (hscope : scope.IsIn ws) (h : ws.InStep)
    {words : String → Prop} (hwords : ∀ other, words other → IsWord other) {locals : Locals}
    {key : TypeKey} : ∀ {e : Expr}, WrittenIn words (Walk.expr e) →
      s.meaning scope locals e = .type key → words key.simpleName
  | ⟨kind, range⟩, he, hkey => by
    rw [Walk.expr, writtenIn_cons] at he
    rw [meaning] at hkey
    cases kind with
    | name ident =>
      have hname : words ident.text := he.1
      rw [meaningOfKind] at hkey
      rw [simpleName_of_meaningOfName hscope h (hwords _ hname).no_dot hkey]
      exact hname
    | fieldAccess target member =>
      have hname : words member.text := he.1
      rw [meaningOfKind] at hkey
      rw [simpleName_of_meaningOfMember hscope h (hwords _ hname).no_dot hkey]
      exact hname
    | paren inner =>
      rw [meaningOfKind] at hkey
      exact word_of_meaning hscope h hwords he.2 hkey
    -- nothing else stands for a type
    | call target callee args =>
      rw [meaningOfKind, meaningOfCall] at hkey
      split at hkey <;> cases hkey
    | arrayAccess array index =>
      rw [meaningOfKind] at hkey
      split at hkey <;> cases hkey
    | this =>
      rw [meaningOfKind] at hkey
      split at hkey <;> cases hkey
    | super =>
      rw [meaningOfKind] at hkey
      split at hkey <;> cases hkey
    | unary op operand =>
      rw [meaningOfKind] at hkey
      split at hkey <;> cases hkey
    | conditional cond yes no =>
      rw [meaningOfKind] at hkey
      split at hkey <;> cases hkey
    | _ =>
      rw [meaningOfKind] at hkey
      cases hkey

@[simp] theorem Occurrence.isSome_at? {range : TextRange} {accuracy : Option Accuracy} :
    (Occurrence.at? range accuracy).isSome = accuracy.isSome := Option.isSome_map

namespace Target

variable {handle : MethodHandle} {hierarchy : TypeHierarchy}
  (hconstructor : handle.isConstructor = true)

include hconstructor

/-! ## Uses of a constructor -/

/-- **A call is one of a constructor** if its owner is the type, and it may be one of it, or if its
owner is not known but written. -/
theorem isSome_constructorAccuracy?_iff {owner : Option TypeKey} {binding : Option BoundMethod}
    {written : String} {arity : Nat} :
    ((method handle hierarchy).constructorAccuracy? s owner binding written arity).isSome = true ↔
      owner = none ∧ written = handle.owner.simpleName ∧ arity = handle.arity ∨
        owner = some handle.owner ∧ handle.MayBeCalled binding arity := by
  simp only [constructorAccuracy?, hconstructor, Bool.not_true, Bool.false_eq_true, if_false]
  cases owner with
  | none =>
    simp [Option.isSome_ite]
  | some key =>
    by_cases hkey : key = handle.owner
    · cases binding with
      | none =>
        by_cases harity : arity = handle.arity
        · simp [hkey, harity, MethodHandle.MayBeCalled]
          split <;> rfl
        · simp [hkey, harity, MethodHandle.MayBeCalled]
      | some bound => simp [hkey, MethodHandle.MayBeCalled]
    · simp [hkey]

/-- **A method reference is one to a constructor** if it is `new` on the type. -/
theorem isSome_methodRefAccuracy?_iff {receiver : Option TypeKey} {selector : String} :
    ((method handle hierarchy).methodRefAccuracy? receiver selector).isSome = true ↔
      selector = "new" ∧ receiver = some handle.owner := by
  simp [methodRefAccuracy?, hconstructor, Option.isSome_ite]

variable {scope : NameScope} {locals : Locals} {words : String → Prop}

/-- A constructor that `this` or `super` calls is named by the type around, or the superclass is
not written. -/
theorem word_or_usesUnnamed_of_constructorCall (hnamed : scope.NamedIn words s)
    (hword : IsWord handle.selector) {isSuper : Bool} {args : List Expr}
    (hfound : ((method handle hierarchy).constructorUse? s scope locals
      (calledOwner? s scope isSuper) (if isSuper then "super" else "this") args).isSome = true) :
    words handle.selector ∨ s.UsesUnnamed scope locals handle (.constructorCall isSuper args) := by
  have hselector : handle.selector = handle.owner.simpleName := beq_iff_eq.1 hconstructor
  rw [constructorUse?, isSome_constructorAccuracy?_iff hconstructor] at hfound
  rcases hfound with ⟨-, hwritten, -⟩ | ⟨howner, hcall⟩
  · -- neither `super` nor `this` is the name of a type
    have hreserved := hword.not_reserved
    rw [hselector, ← hwritten] at hreserved
    cases isSuper <;> exact absurd hreserved (by decide)
  · rw [howner, Option.bind_some] at hcall
    rw [hselector]
    cases isSuper with
    | false => exact Or.inl (hnamed.enclosing howner)
    | true =>
      obtain ⟨key, henclosing, hsuperclass⟩ := Option.bind_eq_some_iff.1 howner
      rcases hnamed.superclass henclosing hsuperclass with hsup | hunwritten
      · exact Or.inl hsup
      · exact Or.inr (.superCall henclosing hunwritten hsuperclass hcall)

/-- A constructor that `new` calls is written by the type after it. -/
theorem word_of_new (hscope : scope.IsIn ws) (h : ws.InStep)
    (hwords : ∀ other, words other → IsWord other) (hword : IsWord handle.selector)
    {created : TypeRef} (hcreated : created.WrittenIn words) {args : List Expr}
    (hfound : ((method handle hierarchy).constructorUse? s scope locals
      (s.typeOfRef? scope created) created.simpleName args).isSome = true) :
    words handle.selector := by
  have hselector : handle.selector = handle.owner.simpleName := beq_iff_eq.1 hconstructor
  rw [constructorUse?, isSome_constructorAccuracy?_iff hconstructor] at hfound
  have hlast : created.segments.getLast? = some handle.selector := by
    rcases hfound with ⟨-, hwritten, -⟩ | ⟨howner, -⟩
    · rw [hselector, ← hwritten, TypeRef.simpleName]
      cases hlast : created.segments.getLast? with
      | some last => rfl
      | none =>
        rw [hselector, ← hwritten, TypeRef.simpleName, hlast] at hword
        exact absurd rfl hword.ne_empty
    · rw [hselector]
      exact (BoundWorkspace.simpleName_of_typeOfRef? hscope h (hcreated.imp hwords) howner).2
  rcases hcreated with ⟨p, hp⟩ | ⟨-, hall⟩
  · rw [hp, List.getLast?_singleton] at hlast
    have hreserved := hword.not_reserved
    rw [← Option.some.inj hlast, p.ofReserved?_spelling] at hreserved
    cases hreserved
  · exact hall _ (List.mem_of_getLast? hlast)

/-- **An expression that uses a constructor** writes its name, or no name of the type is around. -/
theorem word_or_usesUnnamed (hscope : scope.IsIn ws) (h : ws.InStep)
    (hwords : ∀ other, words other → IsWord other) (hnamed : scope.NamedIn words s)
    (hword : IsWord handle.selector) {e : Expr} (he : WrittenIn words (Walk.expr e))
    (hfound : ((method handle hierarchy).inExpr? s scope locals e).isSome = true) :
    words handle.selector ∨ s.UsesUnnamed scope locals handle e.kind := by
  have hselector : handle.selector = handle.owner.simpleName := beq_iff_eq.1 hconstructor
  obtain ⟨kind, range⟩ := e
  rw [Walk.expr, writtenIn_cons] at he
  cases kind with
  | new created args body =>
    have hfound : (Occurrence.at? range _).isSome = true := hfound
    rw [Occurrence.isSome_at?] at hfound
    exact Or.inl (word_of_new hconstructor hscope h hwords hword (writtenIn_cons.1 he.2).1 hfound)
  | constructorCall isSuper args =>
    have hfound : (Occurrence.at? range _).isSome = true := hfound
    rw [Occurrence.isSome_at?] at hfound
    exact word_or_usesUnnamed_of_constructorCall hconstructor hnamed hword hfound
  | methodRef receiver name =>
    have hfound : (Occurrence.at? range _).isSome = true := hfound
    rw [Occurrence.isSome_at?, isSome_methodRefAccuracy?_iff hconstructor] at hfound
    obtain ⟨hnew, hreceiver⟩ := hfound
    cases hmeaning : s.meaning scope locals receiver with
    | value type =>
      rw [hmeaning] at hreceiver
      cases type <;> cases hreceiver
      exact Or.inr (.valueRef hnew hmeaning)
    | type key =>
      rw [hmeaning] at hreceiver
      obtain rfl := Option.some.inj hreceiver
      rw [hselector]
      exact Or.inl (BoundWorkspace.word_of_meaning hscope h hwords he.2 hmeaning)
    | _ =>
      rw [hmeaning] at hreceiver
      cases hreceiver
  | call receiver callee args =>
    simp [inExpr?, inCall?, callAccuracy?, hconstructor, Occurrence.at?, Target.kind] at hfound
  | _ => cases hfound

/-- **A use without a name** is an occurrence. -/
theorem isSome_inExpr?_of_usesUnnamed {e : Expr} (huse : s.UsesUnnamed scope locals handle e.kind) :
    ((method handle hierarchy).inExpr? s scope locals e).isSome = true := by
  obtain ⟨kind, range⟩ := e
  cases huse with
  | superCall henclosing hunwritten hsuperclass hcall =>
    have howner : calledOwner? s scope true = some handle.owner := by
      rw [calledOwner?, if_pos rfl, henclosing, Option.bind_some, hsuperclass]
    show (Occurrence.at? range _).isSome = true
    rw [Occurrence.isSome_at?, constructorUse?, isSome_constructorAccuracy?_iff hconstructor,
      howner]
    exact Or.inr ⟨rfl, hcall⟩
  | valueRef hnew hvalue =>
    show (Occurrence.at? range _).isSome = true
    rw [Occurrence.isSome_at?, isSome_methodRefAccuracy?_iff hconstructor, hvalue]
    exact ⟨hnew, rfl⟩

end Target

end SourceSearch
