import SourceSearch.Binding.Places
import SourceSearch.Proofs.Dependents
import SourceSearch.Proofs.MethodCalls
import SourceSearch.Proofs.Subtypes

/-!
# Where the types of expressions are declared

The type of an expression comes from declarations in many files: a field or a method is inherited
from a type of another project, and its written type is bound where that type is declared, with the
imports and the classpath there. Each of these steps ends where its own start leads
(`Workspace.Leads`), so an expression of a file has a type that is declared where the file leads
(`isLedTo_meaning`), provided that the locals around it have such types.

A local has a type that was written or that another expression has (`Locals.ResolvedIn`). So the
types that resolution finds for a file are declared in archives and in projects on the transitive
classpath of the file's project, and that project is among those that see them
(`resolution_afterAll_on_classpath`).
-/

set_option autoImplicit false

namespace SourceSearch

variable {ws : Workspace} {s : BoundWorkspace}

/-! ## Types and meanings in sight -/

/-- The declared type that a type is or has as its elements is where the origin leads. -/
def StaticType.IsLedTo (ws : Workspace) (start : Origin) : StaticType → Prop
  | .named key => ws.Leads start key.origin
  | .array element => element.IsLedTo ws start
  | _ => True

/-- A type that is named or that a value has is where the origin leads. -/
def Meaning.IsLedTo (ws : Workspace) (start : Origin) : Meaning → Prop
  | .value t => t.IsLedTo ws start
  | .type key => ws.Leads start key.origin
  | _ => True

/-- All locals have types that are where the origin leads. -/
def Locals.AreLedTo (ws : Workspace) (start : Origin) (locals : Locals) : Prop :=
  ∀ name type, locals.get? name = some type → type.IsLedTo ws start

namespace StaticType.IsLedTo

variable {start : Origin} {type : StaticType}

theorem trans {mid : Origin} (h : ws.Leads start mid) (htype : type.IsLedTo ws mid) :
    type.IsLedTo ws start := by
  induction type with
  | named key => exact h.trans htype
  | array element ih => exact ih htype
  | _ => exact True.intro

theorem arrayOf (htype : type.IsLedTo ws start) (dims : Nat) :
    (type.arrayOf dims).IsLedTo ws start := by
  induction dims with
  | zero => exact htype
  | succ dims ih => exact ih

/-- A written type is in sight when its declaration is. -/
theorem staticTypeOf {ref : TypeRef} {key : Option TypeKey}
    (hkey : ∀ found, key = some found → ws.Leads start found.origin) :
    (BoundWorkspace.staticTypeOf ref key).IsLedTo ws start := by
  unfold BoundWorkspace.staticTypeOf
  split
  · have hprimitive : (StaticType.primitive ref.simpleName).IsLedTo ws start := True.intro
    exact hprimitive.arrayOf ref.dims
  · cases key with
    | none =>
      have hunresolved : (StaticType.unresolved ref.simpleName).IsLedTo ws start := True.intro
      exact hunresolved.arrayOf ref.dims
    | some found =>
      have hnamed : (StaticType.named found).IsLedTo ws start := hkey found rfl
      exact hnamed.arrayOf ref.dims

end StaticType.IsLedTo

theorem Meaning.IsLedTo.staticType {start : Origin} {meaning : Meaning}
    (h : meaning.IsLedTo ws start) : meaning.staticType.IsLedTo ws start := by
  cases meaning with
  | value type => exact h
  | _ => exact True.intro

theorem Locals.areLedTo_none {start : Origin} : Locals.none.AreLedTo ws start :=
  fun _ _ h => nomatch h

theorem Locals.AreLedTo.declare {start : Origin} {locals : Locals}
    (h : locals.AreLedTo ws start) (name : String) {type : StaticType}
    (htype : type.IsLedTo ws start) : (locals.declare name type).AreLedTo ws start := by
  intro other found hfound
  rw [Locals.get?, Locals.declare, List.lookup_cons] at hfound
  split at hfound
  · obtain rfl := Option.some.inj hfound
    exact htype
  · exact h other found hfound

/-! ## Members -/

namespace BoundWorkspace.InSight

/-- **The written type of a member** is bound where the owner of the member is declared. -/
theorem isLedTo_of_memberRef (hs : s.InSight ws) (hover : s.IsOver ws) (h : ws.InStep)
    (owner : TypeKey) (ref : TypeRef) :
    (s.staticTypeOfMemberRef owner ref).IsLedTo ws owner.origin := by
  refine .staticTypeOf fun key hkey => ?_
  unfold typeOfMemberRef? at hkey
  split at hkey
  · cases hkey
  · split at hkey
    next file horigin =>
      obtain ⟨scope, hscope, hkey⟩ := Option.bind_eq_some_iff.1 hkey
      obtain ⟨home, hhome, hrest⟩ := Option.bind_eq_some_iff.1 hscope
      obtain ⟨source, hsource, hplace⟩ := Option.bind_eq_some_iff.1 hrest
      rw [horigin, Origin.file?, Option.some.injEq] at hhome
      subst hhome
      rw [hover.workspace] at hsource
      rw [horigin]
      refine (hover.standsIn_of_scope? h hsource ?_ hplace).leads_of_typeOfRef? h hs hkey
      intro around haround
      obtain rfl := Option.some.inj haround
      exact horigin
    next id horigin =>
      rw [horigin]
      exact file?_of_binaryType? hover h.archives hkey

variable {start : Origin} {receiver : TypeKey} {name : String} {args : List StaticType}

/-- A field of a type in sight belongs to a type in sight. -/
theorem leads_of_field? (hs : s.InSight ws) (hover : s.IsOver ws) (h : ws.InStep)
    (hreceiver : ws.Leads start receiver.origin) {binding : BoundField}
    (hbinding : s.field? receiver name = some binding) :
    ws.Leads start binding.owner.key.origin := by
  obtain ⟨key, hkey, hfound⟩ := List.exists_of_findSome?_eq_some hbinding
  obtain ⟨info, hinfo, hfield⟩ := Option.bind_eq_some_iff.1 hfound
  obtain ⟨field, -, rfl⟩ := Option.map_eq_some_iff.1 hfield
  rw [declared?, hover.workspace] at hinfo
  rw [(h.of_declared? hinfo).1]
  exact hs.leads_of_reflTransGen hreceiver (extends_of_mem_lookupOrder hkey)

/-- **The type of a field** of a type in sight, inherited or not. -/
theorem isLedTo_of_field? (hs : s.InSight ws) (hover : s.IsOver ws) (h : ws.InStep)
    (hreceiver : ws.Leads start receiver.origin) {binding : BoundField}
    (hbinding : s.field? receiver name = some binding) :
    (s.fieldType binding).IsLedTo ws start :=
  .trans (hs.leads_of_field? hover h hreceiver hbinding) (hs.isLedTo_of_memberRef hover h _ _)

/-- A method is looked for in types in sight; interfaces have the methods of the class that all
classes extend. -/
theorem leads_of_mem_methodOrder (hs : s.InSight ws) (hover : s.IsOver ws) (h : ws.InStep)
    (hreceiver : ws.Leads start receiver.origin) {key : TypeKey}
    (hkey : key ∈ s.methodOrder receiver) : ws.Leads start key.origin := by
  rcases List.mem_append.1 hkey with hkey | hkey
  · exact hs.leads_of_reflTransGen hreceiver (extends_of_mem_lookupOrder hkey)
  · split at hkey
    · exact hreceiver.trans (leads_of_implicitObject? hover h (Option.mem_toList.1 hkey))
    · cases hkey

/-- A method of a type in sight belongs to a type in sight. -/
theorem leads_of_method? (hs : s.InSight ws) (hover : s.IsOver ws) (h : ws.InStep)
    (hreceiver : ws.Leads start receiver.origin) {binding : BoundMethod}
    (hbinding : s.method? receiver name args = some binding) :
    ws.Leads start binding.owner.key.origin := by
  obtain ⟨key, hkey, hfound⟩ := List.exists_of_findSome?_eq_some hbinding
  obtain ⟨info, hinfo, hmethod⟩ := Option.bind_eq_some_iff.1 hfound
  obtain ⟨method, -, rfl⟩ := Option.map_eq_some_iff.1 hmethod
  rw [declared?, hover.workspace] at hinfo
  rw [(h.of_declared? hinfo).1]
  exact hs.leads_of_mem_methodOrder hover h hreceiver hkey

/-- **The type of a call** of a method of a type in sight, inherited or not. -/
theorem isLedTo_of_method? (hs : s.InSight ws) (hover : s.IsOver ws) (h : ws.InStep)
    (hreceiver : ws.Leads start receiver.origin) {binding : BoundMethod}
    (hbinding : s.method? receiver name args = some binding) :
    (s.returnType binding).IsLedTo ws start := by
  have howner := hs.leads_of_method? hover h hreceiver hbinding
  unfold returnType
  split
  · exact .trans howner (hs.isLedTo_of_memberRef hover h _ _)
  · exact howner

end BoundWorkspace.InSight

/-! ## Names and calls -/

namespace NameScope.StandsIn

variable {file : FileId} {scope : NameScope} {locals : Locals}

theorem isLedTo_of_ref (hscope : scope.StandsIn ws file) (h : ws.InStep) (hs : s.InSight ws)
    (ref : TypeRef) : (s.staticTypeOfRef scope ref).IsLedTo ws (.source file) :=
  .staticTypeOf fun _ hkey => hscope.leads_of_typeOfRef? h hs hkey

theorem isLedTo_wellKnown (hscope : scope.StandsIn ws file) (h : ws.InStep)
    (qualifiedName : String) :
    (BoundWorkspace.wellKnown scope qualifiedName).IsLedTo ws (.source file) := by
  unfold BoundWorkspace.wellKnown
  split
  next key hkey => exact hscope.leads_of_lookup? h hkey
  next => exact True.intro

theorem isLedTo_literalType (hscope : scope.StandsIn ws file) (h : ws.InStep) (literal : Literal) :
    (BoundWorkspace.literalType scope literal).IsLedTo ws (.source file) := by
  cases literal with
  | string => exact hscope.isLedTo_wellKnown h _
  | _ => exact True.intro

theorem isLedTo_operationType (hscope : scope.StandsIn ws file) (h : ws.InStep) (op : BinaryOp)
    {left : StaticType} (hleft : left.IsLedTo ws (.source file)) (right : StaticType) :
    (BoundWorkspace.operationType scope op left right).IsLedTo ws (.source file) := by
  unfold BoundWorkspace.operationType
  split
  · exact True.intro
  · split
    · exact hscope.isLedTo_wellKnown h _
    · exact hleft

/-- The types around a place are in its file. -/
theorem leads_of_mem_enclosingChain (hscope : scope.StandsIn ws file) {key : TypeKey}
    (hkey : key ∈ s.enclosingChain scope.enclosing) : ws.Leads (.source file) key.origin := by
  cases henclosing : scope.enclosing with
  | none =>
    rw [henclosing] at hkey
    cases hkey
  | some inner =>
    rw [henclosing] at hkey
    rw [BoundWorkspace.origin_of_mem_enclosingChain hkey, hscope.enclosing inner henclosing]
    exact hscope.leads_self

theorem isLedTo_meaningOfName (hscope : scope.StandsIn ws file) (h : ws.InStep)
    (hs : s.InSight ws) (hover : s.IsOver ws) (hlocals : locals.AreLedTo ws (.source file))
    (name : String) : (s.meaningOfName scope locals name).IsLedTo ws (.source file) := by
  unfold BoundWorkspace.meaningOfName
  split
  next type htype => exact hlocals name type htype
  next =>
    split
    next binding hbinding =>
      obtain ⟨around, haround, hfield⟩ := List.exists_of_findSome?_eq_some hbinding
      exact hs.isLedTo_of_field? hover h (hscope.leads_of_mem_enclosingChain haround) hfield
    next =>
      split
      next key hkey => exact hscope.leads_of_simpleType? h hs hkey
      next => split <;> exact True.intro

theorem isLedTo_meaningOfMember (hscope : scope.StandsIn ws file) (h : ws.InStep)
    (hs : s.InSight ws) (hover : s.IsOver ws) {target : Meaning}
    (htarget : target.IsLedTo ws (.source file)) (name : String) :
    (s.meaningOfMember scope target name).IsLedTo ws (.source file) := by
  unfold BoundWorkspace.meaningOfMember
  split
  next key =>
    have hkey : ws.Leads (.source file) key.origin := htarget
    split
    next binding hbinding => exact hs.isLedTo_of_field? hover h hkey hbinding
    next => exact True.intro
  next => split <;> exact True.intro
  next key =>
    have hkey : ws.Leads (.source file) key.origin := htarget
    split
    next binding hbinding => exact hs.isLedTo_of_field? hover h hkey hbinding
    next =>
      split
      next inner hinner => exact hs.leads_of_memberType? hkey hinner
      next => exact True.intro
  next outer =>
    dsimp only
    split
    next key hkey => exact hscope.leads_of_lookup? h hkey
    next => split <;> exact True.intro
  next => exact True.intro

theorem leads_of_receiverType? (hscope : scope.StandsIn ws file) (h : ws.InStep)
    {target : Meaning} (htarget : target.IsLedTo ws (.source file)) {receiver : TypeKey}
    (hreceiver : BoundWorkspace.receiverType? scope target = some receiver) :
    ws.Leads (.source file) receiver.origin := by
  unfold BoundWorkspace.receiverType? at hreceiver
  split at hreceiver
  · obtain rfl := Option.some.inj hreceiver
    exact htarget
  · obtain rfl := Option.some.inj hreceiver
    exact htarget
  · exact hscope.leads_of_lookup? h hreceiver
  · cases hreceiver

/-- What a call stands for, with or without a receiver. -/
theorem isLedTo_meaningOfCall (hscope : scope.StandsIn ws file) (h : ws.InStep)
    (hs : s.InSight ws) (hover : s.IsOver ws) {target : Option Meaning}
    (htarget : ∀ receiver, target = some receiver → receiver.IsLedTo ws (.source file))
    (name : String) (args : List StaticType) :
    (s.meaningOfCall (s.bindCall scope target name args)).IsLedTo ws (.source file) := by
  unfold BoundWorkspace.meaningOfCall
  split
  next binding hbinding =>
    cases target with
    | none =>
      dsimp only [BoundWorkspace.bindCall, BoundWorkspace.bindUnqualified] at hbinding
      split at hbinding
      next key found hfound =>
        obtain ⟨around, haround, hmethod⟩ := List.exists_of_findSome?_eq_some hfound
        obtain ⟨method, hmethod, heq⟩ := Option.map_eq_some_iff.1 hmethod
        cases heq
        obtain rfl := Option.some.inj hbinding
        exact hs.isLedTo_of_method? hover h (hscope.leads_of_mem_enclosingChain haround) hmethod
      next => cases hbinding
    | some target =>
      obtain ⟨receiver, hreceiver, hmethod⟩ := Option.bind_eq_some_iff.1 hbinding
      exact hs.isLedTo_of_method? hover h
        (hscope.leads_of_receiverType? h (htarget target rfl) hreceiver) hmethod
  next => exact True.intro

/-! ## Expressions -/

mutual

/-- **What an expression of a file stands for** is declared where the file leads. -/
theorem isLedTo_meaning (hscope : scope.StandsIn ws file) (h : ws.InStep) (hs : s.InSight ws)
    (hover : s.IsOver ws) (hlocals : locals.AreLedTo ws (.source file)) :
    ∀ e : Expr, (s.meaning scope locals e).IsLedTo ws (.source file)
  | ⟨kind, _⟩ => isLedTo_meaningOfKind hscope h hs hover hlocals kind

theorem isLedTo_meaningOfKind (hscope : scope.StandsIn ws file) (h : ws.InStep)
    (hs : s.InSight ws) (hover : s.IsOver ws) (hlocals : locals.AreLedTo ws (.source file)) :
    ∀ kind : ExprKind, (s.meaningOfKind scope locals kind).IsLedTo ws (.source file)
  | .literal literal => hscope.isLedTo_literalType h literal
  | .name ident => hscope.isLedTo_meaningOfName h hs hover hlocals ident.text
  | .fieldAccess target member =>
    hscope.isLedTo_meaningOfMember h hs hover
      (isLedTo_meaning hscope h hs hover hlocals target) member.text
  | .call target callee args =>
    hscope.isLedTo_meaningOfCall h hs hover
      (isLedTo_meaningOpt hscope h hs hover hlocals target) callee.text _
  | .new type _ _ => hscope.isLedTo_of_ref h hs type
  | .newArray type dims _ => (hscope.isLedTo_of_ref h hs type).arrayOf (max dims.length 1)
  | .arrayInit _ => True.intro
  | .arrayAccess array _ => by
    have harray := (isLedTo_meaning hscope h hs hover hlocals array).staticType
    unfold BoundWorkspace.meaningOfKind
    split
    next element heq =>
      rw [heq] at harray
      exact harray
    next => exact True.intro
  | .this => by
    unfold BoundWorkspace.meaningOfKind
    split
    next key henclosing =>
      show ws.Leads (.source file) key.origin
      rw [hscope.enclosing key henclosing]
      exact hscope.leads_self
    next => exact True.intro
  | .super => by
    unfold BoundWorkspace.meaningOfKind
    split
    next sup hsup =>
      obtain ⟨key, henclosing, hsuperclass⟩ := Option.bind_eq_some_iff.1 hsup
      have hextends : s.Extends key sup :=
        List.mem_append_left _ (Option.mem_toList.2 hsuperclass)
      have hleads := hs.leads hextends
      rw [hscope.enclosing key henclosing] at hleads
      exact hleads
    next => exact True.intro
  | .constructorCall _ _ => True.intro
  | .classLiteral _ => hscope.isLedTo_wellKnown h _
  | .assign target _ => (isLedTo_meaning hscope h hs hover hlocals target).staticType
  | .binary op lhs _ =>
    hscope.isLedTo_operationType h op (isLedTo_meaning hscope h hs hover hlocals lhs).staticType _
  | .unary op operand => by
    have hoperand := (isLedTo_meaning hscope h hs hover hlocals operand).staticType
    unfold BoundWorkspace.meaningOfKind
    split
    · exact True.intro
    · exact hoperand
  | .cast type _ => hscope.isLedTo_of_ref h hs type
  | .instanceOf _ _ => True.intro
  | .conditional _ yes no => by
    have hyes := (isLedTo_meaning hscope h hs hover hlocals yes).staticType
    have hno := (isLedTo_meaning hscope h hs hover hlocals no).staticType
    unfold BoundWorkspace.meaningOfKind
    split
    · exact hno
    · exact hno
    · exact hyes
  | .paren inner => isLedTo_meaning hscope h hs hover hlocals inner
  | .lambda _ _ => True.intro
  | .methodRef _ _ => True.intro

theorem isLedTo_meaningOpt (hscope : scope.StandsIn ws file) (h : ws.InStep) (hs : s.InSight ws)
    (hover : s.IsOver ws) (hlocals : locals.AreLedTo ws (.source file)) :
    ∀ (e : Option Expr) (receiver : Meaning), s.meaningOpt scope locals e = some receiver →
      receiver.IsLedTo ws (.source file)
  | none, _, hreceiver => nomatch hreceiver
  | some e, _, hreceiver => by
    obtain rfl := Option.some.inj hreceiver
    exact isLedTo_meaning hscope h hs hover hlocals e

end

end NameScope.StandsIn

/-! ## Locals -/

/-- The types of the locals came from resolution at the place: each is that of a written type or of
an expression among such locals, or is unknown. -/
inductive Locals.ResolvedIn (s : BoundWorkspace) (scope : NameScope) : Locals → Prop
  | none : ResolvedIn s scope .none
  | untyped {locals : Locals} (name : String) (h : locals.ResolvedIn s scope) :
    (locals.declare name .unknown).ResolvedIn s scope
  | written {locals : Locals} (name : String) (ref : TypeRef) (h : locals.ResolvedIn s scope) :
    (locals.declare name (s.staticTypeOfRef scope ref)).ResolvedIn s scope
  | valued {locals around : Locals} (name : String) (e : Expr) (h : locals.ResolvedIn s scope)
    (haround : around.ResolvedIn s scope) :
    (locals.declare name (s.typeOf scope around e)).ResolvedIn s scope

namespace Locals.ResolvedIn

variable {scope : NameScope} {locals : Locals}

/-- A local variable has a type that came from resolution. -/
theorem localVar (hlocals : locals.ResolvedIn s scope) (var : LocalVar) :
    (locals.declare var.name.text (s.localType scope locals var)).ResolvedIn s scope := by
  unfold BoundWorkspace.localType
  dsimp only
  split
  · split
    · exact hlocals.valued _ _ hlocals
    · exact hlocals.written _ _
  · exact hlocals.written _ _

/-- So have the parameters of a method. -/
theorem paramLocals (hlocals : locals.ResolvedIn s scope) (params : List Param) :
    (s.paramLocals scope locals params).ResolvedIn s scope := by
  unfold BoundWorkspace.paramLocals
  refine List.foldlRecOn (motive := ResolvedIn s scope) params _ hlocals ?_
  intro found hfound p _
  exact hfound.written _ _

/-- So have the parameters of a lambda. -/
theorem lambdaLocals (hlocals : locals.ResolvedIn s scope) (params : List LambdaParam) :
    (s.lambdaLocals scope locals params).ResolvedIn s scope := by
  unfold BoundWorkspace.lambdaLocals
  refine List.foldlRecOn (motive := ResolvedIn s scope) params _ hlocals ?_
  intro found hfound p _
  split
  · exact hfound.written _ _
  · exact hfound.untyped _

/-- **Such locals** have types that are declared where the file leads. -/
theorem areLedTo {file : FileId} (hlocals : locals.ResolvedIn s scope)
    (hscope : scope.StandsIn ws file) (h : ws.InStep) (hs : s.InSight ws) (hover : s.IsOver ws) :
    locals.AreLedTo ws (.source file) := by
  induction hlocals with
  | none => exact areLedTo_none
  | untyped name _ ih => exact ih.declare name True.intro
  | written name ref _ ih => exact ih.declare name (hscope.isLedTo_of_ref h hs ref)
  | valued name e _ _ ih iharound =>
    exact ih.declare name (hscope.isLedTo_meaning h hs hover iharound e).staticType

end Locals.ResolvedIn

/-! ## After any edits -/

/-- What a source file leads to in a source file is of its own project or of one that it depends
on, and its project is among those that see the type. -/
theorem Workspace.Leads.on_classpath (h : ws.FilesInStep) {file home : FileId} {source : SourceFile}
    (hsource : ws.source? file = some source) {key : TypeKey} (hhome : key.origin = .source home)
    (hleads : ws.Leads (.source file) key.origin) :
    ∃ target, ws.source? home = some target ∧
      (target.project = source.project ∨ source.project ∈ ws.dependents target.project) ∧
      source.project ∈ ws.projectsSeeing key := by
  obtain ⟨origin, name⟩ := key
  obtain rfl := hhome
  obtain ⟨found, hfound, target, htarget, hsees⟩ := hleads
  obtain rfl := Option.some.inj (hsource.symm.trans hfound)
  refine ⟨target, htarget, ?_, BoundWorkspace.mem_projectsSeeing_of_sees h hsource htarget hsees⟩
  obtain ⟨project, hproject⟩ := h.exists_project htarget
  by_cases hsame : target.project = source.project
  · exact Or.inl hsame
  · exact Or.inr ((Workspace.mem_dependents_iff h hproject).2 ⟨Ne.symm hsame, hsees⟩)

namespace BoundWorkspace

/-- **Resolution stays on the classpath.** In a workspace that edits have made, a type that a dotted
name stands for or that an expression has at a place of a source file, among locals whose types came
from resolution there, is declared in an archive or in a source file whose project is that of the
place or has it among its dependents. So the project of the place is among those that see the type,
also when the type comes from members that are inherited from other projects. -/
theorem resolution_afterAll_on_classpath (edits : List Edit) {file : FileId} {source : SourceFile}
    (hsource : (Workspace.initial.afterAll edits).source? file = some source)
    {enclosing : Option TypeKey}
    (henclosing : ∀ key, enclosing = some key → key.origin = .source file) {scope : NameScope}
    (hscope : (ofWorkspace (Workspace.initial.afterAll edits)).scope? source enclosing = some scope)
    {locals : Locals}
    (hlocals : locals.ResolvedIn (ofWorkspace (Workspace.initial.afterAll edits)) scope)
    {key : TypeKey} {home : FileId} (hhome : key.origin = .source home) :
    let ws := Workspace.initial.afterAll edits
    let s := ofWorkspace ws
    ((∃ segments, s.typeOfName? scope segments = some key) ∨
        ∃ e, s.typeOf scope locals e = .named key) →
      ∃ target, ws.source? home = some target ∧
        (target.project = source.project ∨ source.project ∈ ws.dependents target.project) ∧
        source.project ∈ ws.projectsSeeing key := by
  intro ws s hkey
  have h : ws.InStep := Workspace.inStep_afterAll edits
  have hs : s.InSight ws := inSight_ofWorkspace h
  have hover : s.IsOver ws := isOver_ofWorkspace ws
  have hstands : scope.StandsIn ws file := hover.standsIn_of_scope? h hsource henclosing hscope
  have hleads : ws.Leads (.source file) key.origin := by
    rcases hkey with ⟨segments, hname⟩ | ⟨e, htype⟩
    · exact hstands.leads_of_typeOfName? h hs hname
    · have htyped : (s.typeOf scope locals e).IsLedTo ws (.source file) :=
        (hstands.isLedTo_meaning h hs hover (hlocals.areLedTo hstands h hs hover) e).staticType
      rw [htype] at htyped
      exact htyped
  exact hleads.on_classpath h.files hsource hhome

/-- The class of one project has a field of its own type; another project requires the first. -/
def fieldElsewhere : List Edit :=
  [.createProject ⟨"P", [""], [], none⟩, .createFile "/P/A.java" "class A \x7b A f; \x7d",
    .createProject ⟨"Q", [""], [.project "P" false], none⟩,
    .createFile "/Q/C.java" "class C \x7b\x7d"]

/-- The type `A`, written without a package. -/
def writtenA : TypeRef := ⟨["A"], 0, .ofLength 0 1⟩

/-- The expression `a.f`. -/
def fieldOfA : Expr :=
  ⟨.fieldAccess ⟨.name ⟨"a", .ofLength 2 1⟩, .ofLength 2 1⟩ ⟨"f", .ofLength 4 1⟩, .ofLength 2 3⟩

/-- The type of a field of a variable is that of the field. -/
theorem typeOf_fieldOfA {s : BoundWorkspace} {scope : NameScope} {locals : Locals} {key : TypeKey}
    (hvar : locals.get? "a" = some (.named key)) {binding : BoundField}
    (hbinding : s.field? key "f" = some binding) :
    s.typeOf scope locals fieldOfA = s.fieldType binding := by
  have hname : s.meaningOfName scope locals "a" = .value (.named key) := by
    rw [meaningOfName, hvar]
  show (s.meaningOfMember scope (s.meaningOfName scope locals "a") "f").staticType = _
  rw [hname, meaningOfMember, hbinding]
  rfl

/-- A field of a variable is bound in the project that declares it, which the other one requires. -/
theorem typeOf_field_elsewhere :
    let ws := Workspace.initial.afterAll fieldElsewhere
    let s := ofWorkspace ws
    let a : TypeKey := ⟨.source ⟨0⟩, "A"⟩
    ∃ source scope, ws.source? ⟨1⟩ = some source ∧ s.scope? source none = some scope ∧
      s.typeOf scope (Locals.none.declare "a" (s.staticTypeOfRef scope writtenA)) fieldOfA =
        .named a ∧
      ∃ target, ws.source? ⟨0⟩ = some target ∧
        (target.project = source.project ∨ source.project ∈ ws.dependents target.project) ∧
        source.project ∈ ws.projectsSeeing a := by
  intro ws s a
  have hwritten : ((ws.source? ⟨1⟩).bind fun source => (s.scope? source none).map fun scope =>
      s.staticTypeOfRef scope writtenA) = some (.named a) := by
    decide +kernel
  have hdeclared : ((ws.declared? a).bind fun info => (info.field? "f").map fun field =>
      s.fieldType ⟨info, field⟩) = some (.named a) := by
    decide +kernel
  obtain ⟨source, hsource, hplaced⟩ := Option.bind_eq_some_iff.1 hwritten
  obtain ⟨scope, hscope, hvar⟩ := Option.map_eq_some_iff.1 hplaced
  obtain ⟨info, hinfo, hfield⟩ := Option.bind_eq_some_iff.1 hdeclared
  obtain ⟨field, hfield, htype⟩ := Option.map_eq_some_iff.1 hfield
  have hbound : s.field? a "f" = some ⟨info, field⟩ :=
    field?_of_own (chainLimit_pos ws) hinfo hfield
  have htyped : s.typeOf scope (Locals.none.declare "a" (s.staticTypeOfRef scope writtenA))
      fieldOfA = .named a := by
    rw [hvar, typeOf_fieldOfA rfl hbound, htype]
  have hlocals : (Locals.none.declare "a" (s.staticTypeOfRef scope writtenA)).ResolvedIn s scope :=
    .written "a" writtenA .none
  have henclosing : ∀ key : TypeKey, none = some key → key.origin = .source ⟨1⟩ := by
    intro key hkey
    cases hkey
  have hhome : a.origin = .source ⟨0⟩ := rfl
  exact ⟨source, scope, hsource, hscope, htyped,
    resolution_afterAll_on_classpath fieldElsewhere hsource henclosing hscope hlocals hhome
      (Or.inr ⟨fieldOfA, htyped⟩)⟩

end BoundWorkspace

end SourceSearch
