import SourceSearch.Proofs.DistinctMatches
import SourceSearch.Proofs.MethodCalls
import SourceSearch.Proofs.Subtrees

/-!
# Calls in local classes

A class that a body declares is none of the declared types of its file. Binding does not know its
methods, and takes calls in it for calls at the place of the body. So a call without a receiver
binds to a method that the declared types around it declare or inherit
(`BoundWorkspace.exists_call_iff`), even where it stands in a method of a local class that declares
a method of the name for as many arguments itself. If there is a method around, the call is told as
an exact reference to one, and if there is none, no search tells it as exact
(`search_localCalls_afterAll`).

The latter is about all searches, since no two expressions are used at one range: whatever is told
at the range of a call is told at the place of the call (`Target.exists_standsAt_of_mem_findings`).
-/

set_option autoImplicit false

namespace SourceSearch

/-- A method, but no constructor, has the name and takes so many arguments. -/
structure DeclaredMethod.Takes (m : DeclaredMethod) (name : String) (arity : Nat) : Prop where
  isConstructor : m.isConstructor = false
  name_eq : m.name = name
  acceptsArity : m.acceptsArity arity = true

/-- One of the types around declares or inherits a method of the name that takes so many arguments.
-/
def BoundWorkspace.HasMethodAround (s : BoundWorkspace) (innermost : Option TypeKey) (name : String)
    (arity : Nat) : Prop :=
  ∃ key ∈ s.enclosingChain innermost, ∃ owner ∈ s.methodOrder key, ∃ info,
    s.declared? owner = some info ∧ ∃ m ∈ info.methods, m.Takes name arity

/-- A call without a receiver stands in a method of a local class that declares a method of the name
for as many arguments itself. -/
def CompilationUnit.HasLocalCall (unit : CompilationUnit) (name : Ident) (args : List Expr)
    (range : TextRange) : Prop :=
  ∃ decl, Node.stmt (.localClass decl) ∈ Walk.unit unit ∧
    (∃ head body, .method head body ∈ decl.members ∧
      Node.expr ⟨.call none name args, range⟩ ∈ Walk.methodBody body) ∧
    ∃ head body, .method head body ∈ decl.members ∧
      (DeclaredMethod.ofHead head).Takes name.text args.length

/-- Such a call is one of the calls of the unit. -/
theorem CompilationUnit.HasLocalCall.mem_walk {unit : CompilationUnit} {name : Ident}
    {args : List Expr} {range : TextRange} (h : unit.HasLocalCall name args range) :
    Node.expr ⟨.call none name args, range⟩ ∈ Walk.unit unit := by
  obtain ⟨decl, hlocal, ⟨head, body, hmethod, hcall⟩, -⟩ := h
  refine Walk.closed_unit unit _ hlocal ?_
  have hmember : Node.expr ⟨.call none name args, range⟩ ∈ Walk.member (.method head body) := by
    rw [Walk.member]
    exact List.mem_append_right _ hcall
  rw [Node.under, Walk.stmt]
  exact List.mem_cons_of_mem _ (Walk.member_subset hmethod hmember)

/-! ## What a call without a receiver binds to -/

namespace BoundWorkspace

variable {s : BoundWorkspace} {scope : NameScope} {locals : Locals} {name : Ident}
  {args : List Expr}

theorem length_types (s : BoundWorkspace) (scope : NameScope) (locals : Locals)
    (args : List Expr) : (s.types scope locals args).length = args.length := by
  induction args with
  | nil => rfl
  | cons e es ih => rw [types, List.length_cons, List.length_cons, ih]

/-- The candidates for a call are the methods that take it. -/
theorem mem_candidates_iff {info : DeclaredType} {name : String} {arity : Nat}
    {m : DeclaredMethod} : m ∈ (info.methodsNamed name).filter (·.acceptsArity arity) ↔
      m ∈ info.methods ∧ m.Takes name arity := by
  simp only [DeclaredType.methodsNamed, List.mem_filter, Bool.and_eq_true, beq_iff_eq,
    Bool.not_eq_true']
  constructor
  · rintro ⟨⟨hm, hname, hplain⟩, harity⟩
    exact ⟨hm, hplain, hname, harity⟩
  · rintro ⟨hm, hplain, hname, harity⟩
    exact ⟨⟨hm, hname, hplain⟩, harity⟩

theorem of_ownMethod? {info : DeclaredType} {name : String} {args : List StaticType}
    {m : DeclaredMethod} (h : ownMethod? info name args = some m) :
    m ∈ info.methods ∧ m.Takes name args.length :=
  mem_candidates_iff.1 (mem_of_bestOverload? h)

theorem exists_ownMethod? {info : DeclaredType} {m : DeclaredMethod} (hm : m ∈ info.methods)
    {name : String} {args : List StaticType} (htakes : m.Takes name args.length) :
    ∃ own, ownMethod? info name args = some own := by
  have hmem := mem_candidates_iff.2 ⟨hm, htakes⟩
  unfold ownMethod?
  cases hmethods : (info.methodsNamed name).filter (·.acceptsArity args.length) with
  | nil =>
    rw [hmethods] at hmem
    cases hmem
  | cons first others => exact ⟨_, rfl⟩

/-- **A method that a call binds to** is declared or inherited by the receiver and takes the call. -/
theorem of_method? {receiver : TypeKey} {name : String} {args : List StaticType}
    {binding : BoundMethod} (h : s.method? receiver name args = some binding) :
    ∃ owner ∈ s.methodOrder receiver, s.declared? owner = some binding.owner ∧
      binding.method ∈ binding.owner.methods ∧ binding.method.Takes name args.length := by
  obtain ⟨owner, howner, hfound⟩ := List.exists_of_findSome?_eq_some h
  obtain ⟨info, hinfo, hown⟩ := Option.bind_eq_some_iff.1 hfound
  obtain ⟨m, hm, rfl⟩ := Option.map_eq_some_iff.1 hown
  exact ⟨owner, howner, hinfo, of_ownMethod? hm⟩

theorem exists_method? {receiver owner : TypeKey} (howner : owner ∈ s.methodOrder receiver)
    {info : DeclaredType} (hinfo : s.declared? owner = some info) {m : DeclaredMethod}
    (hm : m ∈ info.methods) {name : String} {args : List StaticType}
    (htakes : m.Takes name args.length) :
    ∃ binding, s.method? receiver name args = some binding := by
  obtain ⟨own, hown⟩ := exists_ownMethod? hm htakes
  refine Option.isSome_iff_exists.1 (List.findSome?_isSome_iff.2 ⟨owner, howner, ?_⟩)
  rw [hinfo, Option.bind_some, hown]
  rfl

/-- **A call without a receiver** binds to a method that a type around declares or inherits. -/
theorem of_call {binding : BoundMethod}
    (h : (s.call scope locals none name args).method = some binding) :
    ∃ key ∈ s.enclosingChain scope.enclosing, ∃ owner ∈ s.methodOrder key,
      s.declared? owner = some binding.owner ∧ binding.method ∈ binding.owner.methods ∧
        binding.method.Takes name.text args.length := by
  rw [call, meaningOpt, bindCall, bindUnqualified] at h
  split at h
  next found hfound =>
    obtain rfl := Option.some.inj h
    obtain ⟨key, hkey, hmethod⟩ := List.exists_of_findSome?_eq_some hfound
    obtain ⟨m, hm, heq⟩ := Option.map_eq_some_iff.1 hmethod
    obtain ⟨-, rfl⟩ := Prod.mk.inj heq
    have hbound := of_method? hm
    rw [s.length_types] at hbound
    exact ⟨key, hkey, hbound⟩
  next => cases h

/-- A call without a receiver binds to something iff there is a method around that takes it. -/
theorem exists_call_iff :
    (∃ binding, (s.call scope locals none name args).method = some binding) ↔
      s.HasMethodAround scope.enclosing name.text args.length := by
  constructor
  · rintro ⟨binding, hbinding⟩
    obtain ⟨key, hkey, owner, howner, hinfo, hm⟩ := of_call hbinding
    exact ⟨key, hkey, owner, howner, _, hinfo, _, hm⟩
  · rintro ⟨key, hkey, owner, howner, info, hinfo, m, hm, htakes⟩
    rw [← s.length_types scope locals args] at htakes
    obtain ⟨binding, hbinding⟩ := exists_method? howner hinfo hm htakes
    have hsome : ((s.enclosingChain scope.enclosing).findSome? fun key =>
        (s.method? key name.text (s.types scope locals args)).map fun m => (key, m)).isSome := by
      refine List.findSome?_isSome_iff.2 ⟨key, hkey, ?_⟩
      rw [hbinding]
      rfl
    obtain ⟨⟨around, found⟩, hfound⟩ := Option.isSome_iff_exists.1 hsome
    rw [call, meaningOpt, bindCall, bindUnqualified, hfound]
    exact ⟨found, rfl⟩

end BoundWorkspace

/-! ## Places of expressions -/

section Places

variable {ws : Workspace} {s : BoundWorkspace} {scope : NameScope} {locals : Locals} {e : Expr}
  {file : SourceFile} {range : TextRange}

/-- **The innermost type around a use** is the type of the place where the expression stands. -/
theorem SourceFile.StandsAt.enclosing_eq (hstands : file.StandsAt s scope locals e)
    (hover : s.IsOver ws) (h : ws.FilesInStep) {id : FileId} (hfile : ws.source? id = some file)
    (hrange : range ∈ (Node.expr e).used) : scope.enclosing = file.enclosingType? range := by
  obtain ⟨top, htop, info, hinfo, rfl, decl, hdecl, member, hmember, hplain, hplace⟩ := hstands
  obtain ⟨hunit, -⟩ := hover.of_scope? htop
  obtain ⟨border, hi, hread⟩ := h.unit_readIn hfile hunit
  obtain ⟨opening, hlaid⟩ :=
    (hread.nodes _ (DeclaredType.walk_subset hdecl (Walk.type_mem decl))).ordered
  have hnode := s.memberPlaces_subset _ .none member _ hplace
  have howns : decl.Owns range :=
    hlaid.owns_of_member hmember hplain fun hlies => (hlies _ hnode).used hrange
  exact (SourceFile.enclosingType?_of_owns hunit (h.types_eq hfile hunit) hread hinfo hdecl
    howns).symm

/-- **What is found where an expression is used** is found at a place of the expression. -/
theorem Target.exists_standsAt_of_mem_findings (hover : s.IsOver ws) (h : ws.FilesInStep)
    {id : FileId} (hfile : ws.source? id = some file) {unit : CompilationUnit}
    (hunit : file.unit? = some unit) (he : .expr e ∈ Walk.unit unit) {target : Target}
    {limitTo : LimitTo} {coverage : Coverage} {found : Finding}
    (hfound : found ∈ target.findings s limitTo coverage file) (hkind : found.kind = .reference)
    (hrange : found.occurrence.range ∈ (Node.expr e).used) :
    ∃ scope locals, file.StandsAt s scope locals e ∧
      target.inExpr? s scope locals e = some found.occurrence := by
  obtain ⟨top, htop, hfound⟩ := exists_of_mem_findings hfound hkind
  obtain ⟨htopUnit, -⟩ := hover.of_scope? htop
  obtain rfl := Option.some.inj (htopUnit.symm.trans hunit)
  obtain ⟨border, hi, hread⟩ := h.unit_readIn hfile hunit
  have hsame : ∀ {node : Node}, node ∈ Walk.unit top.unit →
      found.occurrence.range ∈ node.used → node = .expr e := fun hnode hused =>
    (hread.spaced.eq_of_used hnode he hused hrange).resolve_right fun ⟨_, _, heq⟩ => by cases heq
  rcases hfound with ⟨-, i, himport, hfound⟩ | ⟨info, hinfo, decl, hdecl, hfound⟩
  · -- all imports stand before the expression
    have hlies := (hread.imports i himport).lies
    rw [← range_of_inImport? hfound] at hlies
    exact absurd rfl (TextRange.ne_of_liesIn hlies ((hread.nodes _ he).lies.used hrange))
  · have hsub := DeclaredType.walk_subset hdecl
    rw [references_eq] at hfound
    rcases List.mem_append.1 hfound with hfound | hfound
    · obtain ⟨o, ho, rfl⟩ := List.mem_map.1 hfound
      obtain ⟨ref, href, ho⟩ := List.mem_filterMap.1 ho
      cases hsame (hsub (supertype_mem href)) (mem_used_of_at? ho)
    · obtain ⟨labelled, hlabelled, hfound⟩ := List.mem_filterMap.1 hfound
      obtain ⟨o, ho, rfl⟩ := Option.map_eq_some_iff.1 hfound
      obtain ⟨⟨label, places⟩, hplaces, hlabelled⟩ := List.mem_flatMap.1 hlabelled
      obtain ⟨place, hplace, rfl⟩ := List.mem_map.1 hlabelled
      obtain ⟨member, hmember, hplaces⟩ := List.mem_filterMap.1 hplaces
      obtain ⟨hplain, rfl⟩ := exists_memberPlaces_eq_iff.1 ⟨_, hplaces⟩
      have hnode := Walk.member_subset hmember (s.memberPlaces_subset _ .none member _ hplace)
      have heq := hsame (hsub hnode) (mem_used_of_at? ho)
      cases place with
      | expr locals other =>
        obtain rfl := Node.expr.inj heq
        exact ⟨_, locals, ⟨top, htop, info, hinfo, rfl, decl, hdecl, member, hmember, hplain,
          hplace⟩, ho⟩
      | typeRef ref => cases heq

end Places

/-! ## Exact references -/

namespace Target

variable {target : Target} {s : BoundWorkspace} {scope : NameScope} {locals : Locals}

theorem exists_method_of_callAccuracy? {call : BoundCall} {selector : String} {arity : Nat}
    (h : target.callAccuracy? call selector arity = some .exact) :
    ∃ binding, call.method = some binding := by
  cases hmethod : call.method with
  | some binding => exact ⟨binding, rfl⟩
  | none =>
    -- what binds to nothing is inaccurate at most
    unfold callAccuracy? at h
    rw [hmethod] at h
    split at h
    · split at h
      · cases h
      · dsimp only at h
        split at h <;> cases h
    · split at h
      · cases h
      · dsimp only at h
        split at h <;> cases h
    · cases h

/-- **A call that is told as exact** binds to a method. -/
theorem exists_method_of_inExpr? {receiver : Option Expr} {name : Ident} {args : List Expr}
    {range : TextRange} {o : Occurrence}
    (ho : target.inExpr? s scope locals ⟨.call receiver name args, range⟩ = some o)
    (hexact : o.accuracy = .exact) :
    ∃ binding, (s.call scope locals receiver name args).method = some binding := by
  cases hkind : target.kind with
  | method =>
    simp only [inExpr?, hkind] at ho
    obtain ⟨accuracy, haccuracy, rfl⟩ := Option.map_eq_some_iff.1 ho
    obtain rfl : accuracy = .exact := hexact
    exact exists_method_of_callAccuracy? haccuracy
  | _ =>
    simp only [inExpr?, hkind] at ho
    cases ho

end Target

namespace Searchable

variable {ws : Workspace} {file : FileId} {source : SourceFile} {unit : CompilationUnit}
  {name : Ident} {args : List Expr} {range : TextRange}

/-- The range at which a call is told. -/
theorem mem_used_call (receiver : Option Expr) (name : Ident) (args : List Expr)
    (range : TextRange) : TextRange.upTo name.range.start range.stop ∈
      (Node.expr ⟨.call receiver name args, range⟩).used :=
  List.mem_singleton.2 rfl

/-- **A call without a receiver that is told as exact**, whatever is searched for, has a method
around that takes it. -/
theorem hasMethodAround_of_isExactReference (h : ws.InStep)
    (hsource : ws.source? file = some source) (hunit : source.unit? = some unit)
    (hcall : Node.expr ⟨.call none name args, range⟩ ∈ Walk.unit unit) {pattern : SearchPattern}
    {scope : SearchScope} {found : List Match}
    (hfound : (ofWorkspace ws).search pattern scope = .ok found) {reference : Match}
    (hreference : reference ∈ found)
    (hexact : reference.IsExactReference file (.upTo name.range.start range.stop)) :
    (BoundWorkspace.ofWorkspace ws).HasMethodAround
      (source.enclosingType? (.upTo name.range.start range.stop)) name.text args.length := by
  have hover := BoundWorkspace.isOver_ofWorkspace ws
  obtain ⟨target, -, hlocated⟩ := bind_eq_ok_iff.1 hfound
  obtain rfl := Except.ok.inj hlocated
  obtain ⟨doc, -, hm⟩ := List.mem_flatMap.1 hreference
  obtain ⟨id, other, hother, finding, hfinding, rfl⟩ :=
    exists_finding_of_mem_locate (List.mem_mergeSort.1 hm) hexact.kind
  replace hother : ws.source? id = some other := hother
  obtain rfl : id = file :=
    (h.files.source_id hother).symm.trans (Option.some.inj hexact.file)
  obtain rfl := Option.some.inj (hother.symm.trans hsource)
  have hrange : finding.occurrence.range = .upTo name.range.start range.stop :=
    Option.some.inj hexact.range
  have hused := mem_used_call none name args range
  obtain ⟨place, locals, hstands, ho⟩ := Target.exists_standsAt_of_mem_findings hover h.files hother
    hunit hcall hfinding hexact.kind (hrange ▸ hused)
  rw [← hstands.enclosing_eq hover h.files hother hused]
  exact BoundWorkspace.exists_call_iff.1 (Target.exists_method_of_inExpr? ho hexact.accuracy)

/-- **Calls in local classes.** After any edits, a call without a receiver in a method of a local
class that declares a method of the name for as many arguments itself, in any parsed file. The call
stands in the innermost declared type around it, and binds to something iff one of the declared
types around declares or inherits a method that takes it. What it binds to is such a method, never
one of the local class, and the call is told as an exact reference to it unless it is named like its
type. If there is no such method around, no search at all tells the call as an exact reference. -/
theorem search_localCalls_afterAll (edits : List Edit)
    (hsource : (Workspace.initial.afterAll edits).source? file = some source)
    (hunit : source.unit? = some unit) (hcall : unit.HasLocalCall name args range) :
    let ws := Workspace.initial.afterAll edits
    let s := BoundWorkspace.ofWorkspace ws
    let told := TextRange.upTo name.range.start range.stop
    let innermost := source.enclosingType? told
    ∃ scope locals, source.StandsAt s scope locals ⟨.call none name args, range⟩ ∧
      scope.enclosing = innermost ∧
      ((∃ binding, (s.call scope locals none name args).method = some binding) ↔
        s.HasMethodAround innermost name.text args.length) ∧
      (∀ binding, (s.call scope locals none name args).method = some binding →
        (∃ key ∈ s.enclosingChain innermost, binding.owner.key ∈ s.methodOrder key) ∧
        ws.declared? binding.owner.key = some binding.owner ∧
        binding.method ∈ binding.owner.methods ∧ binding.method.Takes name.text args.length ∧
        (binding.method.name ≠ binding.owner.simpleName → ∃ found,
          (ofWorkspace ws).search ⟨.method binding.handle, .references⟩ (.workspace ws) =
            .ok found ∧
          ∃ reference ∈ found, reference.IsExactReference file told)) ∧
      (¬s.HasMethodAround innermost name.text args.length →
        ∀ pattern scope found, (ofWorkspace ws).search pattern scope = .ok found →
          ∀ reference ∈ found, ¬reference.IsExactReference file told) := by
  intro ws s told innermost
  have h : ws.InStep := Workspace.inStep_afterAll edits
  have hover : s.IsOver ws := BoundWorkspace.isOver_ofWorkspace ws
  obtain ⟨env, htop⟩ := hover.exists_scope? h.files hsource hunit
  have hiscall : Expr.IsCall ⟨.call none name args, range⟩ := True.intro
  obtain ⟨scope, locals, hstands⟩ := SourceFile.exists_standsAt htop
    (h.files.types_eq hsource hunit) hiscall hcall.mem_walk
  have henclosing : scope.enclosing = innermost :=
    hstands.enclosing_eq hover h.files hsource (mem_used_call none name args range)
  refine ⟨scope, locals, hstands, henclosing, henclosing ▸ BoundWorkspace.exists_call_iff,
    fun binding hbinding => ?_, fun hnone pattern scope found hfound reference hreference hexact =>
      hnone (hasMethodAround_of_isExactReference h hsource hunit hcall.mem_walk hfound hreference
        hexact)⟩
  obtain ⟨key, hkey, owner, howner, hinfo, hm, htakes⟩ := BoundWorkspace.of_call hbinding
  obtain rfl : binding.owner.key = owner := (h.of_declared? hinfo).1
  rw [henclosing] at hkey
  refine ⟨⟨key, hkey, howner⟩, hinfo, hm, htakes, fun hname => ?_⟩
  have htarget := ofPattern_of_declared h hinfo hm
  obtain ⟨found, hfound⟩ : ∃ found, (ofWorkspace ws).search
      ⟨.method binding.handle, .references⟩ (.workspace ws) = .ok found :=
    ⟨_, bind_eq_ok_iff.2 ⟨_, htarget, rfl⟩⟩
  exact ⟨found, hfound, exists_mem_search_of_binds h (beq_eq_false_iff_ne.2 hname) htarget hfound
    hsource hstands hbinding rfl⟩

/-- A method of a class declares a class with a method of the same name, which it calls. -/
def localMethodText : String :=
  "class X \x7b void m() \x7b\x7d void k() \x7b " ++
    "class L \x7b void m() \x7b\x7d void n() \x7b m(); \x7d \x7d \x7d \x7d"

/-- A project with the class. -/
def localMethod : List Edit :=
  [.createProject ⟨"P", [""], [], none⟩, .createFile "/P/X.java" localMethodText]

/-- Whether a local class has a method of the name without parameters, and a method that calls
something by that name, without arguments. -/
def callsOwn (text : String) : Node → Bool
  | .stmt (.localClass decl) =>
    (decl.members.any fun
      | .method _ body => (Walk.methodBody body).any (callsPlainly text)
      | _ => false) &&
    decl.members.any fun
      | .method head _ =>
        let m := DeclaredMethod.ofHead head
        !m.isConstructor && m.name == text && m.acceptsArity 0
      | _ => false
  | _ => false

theorem exists_hasLocalCall {text : String} (h : (Walk.unit unit).any (callsOwn text) = true) :
    ∃ name range, name.text = text ∧ unit.HasLocalCall name [] range := by
  obtain ⟨node, hnode, hown⟩ := List.any_eq_true.1 h
  unfold callsOwn at hown
  split at hown
  next decl =>
    rw [Bool.and_eq_true, List.any_eq_true, List.any_eq_true] at hown
    obtain ⟨⟨caller, hcaller, hcalls⟩, callee, hcallee, htakes⟩ := hown
    split at hcalls
    next body =>
      obtain ⟨inner, hinner, hplain⟩ := List.any_eq_true.1 hcalls
      unfold callsPlainly at hplain
      split at hplain
      next name range =>
        obtain rfl := eq_of_beq hplain
        split at htakes
        next head _ =>
          simp only [Bool.and_eq_true, Bool.not_eq_true', beq_iff_eq] at htakes
          obtain ⟨⟨hconstructor, hname⟩, harity⟩ := htakes
          exact ⟨name, range, rfl, decl, hnode, ⟨_, _, hcaller, hinner⟩, head, _, hcallee,
            hconstructor, hname, harity⟩
        next => cases htakes
      next => cases hplain
    next => cases hcalls
  next => cases hown

/-- The call of the local class's own method binds to the method of the class around it, and is told
as an exact reference to that one. -/
theorem search_localCalls_localMethod :
    let ws := Workspace.initial.afterAll localMethod
    ∃ source unit name range info m found, ws.source? ⟨0⟩ = some source ∧
      source.unit? = some unit ∧ unit.HasLocalCall name [] range ∧
      ws.declared? ⟨.source ⟨0⟩, "X"⟩ = some info ∧ m ∈ info.methods ∧ m.Takes name.text 0 ∧
      (ofWorkspace ws).search ⟨.method (m.handle ⟨.source ⟨0⟩, "X"⟩), .references⟩
        (.workspace ws) = .ok found ∧
      ∃ reference ∈ found, reference.IsExactReference ⟨0⟩ (.upTo name.range.start range.stop) := by
  intro ws
  have h := Workspace.inStep_afterAll localMethod
  obtain ⟨source, hsource, htypes, hdeclared, hwalk⟩ : ∃ source : SourceFile,
      ws.source? ⟨0⟩ = some source ∧
      (∀ info ∈ source.types, info.key = ⟨.source ⟨0⟩, "X"⟩) ∧
      (source.declared? "X").any (fun info =>
        (BoundWorkspace.ownMethod? info "m" []).isSome) = true ∧
      source.unit?.any (fun unit => (Walk.unit unit).any (callsOwn "m")) = true := by
    refine ⟨.ofText ⟨0⟩ "P" "X.java" localMethodText, h.files.source_iff.2
      ⟨"P", "X.java", localMethodText, ?_, ?_, ?_, rfl⟩, ?_, ?_, ?_⟩
    all_goals decide +kernel
  obtain ⟨unit, hunit, hnodes⟩ := (Option.any_eq_true _ _).1 hwalk
  obtain ⟨name, range, hname, hcall⟩ := exists_hasLocalCall hnodes
  obtain ⟨info, hlisted, hown⟩ := (Option.any_eq_true _ _).1 hdeclared
  obtain ⟨m, hm⟩ := Option.isSome_iff_exists.1 hown
  have hinfo : ws.declared? ⟨.source ⟨0⟩, "X"⟩ = some info := by
    simp only [Workspace.declared?, hsource, Option.bind_some, hlisted]
  have hkey : info.key = ⟨.source ⟨0⟩, "X"⟩ := htypes info (List.mem_of_find?_eq_some hlisted)
  obtain ⟨scope, locals, hstands, -, -, hbound, -⟩ :=
    search_localCalls_afterAll localMethod hsource hunit hcall
  have henclosing : scope.enclosing = some ⟨.source ⟨0⟩, "X"⟩ := by
    obtain ⟨top, -, around, haround, rfl, -⟩ := hstands
    exact congrArg some (htypes around haround)
  have hbinds : ((BoundWorkspace.ofWorkspace ws).call scope locals none name []).method =
      some ⟨info, m⟩ := by
    refine BoundWorkspace.call_of_own (BoundWorkspace.chainLimit_pos ws) henclosing hinfo ?_
    rw [BoundWorkspace.types, hname]
    exact hm
  obtain ⟨-, -, hmem, htakes, hfound⟩ := hbound _ hbinds
  have hne : m.name ≠ info.simpleName := by
    rw [DeclaredType.simpleName, hkey, htakes.name_eq, hname]
    decide +kernel
  obtain ⟨found, hfound, hreference⟩ := hfound hne
  have hhandle : BoundMethod.handle ⟨info, m⟩ = m.handle ⟨.source ⟨0⟩, "X"⟩ :=
    congrArg m.handle hkey
  rw [hhandle] at hfound
  exact ⟨source, unit, name, range, info, m, found, hsource, hunit, hcall, hinfo, hmem, htakes,
    hfound, hreference⟩

end Searchable

end SourceSearch
