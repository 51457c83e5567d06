import Mathlib.Data.List.Basic
import SourceSearch.Proofs.DeclaredTypes
import SourceSearch.Proofs.Places

/-!
# Every call has a place

Binding walks through the bodies of types with the locals at hand, and leaves out what stands before
the last point of a qualified name of a type. A call is never in such a name
(`not_mem_walk_of_meaning`), so each call of a body has a place (`reaches_memberPlaces`). And each
call of a unit stands in a body of one of the types that the unit declares
(`exists_own_of_mem_walk_unit`).
-/

set_option autoImplicit false

namespace SourceSearch

/-- An expression that calls a method. -/
def Expr.IsCall (e : Expr) : Prop :=
  match e.kind with
  | .call _ _ _ => True
  | _ => False

/-- Each call among the nodes has a place with the locals at it. -/
def Reaches (places : List Place) (nodes : List Node) : Prop :=
  ∀ e : Expr, e.IsCall → Node.expr e ∈ nodes → ∃ locals, Place.expr locals e ∈ places

namespace Reaches

variable {places more : List Place} {nodes others : List Node}

theorem of_noCall (h : ∀ e : Expr, e.IsCall → Node.expr e ∉ nodes) : Reaches places nodes :=
  fun e hcall hmem => absurd hmem (h e hcall)

theorem nil : Reaches places [] := of_noCall (by simp)

theorem typeRefs (refs : List TypeRef) : Reaches places (refs.map .typeRef) :=
  of_noCall (by simp)

theorem append (h : Reaches places nodes) (h' : Reaches more others) :
    Reaches (places ++ more) (nodes ++ others) := by
  intro e hcall hmem
  rcases List.mem_append.1 hmem with hmem | hmem
  · obtain ⟨locals, hplace⟩ := h e hcall hmem
    exact ⟨locals, List.mem_append_left _ hplace⟩
  · obtain ⟨locals, hplace⟩ := h' e hcall hmem
    exact ⟨locals, List.mem_append_right _ hplace⟩

/-- A node that is no expression needs no place. -/
theorem skip {node : Node} (h : Reaches places nodes) (hnode : ∀ e, node ≠ .expr e) :
    Reaches places (node :: nodes) := by
  intro e hcall hmem
  rcases List.mem_cons.1 hmem with heq | hmem
  · exact absurd heq.symm (hnode e)
  · exact h e hcall hmem

theorem typeRef {ref : TypeRef} (h : Reaches places nodes) :
    Reaches (.typeRef ref :: places) (.typeRef ref :: nodes) := by
  refine Reaches.skip (fun e hcall hmem => ?_) fun _ => nofun
  obtain ⟨locals, hplace⟩ := h e hcall hmem
  exact ⟨locals, List.mem_cons_of_mem _ hplace⟩

/-- An expression stands at its place. -/
theorem expr {locals : Locals} {e : Expr} (h : Reaches places nodes) :
    Reaches (.expr locals e :: places) (.expr e :: nodes) := by
  intro other hcall hmem
  rcases List.mem_cons.1 hmem with heq | hmem
  · obtain rfl := Node.expr.inj heq
    exact ⟨locals, List.mem_cons_self⟩
  · obtain ⟨locals', hplace⟩ := h other hcall hmem
    exact ⟨locals', List.mem_cons_of_mem _ hplace⟩

end Reaches

/-- A meaning that is no value: a type or a package. -/
def Meaning.IsName : Meaning → Prop
  | .type _ => True
  | .package _ => True
  | _ => False

namespace BoundWorkspace

variable (s : BoundWorkspace) (scope : NameScope)

/-! ## Qualified names -/

theorem isName_of_meaningOfMember {before : Meaning} (name : String)
    (h : (s.meaningOfMember scope before name).IsName) : before.IsName := by
  unfold meaningOfMember at h
  split at h
  · split at h <;> cases h
  · split at h <;> cases h
  · exact True.intro
  · exact True.intro
  · cases h

/-- **No call** is in an expression that stands for a type or a package. -/
theorem not_mem_walk_of_isName (locals : Locals) {call : Expr} (hcall : call.IsCall) :
    ∀ {e : Expr}, (s.meaning scope locals e).IsName → Node.expr call ∉ Walk.expr e
  | ⟨kind, range⟩, h => by
    have hself : ∀ {nodes : List Node}, Expr.IsCall ⟨kind, range⟩ = False →
        Node.expr call ∉ nodes → Node.expr call ∉ .expr ⟨kind, range⟩ :: nodes := by
      intro nodes hkind hnodes hmem
      rcases List.mem_cons.1 hmem with heq | hmem
      · rw [← Node.expr.inj heq] at hkind
        exact hkind ▸ hcall
      · exact hnodes hmem
    rw [meaning] at h
    rw [Walk.expr]
    cases kind with
    | name ident => exact hself rfl (by rw [Walk.exprKind]; exact List.not_mem_nil)
    | fieldAccess target member =>
      rw [meaningOfKind] at h
      rw [Walk.exprKind]
      exact hself rfl (not_mem_walk_of_isName locals hcall (s.isName_of_meaningOfMember scope _ h))
    | paren inner =>
      rw [meaningOfKind] at h
      rw [Walk.exprKind]
      exact hself rfl (not_mem_walk_of_isName locals hcall h)
    -- everything else is a value or stands for nothing
    | call target callee args =>
      rw [meaningOfKind, meaningOfCall] at h
      split at h <;> cases h
    | arrayAccess array index =>
      rw [meaningOfKind] at h
      split at h <;> cases h
    | this =>
      rw [meaningOfKind] at h
      split at h <;> cases h
    | super =>
      rw [meaningOfKind] at h
      split at h <;> cases h
    | unary op operand =>
      rw [meaningOfKind] at h
      split at h <;> cases h
    | conditional cond yes no =>
      rw [meaningOfKind] at h
      split at h <;> cases h
    | _ =>
      rw [meaningOfKind] at h
      cases h

theorem reaches_of_isTypeAccess {locals : Locals} {target : Expr} {name : Ident}
    (h : s.isTypeAccess scope locals target name = true) :
    Reaches [] (Walk.expr target) := by
  refine .of_noCall fun e hcall => s.not_mem_walk_of_isName scope locals hcall ?_
  refine s.isName_of_meaningOfMember scope name.text ?_
  unfold isTypeAccess at h
  split at h
  next key hkey =>
    rw [hkey]
    exact True.intro
  next => cases h

/-! ## Bodies -/

mutual

theorem reaches_typePlaces (locals : Locals) :
    ∀ decl : TypeDecl, Reaches (s.typePlaces scope locals decl) (Walk.typeDecl decl)
  | ⟨head, members⟩ => by
    rw [typePlaces, Walk.typeDecl, List.cons_append]
    exact ((Reaches.typeRefs _).append (reaches_membersPlaces locals members)).skip fun _ => nofun

theorem reaches_membersPlaces (locals : Locals) :
    ∀ ms : List Member, Reaches (s.membersPlaces scope locals ms) (Walk.members ms)
  | [] => by
    rw [Walk.members]
    exact .nil
  | m :: ms => by
    rw [membersPlaces, Walk.members]
    exact (reaches_memberPlaces locals m).append (reaches_membersPlaces locals ms)

/-- **Each call of a member** has a place. -/
theorem reaches_memberPlaces (locals : Locals) :
    ∀ m : Member, Reaches (s.memberPlaces scope locals m) (Walk.member m)
  | .field head init => by
    rw [memberPlaces, Walk.member, List.cons_append]
    refine Reaches.skip (Reaches.append ?_ (reaches_exprOptPlaces locals init)) fun _ => nofun
    exact .of_noCall fun e _ => by split <;> simp
  | .method head body => by
    rw [memberPlaces, Walk.member, List.cons_append]
    exact ((Reaches.typeRefs _).append (reaches_bodyPlaces _ body)).skip fun _ => nofun
  | .initializer isStatic ⟨body, range⟩ _ => by
    rw [memberPlaces, blockPlaces, Walk.member]
    exact (reaches_stmtsPlaces locals body).skip fun _ => nofun
  | .type decl => by
    rw [memberPlaces, Walk.member]
    exact reaches_typePlaces locals decl

theorem reaches_bodyPlaces (locals : Locals) :
    ∀ body : MethodBody, Reaches (s.bodyPlaces scope locals body) (Walk.methodBody body)
  | .block b => by
    rw [bodyPlaces, Walk.methodBody]
    exact reaches_blockPlaces locals b
  | .absent => by
    rw [Walk.methodBody]
    exact .nil
  | .unparsed _ => by
    rw [Walk.methodBody]
    exact .nil

theorem reaches_blockPlaces (locals : Locals) :
    ∀ b : Block, Reaches (s.blockPlaces scope locals b) (Walk.block b)
  | ⟨stmts, range⟩ => by
    rw [blockPlaces, Walk.block]
    exact (reaches_stmtsPlaces locals stmts).skip fun _ => nofun

theorem reaches_blockOptPlaces (locals : Locals) :
    ∀ b : Option Block, Reaches (s.blockOptPlaces scope locals b) (Walk.blockOpt b)
  | none => by
    rw [Walk.blockOpt]
    exact .nil
  | some b => by
    rw [blockOptPlaces, Walk.blockOpt]
    exact reaches_blockPlaces locals b

theorem reaches_stmtsPlaces (locals : Locals) :
    ∀ ss : List Stmt, Reaches (s.stmtsPlaces scope locals ss).1 (Walk.stmts ss)
  | [] => by
    rw [Walk.stmts]
    exact .nil
  | st :: rest => by
    rw [stmtsPlaces, Walk.stmts]
    exact (reaches_stmtPlaces locals st).append (reaches_stmtsPlaces _ rest)

theorem reaches_stmtOptPlaces (locals : Locals) :
    ∀ st : Option Stmt, Reaches (s.stmtOptPlaces scope locals st).1 (Walk.stmtOpt st)
  | none => by
    rw [Walk.stmtOpt]
    exact .nil
  | some st => by
    rw [stmtOptPlaces, Walk.stmtOpt]
    exact reaches_stmtPlaces locals st

theorem reaches_varPlaces (locals : Locals) :
    ∀ v : LocalVar, Reaches (s.varPlaces scope locals v).1 (Walk.localVar v)
  | ⟨type, name, init⟩ => by
    rw [varPlaces, Walk.localVar]
    exact (reaches_exprOptPlaces locals init).typeRef.skip fun _ => nofun

theorem reaches_varsPlaces (locals : Locals) :
    ∀ vs : List LocalVar, Reaches (s.varsPlaces scope locals vs).1 (Walk.localVars vs)
  | [] => by
    rw [Walk.localVars]
    exact .nil
  | v :: vs => by
    rw [varsPlaces, Walk.localVars]
    exact (reaches_varPlaces locals v).append (reaches_varsPlaces _ vs)

theorem reaches_catchesPlaces (locals : Locals) :
    ∀ cs : List CatchClause, Reaches (s.catchesPlaces scope locals cs) (Walk.catches cs)
  | [] => by
    rw [Walk.catches]
    exact .nil
  | ⟨param, body⟩ :: rest => by
    rw [catchesPlaces, Walk.catches, List.cons_append, List.cons_append]
    exact ((reaches_blockPlaces _ body).append (reaches_catchesPlaces locals rest)).typeRef

theorem reaches_casesPlaces (locals : Locals) :
    ∀ cs : List SwitchCase, Reaches (s.casesPlaces scope locals cs).1 (Walk.cases cs)
  | [] => by
    rw [Walk.cases]
    exact .nil
  | ⟨labels, body⟩ :: rest => by
    rw [casesPlaces, Walk.cases]
    exact ((reaches_exprsPlaces locals labels).append (reaches_stmtsPlaces locals body)).append
      (reaches_casesPlaces _ rest)

theorem reaches_stmtPlaces (locals : Locals) :
    ∀ st : Stmt, Reaches (s.stmtPlaces scope locals st).1 (Walk.stmt st)
  | .block b => by
    rw [stmtPlaces, Walk.stmt]
    exact (reaches_blockPlaces locals b).skip fun _ => nofun
  | .locals vars => by
    rw [stmtPlaces, Walk.stmt]
    exact (reaches_varsPlaces locals vars).skip fun _ => nofun
  | .expr e => by
    rw [stmtPlaces, Walk.stmt]
    exact (reaches_exprPlaces locals e).skip fun _ => nofun
  | .return value => by
    rw [stmtPlaces, Walk.stmt]
    exact (reaches_exprOptPlaces locals value).skip fun _ => nofun
  | .throw value => by
    rw [stmtPlaces, Walk.stmt]
    exact (reaches_exprPlaces locals value).skip fun _ => nofun
  | .ifThen cond yes no => by
    rw [stmtPlaces, Walk.stmt, List.cons_append, List.cons_append]
    exact (((reaches_exprPlaces locals cond).append (reaches_stmtPlaces locals yes)).append
      (reaches_stmtOptPlaces _ no)).skip fun _ => nofun
  | .while cond body => by
    rw [stmtPlaces, Walk.stmt, List.cons_append]
    exact ((reaches_exprPlaces locals cond).append (reaches_stmtPlaces locals body)).skip
      fun _ => nofun
  | .doWhile body cond => by
    rw [stmtPlaces, Walk.stmt, List.cons_append]
    exact ((reaches_exprPlaces locals cond).append (reaches_stmtPlaces locals body)).skip
      fun _ => nofun
  | .for init cond update body => by
    rw [stmtPlaces, Walk.stmt, List.cons_append, List.cons_append, List.cons_append]
    exact ((((reaches_stmtsPlaces locals init).append (reaches_exprOptPlaces _ cond)).append
      (reaches_exprsPlaces _ update)).append (reaches_stmtPlaces _ body)).skip fun _ => nofun
  | .forEach var iterable body => by
    rw [stmtPlaces, Walk.stmt, List.cons_append, List.cons_append]
    exact (((reaches_exprPlaces locals iterable).append (reaches_varPlaces locals var)).append
      (reaches_stmtPlaces _ body)).skip fun _ => nofun
  | .try body handlers cleanup => by
    rw [stmtPlaces, Walk.stmt, List.cons_append, List.cons_append]
    exact (((reaches_blockPlaces locals body).append (reaches_catchesPlaces locals handlers)).append
      (reaches_blockOptPlaces locals cleanup)).skip fun _ => nofun
  | .switch selector groups => by
    rw [stmtPlaces, Walk.stmt, List.cons_append]
    exact ((reaches_exprPlaces locals selector).append (reaches_casesPlaces locals groups)).skip
      fun _ => nofun
  | .synchronized lock body => by
    rw [stmtPlaces, Walk.stmt, List.cons_append]
    exact ((reaches_exprPlaces locals lock).append (reaches_blockPlaces locals body)).skip
      fun _ => nofun
  | .assert cond message => by
    rw [stmtPlaces, Walk.stmt, List.cons_append]
    exact ((reaches_exprPlaces locals cond).append (reaches_exprOptPlaces locals message)).skip
      fun _ => nofun
  | .localClass decl => by
    rw [stmtPlaces, Walk.stmt]
    exact (reaches_typePlaces locals decl).skip fun _ => nofun
  | .break => by
    rw [Walk.stmt]
    exact Reaches.nil.skip fun _ => nofun
  | .continue => by
    rw [Walk.stmt]
    exact Reaches.nil.skip fun _ => nofun
  | .empty => by
    rw [Walk.stmt]
    exact Reaches.nil.skip fun _ => nofun

theorem reaches_exprsPlaces (locals : Locals) :
    ∀ es : List Expr, Reaches (s.exprsPlaces scope locals es) (Walk.exprs es)
  | [] => by
    rw [Walk.exprs]
    exact .nil
  | e :: es => by
    rw [exprsPlaces, Walk.exprs]
    exact (reaches_exprPlaces locals e).append (reaches_exprsPlaces locals es)

theorem reaches_exprOptPlaces (locals : Locals) :
    ∀ e : Option Expr, Reaches (s.exprOptPlaces scope locals e) (Walk.exprOpt e)
  | none => by
    rw [Walk.exprOpt]
    exact .nil
  | some e => by
    rw [exprOptPlaces, Walk.exprOpt]
    exact reaches_exprPlaces locals e

theorem reaches_exprsOptPlaces (locals : Locals) :
    ∀ es : Option (List Expr), Reaches (s.exprsOptPlaces scope locals es) (Walk.exprsOpt es)
  | none => by
    rw [Walk.exprsOpt]
    exact .nil
  | some es => by
    rw [exprsOptPlaces, Walk.exprsOpt]
    exact reaches_exprsPlaces locals es

theorem reaches_membersOptPlaces (locals : Locals) :
    ∀ ms : Option (List Member), Reaches (s.membersOptPlaces scope locals ms) (Walk.membersOpt ms)
  | none => by
    rw [Walk.membersOpt]
    exact .nil
  | some ms => by
    rw [membersOptPlaces, Walk.membersOpt]
    exact reaches_membersPlaces locals ms

theorem reaches_exprPlaces (locals : Locals) :
    ∀ e : Expr, Reaches (s.exprPlaces scope locals e) (Walk.expr e)
  | ⟨kind, range⟩ => by
    rw [exprPlaces, Walk.expr]
    exact (reaches_partPlaces locals kind).expr

theorem reaches_partPlaces (locals : Locals) :
    ∀ kind : ExprKind, Reaches (s.partPlaces scope locals kind) (Walk.exprKind kind)
  | .literal _ => by
    rw [Walk.exprKind]
    exact .nil
  | .name _ => by
    rw [Walk.exprKind]
    exact .nil
  | .this => by
    rw [Walk.exprKind]
    exact .nil
  | .super => by
    rw [Walk.exprKind]
    exact .nil
  | .fieldAccess target name => by
    rw [partPlaces, Walk.exprKind]
    split
    next haccess => exact s.reaches_of_isTypeAccess scope haccess
    next => exact reaches_exprPlaces locals target
  | .call target _ args => by
    rw [partPlaces, Walk.exprKind]
    exact (reaches_exprOptPlaces locals target).append (reaches_exprsPlaces locals args)
  | .new type args body => by
    rw [partPlaces, Walk.exprKind, List.cons_append, List.cons_append]
    exact ((reaches_exprsPlaces locals args).append (reaches_membersOptPlaces locals body)).typeRef
  | .newArray type dims init => by
    rw [partPlaces, Walk.exprKind, List.cons_append, List.cons_append]
    exact ((reaches_exprsPlaces locals dims).append (reaches_exprsOptPlaces locals init)).typeRef
  | .arrayInit items => by
    rw [partPlaces, Walk.exprKind]
    exact reaches_exprsPlaces locals items
  | .arrayAccess array index => by
    rw [partPlaces, Walk.exprKind]
    exact (reaches_exprPlaces locals array).append (reaches_exprPlaces locals index)
  | .constructorCall _ args => by
    rw [partPlaces, Walk.exprKind]
    exact reaches_exprsPlaces locals args
  | .classLiteral type => by
    rw [Walk.exprKind]
    exact Reaches.nil.skip fun _ => nofun
  | .assign target value => by
    rw [partPlaces, Walk.exprKind]
    exact (reaches_exprPlaces locals target).append (reaches_exprPlaces locals value)
  | .binary _ lhs rhs => by
    rw [partPlaces, Walk.exprKind]
    exact (reaches_exprPlaces locals lhs).append (reaches_exprPlaces locals rhs)
  | .unary _ operand => by
    rw [partPlaces, Walk.exprKind]
    exact reaches_exprPlaces locals operand
  | .cast type e => by
    rw [partPlaces, Walk.exprKind]
    exact (reaches_exprPlaces locals e).typeRef
  | .instanceOf e type => by
    rw [partPlaces, Walk.exprKind]
    exact (reaches_exprPlaces locals e).append (Reaches.nil.skip fun _ => nofun)
  | .conditional cond yes no => by
    rw [partPlaces, Walk.exprKind]
    exact ((reaches_exprPlaces locals cond).append (reaches_exprPlaces locals yes)).append
      (reaches_exprPlaces locals no)
  | .paren inner => by
    rw [partPlaces, Walk.exprKind]
    exact reaches_exprPlaces locals inner
  | .lambda params body => by
    rw [partPlaces, Walk.exprKind]
    exact (Reaches.typeRefs _).append (reaches_lambdaPlaces _ body)
  | .methodRef target _ => by
    rw [partPlaces, Walk.exprKind]
    exact reaches_exprPlaces locals target

theorem reaches_lambdaPlaces (locals : Locals) :
    ∀ body : LambdaBody, Reaches (s.lambdaPlaces scope locals body) (Walk.lambdaBody body)
  | .expr e => by
    rw [lambdaPlaces, Walk.lambdaBody]
    exact reaches_exprPlaces locals e
  | .block b => by
    rw [lambdaPlaces, Walk.lambdaBody]
    exact reaches_blockPlaces locals b

end

end BoundWorkspace

/-! ## Units -/

/-- An expression stands in a member of the type that is no type itself. -/
def TypeDecl.HasOwn (decl : TypeDecl) (e : Expr) : Prop :=
  ∃ m ∈ decl.members, ¬m.IsType ∧ Node.expr e ∈ Walk.member m

namespace DeclaredType

variable {origin : Origin} {package : String} {e : Expr}

/-- An expression stands in one of the members, numbered from `index` on, or it is a declared type's
own, and the path of this type leads through one of the members. -/
def OwnIn (infos : List DeclaredType) (path : List Nat) (index : Nat) (members : List Member)
    (e : Expr) : Prop :=
  (∃ m ∈ members, ¬m.IsType ∧ Node.expr e ∈ Walk.member m) ∨
    ∃ info ∈ infos, ∃ i decl below inner, members[i]? = some (.type decl) ∧
      info.path = path ++ (index + i) :: below ∧ decl.at? below = some inner ∧ inner.HasOwn e

theorem OwnIn.behind {infos infos' : List DeclaredType} {path : List Nat} {index : Nat}
    {first : Member} {rest : List Member} (h : OwnIn infos path (index + 1) rest e)
    (hsubset : infos ⊆ infos') : OwnIn infos' path index (first :: rest) e := by
  rcases h with ⟨m, hm, hplain, he⟩ | ⟨info, hinfo, i, decl, below, inner, hdecl, hpath, hown⟩
  · exact Or.inl ⟨m, List.mem_cons_of_mem _ hm, hplain, he⟩
  · refine Or.inr ⟨info, hsubset hinfo, i + 1, decl, below, inner, hdecl, ?_, hown⟩
    rw [hpath, Nat.add_assoc, Nat.add_comm 1 i]

theorem ownIn_of_plain {infos : List DeclaredType} {path : List Nat} {index : Nat} {first : Member}
    {rest : List Member} (hplain : ¬first.IsType) (he : Node.expr e ∈ Walk.member first) :
    OwnIn infos path index (first :: rest) e :=
  Or.inl ⟨first, List.mem_cons_self, hplain, he⟩

mutual

theorem exists_own_of_mem_walk :
    ∀ (decl : TypeDecl) {outer : Option String} {qualified : String} {path : List Nat},
      Node.expr e ∈ Walk.typeDecl decl →
      ∃ info ∈ collectDecl origin package outer qualified path decl, ∃ below inner,
        info.path = path ++ below ∧ decl.at? below = some inner ∧ inner.HasOwn e
  | ⟨head, members⟩, outer, qualified, path, he => by
    rw [Walk.typeDecl, List.cons_append] at he
    have hmembers : Node.expr e ∈ Walk.members members := by
      rcases List.mem_cons.1 he with heq | he
      · cases heq
      · refine (List.mem_append.1 he).resolve_left fun href => ?_
        obtain ⟨ref, -, heq⟩ := List.mem_map.1 href
        cases heq
    rw [collectDecl]
    rcases exists_own_of_mem_walkMembers members hmembers with
      hown | ⟨info, hinfo, i, decl, below, inner, hdecl, hpath, hat, hown⟩
    · exact ⟨_, List.mem_cons_self, [], ⟨head, members⟩, (List.append_nil path).symm,
        by rw [TypeDecl.at?], hown⟩
    · rw [Nat.zero_add] at hpath
      refine ⟨info, List.mem_cons_of_mem _ hinfo, i :: below, inner, hpath, ?_, hown⟩
      rw [TypeDecl.at?, hdecl]
      exact hat

theorem exists_own_of_mem_walkMembers :
    ∀ (members : List Member) {outer : String} {path : List Nat} {index : Nat},
      Node.expr e ∈ Walk.members members →
      OwnIn (collectMembers origin package outer path index members) path index members e
  | [], _, _, _, he => by
    rw [Walk.members] at he
    cases he
  | .type ⟨head, inner⟩ :: rest, outer, path, index, he => by
    rw [Walk.members, Walk.member] at he
    rw [collectMembers]
    rcases List.mem_append.1 he with he | he
    · obtain ⟨info, hinfo, below, found, hpath, hat, hown⟩ :=
        exists_own_of_mem_walk ⟨head, inner⟩ he
      refine Or.inr ⟨info, List.mem_append_left _ hinfo, 0, ⟨head, inner⟩, below, found, rfl, ?_,
        hat, hown⟩
      rw [hpath, List.append_assoc]
      rfl
    · exact (exists_own_of_mem_walkMembers rest he).behind (List.subset_append_right _ _)
  | .field head init :: rest, _, _, _, he => by
    rw [Walk.members] at he
    rw [collectMembers]
    rcases List.mem_append.1 he with he | he
    · exact ownIn_of_plain id he
    · exact (exists_own_of_mem_walkMembers rest he).behind (List.Subset.refl _)
  | .method head body :: rest, _, _, _, he => by
    rw [Walk.members] at he
    rw [collectMembers]
    rcases List.mem_append.1 he with he | he
    · exact ownIn_of_plain id he
    · exact (exists_own_of_mem_walkMembers rest he).behind (List.Subset.refl _)
  | .initializer isStatic body range :: rest, _, _, _, he => by
    rw [Walk.members] at he
    rw [collectMembers]
    rcases List.mem_append.1 he with he | he
    · exact ownIn_of_plain id he
    · exact (exists_own_of_mem_walkMembers rest he).behind (List.Subset.refl _)

end

end DeclaredType

/-- **Each expression of a unit** stands in a member of one of the types that the unit declares. -/
theorem exists_own_of_mem_walk_unit {unit : CompilationUnit} (origin : Origin) {e : Expr}
    (he : Node.expr e ∈ Walk.unit unit) :
    ∃ info ∈ collectTypes unit origin, ∃ decl, info.decl? unit = some decl ∧ decl.HasOwn e := by
  obtain ⟨top, htop, he⟩ := List.mem_flatMap.1 he
  obtain ⟨index, hget⟩ := List.mem_iff_getElem?.1 htop
  have hmem : (top, index) ∈ unit.types.zipIdx := by
    simpa using List.mem_zipIdx_iff_getElem?.2 hget
  obtain ⟨info, hinfo, below, inner, hpath, hat, hown⟩ :
      ∃ info ∈ DeclaredType.collectDecl origin (".".intercalate unit.packageSegments) none
          (Text.qualify (".".intercalate unit.packageSegments) top.head.name.text) [index] top,
        ∃ below inner, info.path = [index] ++ below ∧ top.at? below = some inner ∧
          inner.HasOwn e := DeclaredType.exists_own_of_mem_walk top he
  refine ⟨info, ?_, inner, ?_, hown⟩
  · exact List.mem_flatten.2 ⟨_, List.mem_map_of_mem hmem, hinfo⟩
  · rw [DeclaredType.decl?, hpath]
    show unit.types[index]?.bind _ = _
    rw [hget]
    exact hat

/-! ## Files -/

/-- An expression stands in a parsed file, at a place with locals. -/
def SourceFile.StandsAt (s : BoundWorkspace) (file : SourceFile) (scope : NameScope)
    (locals : Locals) (e : Expr) : Prop :=
  ∃ top, s.scope? file none = some top ∧
    ∃ info ∈ file.types, scope = top.inside (some info.key) ∧
      ∃ decl, info.decl? top.unit = some decl ∧ ∃ member ∈ decl.members, ¬member.IsType ∧
        Place.expr locals e ∈ s.memberPlaces scope .none member

/-- **Every call of a parsed file** stands at a place. -/
theorem SourceFile.exists_standsAt {s : BoundWorkspace} {file : SourceFile} {top : NameScope}
    (htop : s.scope? file none = some top) {origin : Origin}
    (htypes : file.types = collectTypes top.unit origin) {call : Expr} (hcall : call.IsCall)
    (hmem : Node.expr call ∈ Walk.unit top.unit) :
    ∃ scope locals, file.StandsAt s scope locals call := by
  obtain ⟨info, hinfo, decl, hdecl, member, hmember, hplain, he⟩ :=
    exists_own_of_mem_walk_unit origin hmem
  obtain ⟨locals, hplace⟩ :=
    s.reaches_memberPlaces (top.inside (some info.key)) .none member call hcall he
  exact ⟨_, locals, top, htop, info, htypes ▸ hinfo, rfl, decl, hdecl, member, hmember, hplain,
    hplace⟩

end SourceSearch
