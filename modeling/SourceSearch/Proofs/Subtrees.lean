import SourceSearch.Walk

/-!
# What is beneath a node

A walk meets a node before what is beneath it, and nothing of that is left out, wherever the walk
starts. So whatever is beneath a node of a unit is met by the walk through the unit
(`Walk.closed_unit`). The proof has one case for each form of declaration, statement and expression.
-/

set_option autoImplicit false

namespace SourceSearch

/-- A node and all that is beneath it. -/
def Node.under : Node → List Node
  | .type decl => Walk.typeDecl decl
  | .method head body => Walk.member (.method head body)
  | .field head init => Walk.member (.field head init)
  | .initializer isStatic body => .initializer isStatic body :: Walk.stmts body.stmts
  | .block b => Walk.block b
  | .stmt st => Walk.stmt st
  | .localVar v => Walk.localVar v
  | .expr e => Walk.expr e
  | .typeRef ref => [.typeRef ref]

/-- With each node there is all that is beneath it. -/
def Closed (nodes : List Node) : Prop := ∀ node ∈ nodes, node.under ⊆ nodes

namespace Closed

variable {nodes others : List Node}

theorem nil : Closed [] := nofun

theorem append (h : Closed nodes) (h' : Closed others) : Closed (nodes ++ others) := by
  intro node hnode
  rcases List.mem_append.1 hnode with hnode | hnode
  · exact fun other hother => List.mem_append_left _ (h node hnode hother)
  · exact fun other hother => List.mem_append_right _ (h' node hnode hother)

/-- A node comes first, and all that is beneath it follows. -/
theorem under (node : Node) (h : Closed nodes) (hunder : node.under = node :: nodes) :
    Closed node.under := by
  intro other hother
  rw [hunder] at hother
  rcases List.mem_cons.1 hother with rfl | hother
  · exact List.Subset.refl _
  · rw [hunder]
    exact fun inner hinner => List.mem_cons_of_mem _ (h other hother hinner)

theorem typeRef (ref : TypeRef) : Closed [.typeRef ref] := nil.under (.typeRef ref) rfl

theorem typeRefs (refs : List TypeRef) : Closed (refs.map .typeRef) := by
  intro node hnode
  obtain ⟨ref, href, rfl⟩ := List.mem_map.1 hnode
  exact List.cons_subset.2 ⟨hnode, List.nil_subset _⟩

end Closed

namespace Walk

mutual

theorem closed_typeDecl : ∀ decl : TypeDecl, Closed (typeDecl decl)
  | ⟨head, body⟩ =>
    .under (.type ⟨head, body⟩) ((Closed.typeRefs _).append (closed_members body)) rfl

theorem closed_members : ∀ ms : List Member, Closed (members ms)
  | [] => .nil
  | m :: ms => (closed_member m).append (closed_members ms)

theorem closed_member : ∀ m : Member, Closed (member m)
  | .field head init => by
    refine .under (.field head init) (.append ?_ (closed_exprOpt init)) rfl
    split
    · exact .nil
    · exact .typeRef _
  | .method head body =>
    .under (.method head body) ((Closed.typeRefs _).append (closed_methodBody body)) rfl
  | .initializer isStatic ⟨body, range⟩ _ =>
    .under (.initializer isStatic ⟨body, range⟩) (closed_stmts body) rfl
  | .type decl => closed_typeDecl decl

theorem closed_methodBody : ∀ body : MethodBody, Closed (methodBody body)
  | .block b => closed_block b
  | .absent => .nil
  | .unparsed _ => .nil

theorem closed_block : ∀ b : Block, Closed (block b)
  | ⟨body, range⟩ => .under (.block ⟨body, range⟩) (closed_stmts body) rfl

theorem closed_blockOpt : ∀ b : Option Block, Closed (blockOpt b)
  | none => .nil
  | some b => closed_block b

theorem closed_stmts : ∀ ss : List Stmt, Closed (stmts ss)
  | [] => .nil
  | s :: ss => (closed_stmt s).append (closed_stmts ss)

theorem closed_stmtOpt : ∀ s : Option Stmt, Closed (stmtOpt s)
  | none => .nil
  | some s => closed_stmt s

theorem closed_localVar : ∀ v : LocalVar, Closed (localVar v)
  | ⟨type, name, init⟩ =>
    .under (.localVar ⟨type, name, init⟩)
      ((Closed.typeRef type).append (closed_exprOpt init)) rfl

theorem closed_localVars : ∀ vs : List LocalVar, Closed (localVars vs)
  | [] => .nil
  | v :: vs => (closed_localVar v).append (closed_localVars vs)

theorem closed_catches : ∀ cs : List CatchClause, Closed (catches cs)
  | [] => .nil
  | ⟨param, body⟩ :: cs =>
    ((Closed.typeRef param.type).append (closed_block body)).append (closed_catches cs)

theorem closed_cases : ∀ cs : List SwitchCase, Closed (cases cs)
  | [] => .nil
  | ⟨labels, body⟩ :: cs =>
    ((closed_exprs labels).append (closed_stmts body)).append (closed_cases cs)

theorem closed_stmt : ∀ s : Stmt, Closed (stmt s)
  | .block b => .under (.stmt (.block b)) (closed_block b) rfl
  | .locals vars => .under (.stmt (.locals vars)) (closed_localVars vars) rfl
  | .expr e => .under (.stmt (.expr e)) (closed_expr e) rfl
  | .return value => .under (.stmt (.return value)) (closed_exprOpt value) rfl
  | .throw value => .under (.stmt (.throw value)) (closed_expr value) rfl
  | .ifThen cond yes no =>
    .under (.stmt (.ifThen cond yes no))
      (((closed_expr cond).append (closed_stmt yes)).append (closed_stmtOpt no)) rfl
  | .while cond body =>
    .under (.stmt (.while cond body)) ((closed_expr cond).append (closed_stmt body)) rfl
  | .doWhile body cond =>
    .under (.stmt (.doWhile body cond)) ((closed_expr cond).append (closed_stmt body)) rfl
  | .for init cond update body =>
    .under (.stmt (.for init cond update body))
      ((((closed_stmts init).append (closed_exprOpt cond)).append (closed_exprs update)).append
        (closed_stmt body)) rfl
  | .forEach var iterable body =>
    .under (.stmt (.forEach var iterable body))
      (((closed_expr iterable).append (closed_localVar var)).append (closed_stmt body)) rfl
  | .try body handlers cleanup =>
    .under (.stmt (.try body handlers cleanup))
      (((closed_block body).append (closed_catches handlers)).append (closed_blockOpt cleanup)) rfl
  | .switch selector groups =>
    .under (.stmt (.switch selector groups))
      ((closed_expr selector).append (closed_cases groups)) rfl
  | .synchronized lock body =>
    .under (.stmt (.synchronized lock body))
      ((closed_expr lock).append (closed_block body)) rfl
  | .assert cond message =>
    .under (.stmt (.assert cond message))
      ((closed_expr cond).append (closed_exprOpt message)) rfl
  | .localClass decl => .under (.stmt (.localClass decl)) (closed_typeDecl decl) rfl
  | .break => Closed.nil.under (.stmt .break) rfl
  | .continue => Closed.nil.under (.stmt .continue) rfl
  | .empty => Closed.nil.under (.stmt .empty) rfl

theorem closed_exprs : ∀ es : List Expr, Closed (exprs es)
  | [] => .nil
  | e :: es => (closed_expr e).append (closed_exprs es)

theorem closed_exprOpt : ∀ e : Option Expr, Closed (exprOpt e)
  | none => .nil
  | some e => closed_expr e

theorem closed_exprsOpt : ∀ es : Option (List Expr), Closed (exprsOpt es)
  | none => .nil
  | some es => closed_exprs es

theorem closed_membersOpt : ∀ ms : Option (List Member), Closed (membersOpt ms)
  | none => .nil
  | some ms => closed_members ms

theorem closed_expr : ∀ e : Expr, Closed (expr e)
  | ⟨kind, range⟩ => .under (.expr ⟨kind, range⟩) (closed_exprKind kind) rfl

theorem closed_exprKind : ∀ kind : ExprKind, Closed (exprKind kind)
  | .literal _ => .nil
  | .name _ => .nil
  | .this => .nil
  | .super => .nil
  | .fieldAccess target _ => closed_expr target
  | .call target _ args => (closed_exprOpt target).append (closed_exprs args)
  | .new type args body =>
    ((Closed.typeRef type).append (closed_exprs args)).append (closed_membersOpt body)
  | .newArray type dims init =>
    ((Closed.typeRef type).append (closed_exprs dims)).append (closed_exprsOpt init)
  | .arrayInit items => closed_exprs items
  | .arrayAccess array index => (closed_expr array).append (closed_expr index)
  | .constructorCall _ args => closed_exprs args
  | .classLiteral type => .typeRef type
  | .assign target value => (closed_expr target).append (closed_expr value)
  | .binary _ lhs rhs => (closed_expr lhs).append (closed_expr rhs)
  | .unary _ operand => closed_expr operand
  | .cast type e => (Closed.typeRef type).append (closed_expr e)
  | .instanceOf e type => (closed_expr e).append (.typeRef type)
  | .conditional cond yes no =>
    ((closed_expr cond).append (closed_expr yes)).append (closed_expr no)
  | .paren inner => closed_expr inner
  | .lambda _ body => (Closed.typeRefs _).append (closed_lambdaBody body)
  | .methodRef target _ => closed_expr target

theorem closed_lambdaBody : ∀ body : LambdaBody, Closed (lambdaBody body)
  | .expr e => closed_expr e
  | .block b => closed_block b

end

/-- **What is beneath a node** of a unit is met by the walk through the unit. -/
theorem closed_unit (u : CompilationUnit) : Closed (unit u) := by
  intro node hnode
  obtain ⟨decl, hdecl, hnode⟩ := List.mem_flatMap.1 hnode
  exact fun other hother => List.mem_flatMap.2 ⟨decl, hdecl, closed_typeDecl decl node hnode hother⟩

end Walk

end SourceSearch
