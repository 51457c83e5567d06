import Mathlib.Data.List.Nodup
import SourceSearch.Walk

/-!
# Visited nodes

The parts of a declaration, a statement or an expression are listed as the tree has them
(`Branch.children`), and a path of indices leads to each part of a unit, at any depth. A walk
through a unit meets what stands at each of these paths once, and nothing else
(`Branch.visits_unit`). Only two kinds of parts are not met themselves: the block of an initializer
and the type of an enum constant (`Branch.hides`).

What a walk meets among some children of a part it meets among the first and the later ones of them
(`Branch.VisitsAmong.append`), so that the proof has one case for each form of declaration,
statement and expression.
-/

set_option autoImplicit false

namespace SourceSearch

/-! ## Parts -/

/-- A part of a tree, which may have parts of its own. -/
inductive Branch
  | unit (u : CompilationUnit)
  | type (decl : TypeDecl)
  | member (m : Member)
  | block (b : Block)
  | stmt (s : Stmt)
  | localVar (v : LocalVar)
  | expr (e : Expr)
  | typeRef (ref : TypeRef)

namespace Branch

/-- The right side of a lambda. -/
def ofLambdaBody : LambdaBody → List Branch
  | .expr e => [.expr e]
  | .block b => [.block b]

/-- The parts of an expression. -/
def ofExprKind : ExprKind → List Branch
  | .literal _ | .name _ | .this | .super => []
  | .fieldAccess target _ => [.expr target]
  | .call target _ args => target.toList.map .expr ++ args.map .expr
  | .new ref args body => .typeRef ref :: args.map .expr ++ (body.getD []).map .member
  | .newArray ref dims init => .typeRef ref :: dims.map .expr ++ (init.getD []).map .expr
  | .arrayInit items => items.map .expr
  | .arrayAccess array index => [.expr array, .expr index]
  | .constructorCall _ args => args.map .expr
  | .classLiteral ref => [.typeRef ref]
  | .assign target value => [.expr target, .expr value]
  | .binary _ lhs rhs => [.expr lhs, .expr rhs]
  | .unary _ operand => [.expr operand]
  | .cast ref e => [.typeRef ref, .expr e]
  | .instanceOf e ref => [.expr e, .typeRef ref]
  | .conditional cond yes no => [.expr cond, .expr yes, .expr no]
  | .paren inner => [.expr inner]
  | .lambda params body => (params.filterMap (·.type)).map .typeRef ++ ofLambdaBody body
  | .methodRef target _ => [.expr target]

/-- The parts of a statement. -/
def ofStmt : Stmt → List Branch
  | .block b => [.block b]
  | .locals vars => vars.map .localVar
  | .expr e => [.expr e]
  | .return value => value.toList.map .expr
  | .throw value => [.expr value]
  | .ifThen cond yes no => .expr cond :: .stmt yes :: no.toList.map .stmt
  | .while cond body => [.expr cond, .stmt body]
  | .doWhile body cond => [.stmt body, .expr cond]
  | .for init cond update body =>
    init.map .stmt ++ cond.toList.map .expr ++ update.map .expr ++ [.stmt body]
  | .forEach var iterable body => [.localVar var, .expr iterable, .stmt body]
  | .try body catches cleanup =>
    .block body :: catches.flatMap (fun c => [.typeRef c.param.type, .block c.body]) ++
      cleanup.toList.map .block
  | .switch selector cases =>
    .expr selector :: cases.flatMap fun c => c.labels.map .expr ++ c.body.map .stmt
  | .synchronized lock body => [.expr lock, .block body]
  | .assert cond message => .expr cond :: message.toList.map .expr
  | .localClass decl => [.type decl]
  | .break | .continue | .empty => []

/-- The block of a method, if it has one. -/
def ofMethodBody : MethodBody → List Branch
  | .block b => [.block b]
  | .absent | .unparsed _ => []

/-- The parts of a member. -/
def ofMember : Member → List Branch
  | .field head init => .typeRef head.type :: init.toList.map .expr
  | .method head body =>
    (head.returnType.toList ++ head.params.map (·.type) ++ head.throws).map .typeRef ++
      ofMethodBody body
  | .initializer _ body _ => [.block body]
  | .type decl => [.type decl]

/-- The parts of a part, as the tree has them. -/
def children : Branch → List Branch
  | .unit u => u.types.map .type
  | .type decl =>
    (decl.head.superclass.toList ++ decl.head.interfaces).map .typeRef ++ decl.members.map .member
  | .member m => ofMember m
  | .block b => b.stmts.map .stmt
  | .stmt s => ofStmt s
  | .localVar v => .typeRef v.type :: v.init.toList.map .expr
  | .expr e => ofExprKind e.kind
  | .typeRef _ => []

/-- What a walk meets of a part itself. -/
def node? : Branch → Option Node
  | .unit _ | .member (.type _) => none
  | .type decl => some (.type decl)
  | .member (.field head init) => some (.field head init)
  | .member (.method head body) => some (.method head body)
  | .member (.initializer isStatic body _) => some (.initializer isStatic body)
  | .block b => some (.block b)
  | .stmt s => some (.stmt s)
  | .localVar v => some (.localVar v)
  | .expr e => some (.expr e)
  | .typeRef ref => some (.typeRef ref)

/-- Whether the part is an initializer, whose block is met as its statements. -/
def isInitializer : Branch → Bool
  | .member (.initializer _ _ _) => true
  | _ => false

/-- Whether the part is an enum constant, whose type is that of its enum. -/
def isEnumConstant : Branch → Bool
  | .member (.field head _) => head.isEnumConstant
  | _ => false

/-- A part that a walk does not meet itself: the block of an initializer, and the type of an enum
constant. -/
def hides (parent : Branch) : Branch → Bool
  | .block _ => parent.isInitializer
  | .typeRef _ => parent.isEnumConstant
  | _ => false

/-- What a walk is to meet of a child itself. -/
def shown? (parent child : Branch) : Option Node :=
  if parent.hides child then none else child.node?

/-! ## Places -/

/-- At a path from a part, the index of a child followed by a path from that one, stands a part that
a walk is to meet. -/
def MetAt : Branch → List Nat → Node → Prop
  | _, [], _ => False
  | b, i :: path, node => ∃ child, b.children[i]? = some child ∧
      (path = [] ∧ b.shown? child = some node ∨ child.MetAt path node)

/-- The nodes, in some order, are those at the paths from a part, one at each path. -/
def Visits (b : Branch) (nodes : List Node) : Prop :=
  ∃ visits : List (List Nat × Node), (visits.map Prod.snd).Perm nodes ∧
    (visits.map Prod.fst).Nodup ∧ ∀ path node, (path, node) ∈ visits ↔ b.MetAt path node

/-- At a path to some of the children, or from one of them on, stands a part that a walk is to
meet. -/
def MetAmong (b : Branch) (children : List Branch) : List Nat → Node → Prop
  | [], _ => False
  | i :: path, node => ∃ child, children[i]? = some child ∧
      (path = [] ∧ b.shown? child = some node ∨ child.MetAt path node)

/-- The nodes are those at the paths to some of the children, one at each path. -/
def VisitsAmong (b : Branch) (children : List Branch) (nodes : List Node) : Prop :=
  ∃ visits : List (List Nat × Node), (visits.map Prod.snd).Perm nodes ∧
    (visits.map Prod.fst).Nodup ∧ ∀ path node, (path, node) ∈ visits ↔ b.MetAmong children path node

variable {b c : Branch} {cs cs' : List Branch} {nodes nodes' : List Node}

theorem metAmong_children {path : List Nat} {node : Node} :
    b.MetAmong b.children path node ↔ b.MetAt path node := by
  cases path <;> rfl

theorem Visits.of_among (h : b.VisitsAmong b.children nodes) : b.Visits nodes := by
  obtain ⟨visits, hperm, hnodup, hmem⟩ := h
  exact ⟨visits, hperm, hnodup, fun path node => (hmem path node).trans metAmong_children⟩

/-- A path that starts further on by a number of children. -/
def shift (n : Nat) : List Nat → List Nat
  | [] => []
  | i :: path => (n + i) :: path

theorem shift_injective (n : Nat) : Function.Injective (shift n) := by
  rintro (_ | ⟨i, path⟩) (_ | ⟨j, path'⟩) h <;> simp_all [shift]

/-- A path to some children in a row leads to the first or, from where these end, to the later
ones. -/
theorem metAmong_append {path : List Nat} {node : Node} :
    b.MetAmong (cs ++ cs') path node ↔ b.MetAmong cs path node ∨
      ∃ path', b.MetAmong cs' path' node ∧ shift cs.length path' = path := by
  cases path with
  | nil =>
    simp only [MetAmong, false_or, false_iff, not_exists, not_and]
    rintro (_ | ⟨i, path⟩) h <;> simp_all [shift]
  | cons i path =>
    simp only [MetAmong]
    rcases Nat.lt_or_ge i cs.length with hlt | hge
    · rw [List.getElem?_append_left hlt]
      refine ⟨.inl, ?_⟩
      rintro (h | ⟨_ | ⟨j, path'⟩, h, heq⟩)
      · exact h
      · exact h.elim
      · obtain ⟨rfl, -⟩ := List.cons_eq_cons.1 heq
        omega
    · rw [List.getElem?_append_right hge]
      refine ⟨fun h => .inr ⟨(i - cs.length) :: path, h, ?_⟩, ?_⟩
      · rw [shift, Nat.add_sub_cancel' hge]
      · rintro (⟨child, hchild, -⟩ | ⟨_ | ⟨j, path'⟩, h, heq⟩)
        · rw [List.getElem?_eq_none hge] at hchild
          cases hchild
        · exact h.elim
        · obtain ⟨rfl, rfl⟩ := List.cons_eq_cons.1 heq
          rwa [Nat.add_sub_cancel_left]

namespace VisitsAmong

theorem perm (h : b.VisitsAmong cs nodes) (hperm : nodes.Perm nodes') :
    b.VisitsAmong cs nodes' := by
  obtain ⟨visits, hvisits, hrest⟩ := h
  exact ⟨visits, hvisits.trans hperm, hrest⟩

theorem nil : b.VisitsAmong [] [] :=
  ⟨[], .refl _, List.nodup_nil, fun path node => by cases path <;> simp [MetAmong]⟩

/-- A part is met before those beneath it. -/
theorem single (h : c.Visits nodes) : b.VisitsAmong [c] ((b.shown? c).toList ++ nodes) := by
  obtain ⟨visits, hperm, hnodup, hmem⟩ := h
  refine ⟨(b.shown? c).toList.map ([0], ·) ++ visits.map (fun v => (0 :: v.1, v.2)), ?_, ?_, ?_⟩
  · simpa [Function.comp_def] using hperm.append_left (b.shown? c).toList
  · have hempty : [] ∉ visits.map Prod.fst := by
      intro hempty
      obtain ⟨⟨_, node⟩, hnode, rfl⟩ := List.mem_map.1 hempty
      exact (hmem [] node).1 hnode
    have hbelow := hnodup.map (List.cons_injective (a := 0))
    cases b.shown? c <;> simp_all [Function.comp_def]
  · rintro (_ | ⟨_ | i, path⟩) node
    · simp [MetAmong]
    · simp [MetAmong, hmem, and_comm]
    · simp [MetAmong]

/-- **Children in a row** are visited one behind the other. -/
theorem append (h : b.VisitsAmong cs nodes) (h' : b.VisitsAmong cs' nodes') :
    b.VisitsAmong (cs ++ cs') (nodes ++ nodes') := by
  obtain ⟨visits, hperm, hnodup, hmem⟩ := h
  obtain ⟨visits', hperm', hnodup', hmem'⟩ := h'
  refine ⟨visits ++ visits'.map (fun v => (shift cs.length v.1, v.2)), ?_, ?_, ?_⟩
  · rw [List.map_append, List.map_map]
    exact hperm.append hperm'
  · rw [List.map_append, List.map_map]
    refine List.nodup_append.2 ⟨hnodup, ?_, ?_⟩
    · have := hnodup'.map (shift_injective cs.length)
      rwa [List.map_map] at this
    · rintro path hpath _ hpath' rfl
      obtain ⟨⟨_, node⟩, hnode, rfl⟩ := List.mem_map.1 hpath
      obtain ⟨⟨_ | ⟨j, path'⟩, node'⟩, hnode', heq⟩ := List.mem_map.1 hpath'
      · exact (hmem' _ _).1 hnode'
      · obtain rfl : (cs.length + j) :: path' = _ := heq
        obtain ⟨child, hchild, -⟩ := (hmem _ _).1 hnode
        rw [List.getElem?_eq_none (Nat.le_add_right _ _)] at hchild
        cases hchild
  · intro path node
    rw [metAmong_append, List.mem_append, hmem, List.mem_map]
    refine or_congr_right ⟨?_, ?_⟩
    · rintro ⟨⟨path', node'⟩, hnode, heq⟩
      obtain ⟨rfl, rfl⟩ := Prod.mk.inj heq
      exact ⟨path', (hmem' _ _).1 hnode, rfl⟩
    · rintro ⟨path', hnode, rfl⟩
      exact ⟨(path', node), (hmem' _ _).2 hnode, rfl⟩

/-- A part that is a node is met before those beneath it. -/
theorem here (node : Node) (h : c.VisitsAmong cs nodes) (hchildren : c.children = cs)
    (hnode : b.shown? c = some node) : b.VisitsAmong [c] (node :: nodes) := by
  have hvisits := single (b := b) (.of_among (hchildren ▸ h))
  rwa [hnode] at hvisits

/-- Of a part that is no node only those beneath it are met. -/
theorem beneath (h : c.VisitsAmong cs nodes) (hchildren : c.children = cs)
    (hnode : b.shown? c = none) : b.VisitsAmong [c] nodes := by
  have hvisits := single (b := b) (.of_among (hchildren ▸ h))
  rwa [hnode] at hvisits

end VisitsAmong

/-! ## Walks -/

theorem visits_typeRef (b : Branch) (hb : b.isEnumConstant = false) (ref : TypeRef) :
    b.VisitsAmong [.typeRef ref] [.typeRef ref] :=
  .here (.typeRef ref) .nil rfl (if_neg (Bool.eq_false_iff.1 hb))

theorem visits_typeRefs (b : Branch) (hb : b.isEnumConstant = false) (refs : List TypeRef) :
    b.VisitsAmong (refs.map .typeRef) (refs.map .typeRef) := by
  induction refs with
  | nil => exact .nil
  | cons ref refs ih => exact (visits_typeRef b hb ref).append ih

/-- The type of a field is met unless the field is an enum constant. -/
theorem visits_fieldType (head : FieldHead) (init : Option Expr) :
    (Branch.member (.field head init)).VisitsAmong [.typeRef head.type]
      (if head.isEnumConstant then [] else [.typeRef head.type]) := by
  cases hconstant : head.isEnumConstant with
  | true => exact .beneath .nil rfl (if_pos hconstant)
  | false => exact visits_typeRef (.member (.field head init)) hconstant head.type

open Walk

mutual

theorem visits_typeDecl : ∀ (b : Branch) (decl : TypeDecl),
    b.VisitsAmong [.type decl] (typeDecl decl)
  | _, ⟨head, body⟩ =>
    .here (.type ⟨head, body⟩)
      ((visits_typeRefs _ rfl (head.superclass.toList ++ head.interfaces)).append
        (visits_members _ body)) rfl rfl

theorem visits_members : ∀ (b : Branch) (ms : List Member),
    b.VisitsAmong (ms.map .member) (members ms)
  | _, [] => .nil
  | b, m :: ms => (visits_member b m).append (visits_members b ms)

theorem visits_member : ∀ (b : Branch) (m : Member), b.VisitsAmong [.member m] (Walk.member m)
  | _, .field head init =>
    .here (.field head init)
      ((visits_fieldType head init).append (visits_exprOpt (.member (.field head init)) init)) rfl
      rfl
  | _, .method head body =>
    .here (.method head body)
      ((visits_typeRefs _ rfl
        (head.returnType.toList ++ head.params.map (·.type) ++ head.throws)).append
          (visits_methodBody (.member (.method head body)) rfl body)) rfl rfl
  | _, .initializer isStatic ⟨body, range⟩ _ =>
    .here (.initializer isStatic ⟨body, range⟩)
      (.beneath (visits_stmts (.block ⟨body, range⟩) body) rfl rfl) rfl rfl
  | _, .type decl => .beneath (visits_typeDecl (.member (.type decl)) decl) rfl rfl

theorem visits_methodBody : ∀ (b : Branch) (_ : b.isInitializer = false) (body : MethodBody),
    b.VisitsAmong (ofMethodBody body) (methodBody body)
  | b, hb, .block body => visits_block b hb body
  | _, _, .absent => .nil
  | _, _, .unparsed _ => .nil

theorem visits_block : ∀ (b : Branch) (_ : b.isInitializer = false) (body : Block),
    b.VisitsAmong [.block body] (Walk.block body)
  | _, hb, ⟨body, range⟩ =>
    .here (.block ⟨body, range⟩) (visits_stmts (.block ⟨body, range⟩) body) rfl
      (if_neg (Bool.eq_false_iff.1 hb))

theorem visits_blockOpt : ∀ (b : Branch) (_ : b.isInitializer = false) (body : Option Block),
    b.VisitsAmong (body.toList.map .block) (blockOpt body)
  | _, _, none => .nil
  | b, hb, some body => visits_block b hb body

theorem visits_stmts : ∀ (b : Branch) (ss : List Stmt), b.VisitsAmong (ss.map .stmt) (stmts ss)
  | _, [] => .nil
  | b, s :: ss => (visits_stmt b s).append (visits_stmts b ss)

theorem visits_stmtOpt : ∀ (b : Branch) (s : Option Stmt),
    b.VisitsAmong (s.toList.map .stmt) (stmtOpt s)
  | _, none => .nil
  | b, some s => visits_stmt b s

theorem visits_localVar : ∀ (b : Branch) (v : LocalVar),
    b.VisitsAmong [.localVar v] (Walk.localVar v)
  | _, ⟨ref, name, init⟩ =>
    .here (.localVar ⟨ref, name, init⟩)
      ((visits_typeRef _ rfl ref).append (visits_exprOpt _ init)) rfl rfl

theorem visits_localVars : ∀ (b : Branch) (vs : List LocalVar),
    b.VisitsAmong (vs.map .localVar) (localVars vs)
  | _, [] => .nil
  | b, v :: vs => (visits_localVar b v).append (visits_localVars b vs)

theorem visits_catches : ∀ (b : Branch) (_ : b.isInitializer = false) (_ : b.isEnumConstant = false)
    (cs : List CatchClause),
    b.VisitsAmong (cs.flatMap fun c => [.typeRef c.param.type, .block c.body]) (catches cs)
  | _, _, _, [] => .nil
  | b, hb, hb', ⟨param, body⟩ :: cs =>
    ((visits_typeRef b hb' param.type).append (visits_block b hb body)).append
      (visits_catches b hb hb' cs)

theorem visits_cases : ∀ (b : Branch) (cs : List SwitchCase),
    b.VisitsAmong (cs.flatMap fun c => c.labels.map .expr ++ c.body.map .stmt) (cases cs)
  | _, [] => .nil
  | b, ⟨labels, body⟩ :: cs =>
    ((visits_exprs b labels).append (visits_stmts b body)).append (visits_cases b cs)

theorem visits_stmt : ∀ (b : Branch) (s : Stmt), b.VisitsAmong [.stmt s] (Walk.stmt s)
  | _, .block body => .here (.stmt (.block body)) (visits_block _ rfl body) rfl rfl
  | _, .locals vars => .here (.stmt (.locals vars)) (visits_localVars _ vars) rfl rfl
  | _, .expr e => .here (.stmt (.expr e)) (visits_expr _ e) rfl rfl
  | _, .return value => .here (.stmt (.return value)) (visits_exprOpt _ value) rfl rfl
  | _, .throw value => .here (.stmt (.throw value)) (visits_expr _ value) rfl rfl
  | _, .ifThen cond yes no =>
    .here (.stmt (.ifThen cond yes no))
      (((visits_expr _ cond).append (visits_stmt _ yes)).append (visits_stmtOpt _ no)) rfl rfl
  | _, .while cond body =>
    .here (.stmt (.while cond body)) ((visits_expr _ cond).append (visits_stmt _ body)) rfl rfl
  | _, .doWhile body cond =>
    .here (.stmt (.doWhile body cond))
      -- the condition is met before the body, which is written before it
      (.perm ((visits_stmt _ body).append (visits_expr _ cond)) List.perm_append_comm) rfl rfl
  | _, .for init cond update body =>
    .here (.stmt (.for init cond update body))
      ((((visits_stmts _ init).append (visits_exprOpt _ cond)).append
        (visits_exprs _ update)).append (visits_stmt _ body)) rfl rfl
  | _, .forEach var iterable body =>
    .here (.stmt (.forEach var iterable body))
      (.perm (((visits_localVar _ var).append (visits_expr _ iterable)).append (visits_stmt _ body))
        (List.perm_append_comm.append_right _)) rfl rfl
  | _, .try body handlers cleanup =>
    .here (.stmt (.try body handlers cleanup))
      (((visits_block _ rfl body).append (visits_catches _ rfl rfl handlers)).append
        (visits_blockOpt _ rfl cleanup)) rfl rfl
  | _, .switch selector groups =>
    .here (.stmt (.switch selector groups))
      ((visits_expr _ selector).append (visits_cases _ groups)) rfl rfl
  | _, .synchronized lock body =>
    .here (.stmt (.synchronized lock body))
      ((visits_expr _ lock).append (visits_block _ rfl body)) rfl rfl
  | _, .assert cond message =>
    .here (.stmt (.assert cond message))
      ((visits_expr _ cond).append (visits_exprOpt _ message)) rfl rfl
  | _, .localClass decl => .here (.stmt (.localClass decl)) (visits_typeDecl _ decl) rfl rfl
  | _, .break => .here (.stmt .break) .nil rfl rfl
  | _, .continue => .here (.stmt .continue) .nil rfl rfl
  | _, .empty => .here (.stmt .empty) .nil rfl rfl

theorem visits_exprs : ∀ (b : Branch) (es : List Expr), b.VisitsAmong (es.map .expr) (exprs es)
  | _, [] => .nil
  | b, e :: es => (visits_expr b e).append (visits_exprs b es)

theorem visits_exprOpt : ∀ (b : Branch) (e : Option Expr),
    b.VisitsAmong (e.toList.map .expr) (exprOpt e)
  | _, none => .nil
  | b, some e => visits_expr b e

theorem visits_exprsOpt : ∀ (b : Branch) (es : Option (List Expr)),
    b.VisitsAmong ((es.getD []).map .expr) (exprsOpt es)
  | _, none => .nil
  | b, some es => visits_exprs b es

theorem visits_membersOpt : ∀ (b : Branch) (ms : Option (List Member)),
    b.VisitsAmong ((ms.getD []).map .member) (membersOpt ms)
  | _, none => .nil
  | b, some ms => visits_members b ms

theorem visits_expr : ∀ (b : Branch) (e : Expr), b.VisitsAmong [.expr e] (Walk.expr e)
  | _, ⟨kind, range⟩ =>
    .here (.expr ⟨kind, range⟩) (visits_exprKind (.expr ⟨kind, range⟩) rfl rfl kind) rfl rfl

theorem visits_exprKind : ∀ (b : Branch) (_ : b.isInitializer = false)
    (_ : b.isEnumConstant = false) (kind : ExprKind),
    b.VisitsAmong (ofExprKind kind) (exprKind kind)
  | _, _, _, .literal _ => .nil
  | _, _, _, .name _ => .nil
  | _, _, _, .this => .nil
  | _, _, _, .super => .nil
  | b, _, _, .fieldAccess target _ => visits_expr b target
  | b, _, _, .call target _ args => (visits_exprOpt b target).append (visits_exprs b args)
  | b, _, hb, .new ref args body =>
    ((visits_typeRef b hb ref).append (visits_exprs b args)).append (visits_membersOpt b body)
  | b, _, hb, .newArray ref dims init =>
    ((visits_typeRef b hb ref).append (visits_exprs b dims)).append (visits_exprsOpt b init)
  | b, _, _, .arrayInit items => visits_exprs b items
  | b, _, _, .arrayAccess array index => (visits_expr b array).append (visits_expr b index)
  | b, _, _, .constructorCall _ args => visits_exprs b args
  | b, _, hb, .classLiteral ref => visits_typeRef b hb ref
  | b, _, _, .assign target value => (visits_expr b target).append (visits_expr b value)
  | b, _, _, .binary _ lhs rhs => (visits_expr b lhs).append (visits_expr b rhs)
  | b, _, _, .unary _ operand => visits_expr b operand
  | b, _, hb, .cast ref e => (visits_typeRef b hb ref).append (visits_expr b e)
  | b, _, hb, .instanceOf e ref => (visits_expr b e).append (visits_typeRef b hb ref)
  | b, _, _, .conditional cond yes no =>
    ((visits_expr b cond).append (visits_expr b yes)).append (visits_expr b no)
  | b, _, _, .paren inner => visits_expr b inner
  | b, hb', hb, .lambda params body =>
    (visits_typeRefs b hb (params.filterMap LambdaParam.type)).append (visits_lambdaBody b hb' body)
  | b, _, _, .methodRef target _ => visits_expr b target

theorem visits_lambdaBody : ∀ (b : Branch) (_ : b.isInitializer = false) (body : LambdaBody),
    b.VisitsAmong (ofLambdaBody body) (lambdaBody body)
  | b, _, .expr e => visits_expr b e
  | b, hb, .block body => visits_block b hb body

end

/-- **A walk through a unit** meets every node of it once. -/
theorem visits_unit (u : CompilationUnit) : (Branch.unit u).Visits (Walk.unit u) := by
  refine .of_among ?_
  show (Branch.unit u).VisitsAmong (u.types.map .type) (u.types.flatMap typeDecl)
  induction u.types with
  | nil => exact .nil
  | cons decl decls ih => exact (visits_typeDecl _ decl).append ih

end Branch

end SourceSearch
