import Mathlib.Data.List.Basic
import SourceSearch.Binding.Places
import SourceSearch.Walk

/-!
# Places are nodes

Binding lists the expressions and written types of a body with the locals at their places. It walks
through the body on its own, since locals come and go on the way; what it lists are nodes of the
tree, in their order and each at most once (`memberPlaces_placed`). The proof follows the two walks
side by side, one case for each form of statement and of expression.
-/

set_option autoImplicit false

namespace SourceSearch

/-- The node that stands at a place. -/
def Place.node : Place → Node
  | .expr _ e => .expr e
  | .typeRef ref => .typeRef ref

/-- What stands at the places is among the nodes, in the same order. -/
def PlacedIn (places : List Place) (nodes : List Node) : Prop :=
  (places.map Place.node).Sublist nodes

namespace PlacedIn

variable {places others : List Place} {nodes more : List Node}

theorem nil : PlacedIn [] nodes := List.nil_sublist nodes

theorem cons {place : Place} (h : PlacedIn places nodes) :
    PlacedIn (place :: places) (place.node :: nodes) :=
  h.cons_cons place.node

theorem append (h : PlacedIn places nodes) (h' : PlacedIn others more) :
    PlacedIn (places ++ others) (nodes ++ more) := by
  rw [PlacedIn, List.map_append]
  exact List.Sublist.append h h'

theorem skip {node : Node} (h : PlacedIn places nodes) : PlacedIn places (node :: nodes) :=
  List.Sublist.cons node h

theorem typeRefs (refs : List TypeRef) : PlacedIn (refs.map .typeRef) (refs.map .typeRef) := by
  rw [PlacedIn, List.map_map]
  exact List.Sublist.refl _

end PlacedIn

namespace BoundWorkspace

variable (s : BoundWorkspace) (scope : NameScope)

theorem fieldTypePlaces_placed (head : FieldHead) :
    PlacedIn (fieldTypePlaces head) (if head.isEnumConstant then [] else [.typeRef head.type]) := by
  unfold fieldTypePlaces
  split
  · exact .nil
  · exact PlacedIn.nil.cons

mutual

theorem typePlaces_placed (locals : Locals) :
    ∀ decl : TypeDecl, PlacedIn (s.typePlaces scope locals decl) (Walk.typeDecl decl)
  | ⟨head, members⟩ => by
    rw [typePlaces, Walk.typeDecl, List.cons_append]
    exact ((PlacedIn.typeRefs _).append (membersPlaces_placed locals members)).skip

theorem membersPlaces_placed (locals : Locals) :
    ∀ ms : List Member, PlacedIn (s.membersPlaces scope locals ms) (Walk.members ms)
  | [] => by
    rw [membersPlaces]
    exact .nil
  | m :: ms => by
    rw [membersPlaces, Walk.members]
    exact (memberPlaces_placed locals m).append (membersPlaces_placed locals ms)

/-- **The places of a member** are nodes of the member. -/
theorem memberPlaces_placed (locals : Locals) :
    ∀ m : Member, PlacedIn (s.memberPlaces scope locals m) (Walk.member m)
  | .field head init => by
    rw [memberPlaces, Walk.member, List.cons_append]
    exact ((fieldTypePlaces_placed head).append (exprOptPlaces_placed locals init)).skip
  | .method head body => by
    rw [memberPlaces, Walk.member, List.cons_append]
    exact ((PlacedIn.typeRefs _).append (bodyPlaces_placed _ body)).skip
  | .initializer isStatic ⟨body, range⟩ _ => by
    rw [memberPlaces, blockPlaces, Walk.member]
    exact (stmtsPlaces_placed locals body).skip
  | .type decl => by
    rw [memberPlaces, Walk.member]
    exact typePlaces_placed locals decl

theorem bodyPlaces_placed (locals : Locals) :
    ∀ body : MethodBody, PlacedIn (s.bodyPlaces scope locals body) (Walk.methodBody body)
  | .block b => by
    rw [bodyPlaces, Walk.methodBody]
    exact blockPlaces_placed locals b
  | .absent => by
    rw [bodyPlaces]
    exact .nil
  | .unparsed _ => by
    rw [bodyPlaces]
    exact .nil

theorem blockPlaces_placed (locals : Locals) :
    ∀ b : Block, PlacedIn (s.blockPlaces scope locals b) (Walk.block b)
  | ⟨stmts, range⟩ => by
    rw [blockPlaces, Walk.block]
    exact (stmtsPlaces_placed locals stmts).skip

theorem blockOptPlaces_placed (locals : Locals) :
    ∀ b : Option Block, PlacedIn (s.blockOptPlaces scope locals b) (Walk.blockOpt b)
  | none => by
    rw [blockOptPlaces]
    exact .nil
  | some b => by
    rw [blockOptPlaces, Walk.blockOpt]
    exact blockPlaces_placed locals b

theorem stmtsPlaces_placed (locals : Locals) :
    ∀ ss : List Stmt, PlacedIn (s.stmtsPlaces scope locals ss).1 (Walk.stmts ss)
  | [] => by
    rw [stmtsPlaces]
    exact .nil
  | st :: rest => by
    rw [stmtsPlaces, Walk.stmts]
    exact (stmtPlaces_placed locals st).append (stmtsPlaces_placed _ rest)

theorem stmtOptPlaces_placed (locals : Locals) :
    ∀ st : Option Stmt, PlacedIn (s.stmtOptPlaces scope locals st).1 (Walk.stmtOpt st)
  | none => by
    rw [stmtOptPlaces]
    exact .nil
  | some st => by
    rw [stmtOptPlaces, Walk.stmtOpt]
    exact stmtPlaces_placed locals st

theorem varPlaces_placed (locals : Locals) :
    ∀ v : LocalVar, PlacedIn (s.varPlaces scope locals v).1 (Walk.localVar v)
  | ⟨type, name, init⟩ => by
    rw [varPlaces, Walk.localVar]
    exact (exprOptPlaces_placed locals init).cons.skip

theorem varsPlaces_placed (locals : Locals) :
    ∀ vs : List LocalVar, PlacedIn (s.varsPlaces scope locals vs).1 (Walk.localVars vs)
  | [] => by
    rw [varsPlaces]
    exact .nil
  | v :: vs => by
    rw [varsPlaces, Walk.localVars]
    exact (varPlaces_placed locals v).append (varsPlaces_placed _ vs)

theorem catchesPlaces_placed (locals : Locals) :
    ∀ cs : List CatchClause, PlacedIn (s.catchesPlaces scope locals cs) (Walk.catches cs)
  | [] => by
    rw [catchesPlaces]
    exact .nil
  | ⟨param, body⟩ :: rest => by
    rw [catchesPlaces, Walk.catches, List.cons_append, List.cons_append]
    exact ((blockPlaces_placed _ body).append (catchesPlaces_placed locals rest)).cons

theorem casesPlaces_placed (locals : Locals) :
    ∀ cs : List SwitchCase, PlacedIn (s.casesPlaces scope locals cs).1 (Walk.cases cs)
  | [] => by
    rw [casesPlaces]
    exact .nil
  | ⟨labels, body⟩ :: rest => by
    rw [casesPlaces, Walk.cases]
    exact ((exprsPlaces_placed locals labels).append (stmtsPlaces_placed locals body)).append
      (casesPlaces_placed _ rest)

theorem stmtPlaces_placed (locals : Locals) :
    ∀ st : Stmt, PlacedIn (s.stmtPlaces scope locals st).1 (Walk.stmt st)
  | .block b => by
    rw [stmtPlaces, Walk.stmt]
    exact (blockPlaces_placed locals b).skip
  | .locals vars => by
    rw [stmtPlaces, Walk.stmt]
    exact (varsPlaces_placed locals vars).skip
  | .expr e => by
    rw [stmtPlaces, Walk.stmt]
    exact (exprPlaces_placed locals e).skip
  | .return value => by
    rw [stmtPlaces, Walk.stmt]
    exact (exprOptPlaces_placed locals value).skip
  | .throw value => by
    rw [stmtPlaces, Walk.stmt]
    exact (exprPlaces_placed locals value).skip
  | .ifThen cond yes no => by
    rw [stmtPlaces, Walk.stmt, List.cons_append, List.cons_append]
    exact (((exprPlaces_placed locals cond).append (stmtPlaces_placed locals yes)).append
      (stmtOptPlaces_placed _ no)).skip
  | .while cond body => by
    rw [stmtPlaces, Walk.stmt, List.cons_append]
    exact ((exprPlaces_placed locals cond).append (stmtPlaces_placed locals body)).skip
  | .doWhile body cond => by
    rw [stmtPlaces, Walk.stmt, List.cons_append]
    exact ((exprPlaces_placed locals cond).append (stmtPlaces_placed locals body)).skip
  | .for init cond update body => by
    rw [stmtPlaces, Walk.stmt, List.cons_append, List.cons_append, List.cons_append]
    exact ((((stmtsPlaces_placed locals init).append (exprOptPlaces_placed _ cond)).append
      (exprsPlaces_placed _ update)).append (stmtPlaces_placed _ body)).skip
  | .forEach var iterable body => by
    rw [stmtPlaces, Walk.stmt, List.cons_append, List.cons_append]
    exact (((exprPlaces_placed locals iterable).append (varPlaces_placed locals var)).append
      (stmtPlaces_placed _ body)).skip
  | .try body handlers cleanup => by
    rw [stmtPlaces, Walk.stmt, List.cons_append, List.cons_append]
    exact (((blockPlaces_placed locals body).append (catchesPlaces_placed locals handlers)).append
      (blockOptPlaces_placed locals cleanup)).skip
  | .switch selector groups => by
    rw [stmtPlaces, Walk.stmt, List.cons_append]
    exact ((exprPlaces_placed locals selector).append (casesPlaces_placed locals groups)).skip
  | .synchronized lock body => by
    rw [stmtPlaces, Walk.stmt, List.cons_append]
    exact ((exprPlaces_placed locals lock).append (blockPlaces_placed locals body)).skip
  | .assert cond message => by
    rw [stmtPlaces, Walk.stmt, List.cons_append]
    exact ((exprPlaces_placed locals cond).append (exprOptPlaces_placed locals message)).skip
  | .localClass decl => by
    rw [stmtPlaces, Walk.stmt]
    exact (typePlaces_placed locals decl).skip
  | .break => by
    rw [stmtPlaces]
    exact .nil
  | .continue => by
    rw [stmtPlaces]
    exact .nil
  | .empty => by
    rw [stmtPlaces]
    exact .nil

theorem exprsPlaces_placed (locals : Locals) :
    ∀ es : List Expr, PlacedIn (s.exprsPlaces scope locals es) (Walk.exprs es)
  | [] => by
    rw [exprsPlaces]
    exact .nil
  | e :: es => by
    rw [exprsPlaces, Walk.exprs]
    exact (exprPlaces_placed locals e).append (exprsPlaces_placed locals es)

theorem exprOptPlaces_placed (locals : Locals) :
    ∀ e : Option Expr, PlacedIn (s.exprOptPlaces scope locals e) (Walk.exprOpt e)
  | none => by
    rw [exprOptPlaces]
    exact .nil
  | some e => by
    rw [exprOptPlaces, Walk.exprOpt]
    exact exprPlaces_placed locals e

theorem exprsOptPlaces_placed (locals : Locals) :
    ∀ es : Option (List Expr), PlacedIn (s.exprsOptPlaces scope locals es) (Walk.exprsOpt es)
  | none => by
    rw [exprsOptPlaces]
    exact .nil
  | some es => by
    rw [exprsOptPlaces, Walk.exprsOpt]
    exact exprsPlaces_placed locals es

theorem membersOptPlaces_placed (locals : Locals) :
    ∀ ms : Option (List Member),
      PlacedIn (s.membersOptPlaces scope locals ms) (Walk.membersOpt ms)
  | none => by
    rw [membersOptPlaces]
    exact .nil
  | some ms => by
    rw [membersOptPlaces, Walk.membersOpt]
    exact membersPlaces_placed locals ms

theorem exprPlaces_placed (locals : Locals) :
    ∀ e : Expr, PlacedIn (s.exprPlaces scope locals e) (Walk.expr e)
  | ⟨kind, range⟩ => by
    rw [exprPlaces, Walk.expr]
    exact (partPlaces_placed locals kind).cons

theorem partPlaces_placed (locals : Locals) :
    ∀ kind : ExprKind, PlacedIn (s.partPlaces scope locals kind) (Walk.exprKind kind)
  | .literal _ => by
    rw [partPlaces]
    exact .nil
  | .name _ => by
    rw [partPlaces]
    exact .nil
  | .this => by
    rw [partPlaces]
    exact .nil
  | .super => by
    rw [partPlaces]
    exact .nil
  | .fieldAccess target name => by
    rw [partPlaces, Walk.exprKind]
    split
    · exact .nil
    · exact exprPlaces_placed locals target
  | .call target _ args => by
    rw [partPlaces, Walk.exprKind]
    exact (exprOptPlaces_placed locals target).append (exprsPlaces_placed locals args)
  | .new type args body => by
    rw [partPlaces, Walk.exprKind, List.cons_append, List.cons_append]
    exact ((exprsPlaces_placed locals args).append (membersOptPlaces_placed locals body)).cons
  | .newArray type dims init => by
    rw [partPlaces, Walk.exprKind, List.cons_append, List.cons_append]
    exact ((exprsPlaces_placed locals dims).append (exprsOptPlaces_placed locals init)).cons
  | .arrayInit items => by
    rw [partPlaces, Walk.exprKind]
    exact exprsPlaces_placed locals items
  | .arrayAccess array index => by
    rw [partPlaces, Walk.exprKind]
    exact (exprPlaces_placed locals array).append (exprPlaces_placed locals index)
  | .constructorCall _ args => by
    rw [partPlaces, Walk.exprKind]
    exact exprsPlaces_placed locals args
  | .classLiteral type => by
    rw [partPlaces, Walk.exprKind]
    exact PlacedIn.nil.cons
  | .assign target value => by
    rw [partPlaces, Walk.exprKind]
    exact (exprPlaces_placed locals target).append (exprPlaces_placed locals value)
  | .binary _ lhs rhs => by
    rw [partPlaces, Walk.exprKind]
    exact (exprPlaces_placed locals lhs).append (exprPlaces_placed locals rhs)
  | .unary _ operand => by
    rw [partPlaces, Walk.exprKind]
    exact exprPlaces_placed locals operand
  | .cast type e => by
    rw [partPlaces, Walk.exprKind]
    exact (exprPlaces_placed locals e).cons
  | .instanceOf e type => by
    rw [partPlaces, Walk.exprKind]
    exact (exprPlaces_placed locals e).append PlacedIn.nil.cons
  | .conditional cond yes no => by
    rw [partPlaces, Walk.exprKind]
    exact ((exprPlaces_placed locals cond).append (exprPlaces_placed locals yes)).append
      (exprPlaces_placed locals no)
  | .paren inner => by
    rw [partPlaces, Walk.exprKind]
    exact exprPlaces_placed locals inner
  | .lambda params body => by
    rw [partPlaces, Walk.exprKind]
    exact (PlacedIn.typeRefs _).append (lambdaPlaces_placed _ body)
  | .methodRef target _ => by
    rw [partPlaces, Walk.exprKind]
    exact exprPlaces_placed locals target

theorem lambdaPlaces_placed (locals : Locals) :
    ∀ body : LambdaBody, PlacedIn (s.lambdaPlaces scope locals body) (Walk.lambdaBody body)
  | .expr e => by
    rw [lambdaPlaces, Walk.lambdaBody]
    exact exprPlaces_placed locals e
  | .block b => by
    rw [lambdaPlaces, Walk.lambdaBody]
    exact blockPlaces_placed locals b

end

theorem memberPlaces_subset (locals : Locals) (m : Member) :
    ∀ place ∈ s.memberPlaces scope locals m, place.node ∈ Walk.member m :=
  fun _ hplace => (s.memberPlaces_placed scope locals m).subset (List.mem_map_of_mem hplace)

end BoundWorkspace

end SourceSearch
