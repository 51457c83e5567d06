import SourceSearch.Binding.Places
import SourceSearch.Proofs.RenamedExpressions

/-!
# Places under other numbers

A walk through a body in a renamed place meets the same expressions and written types in the same
order, each expression with its renamed locals (`memberPlaces`). Only the locals and the question
whether a qualified name is that of a type depend on binding; the rest of the walk follows the tree.
-/

set_option autoImplicit false

namespace SourceSearch

namespace Renaming

variable (r : Renaming)

def place : Place → Place
  | .expr locals e => .expr (r.locals locals) e
  | .typeRef ref => .typeRef ref

/-- What a walk through statements gives: their places, and the locals after them. -/
def walked (walked : List Place × Locals) : List Place × Locals :=
  (walked.1.map r.place, r.locals walked.2)

@[simp] theorem place_typeRef (ref : TypeRef) : r.place (.typeRef ref) = .typeRef ref := rfl

@[simp] theorem place_expr (locals : Locals) (e : Expr) :
    r.place (.expr locals e) = .expr (r.locals locals) e := rfl

@[simp] theorem map_place_typeRef (refs : List TypeRef) :
    (refs.map Place.typeRef).map r.place = refs.map Place.typeRef := by
  rw [List.map_map]
  rfl

@[simp] theorem walked_fst (walked : List Place × Locals) :
    (r.walked walked).1 = walked.1.map r.place := rfl

@[simp] theorem walked_snd (walked : List Place × Locals) :
    (r.walked walked).2 = r.locals walked.2 := rfl

end Renaming

namespace BoundWorkspace.RenamedBy

variable {r : Renaming} {s s' : BoundWorkspace} {scope scope' : NameScope}

/-! ## Locals -/

theorem paramLocals (h : s.RenamedBy r s') (hscope : scope.RenamedBy r scope') (locals : Locals)
    (params : List Param) :
    s'.paramLocals scope' (r.locals locals) params = r.locals (s.paramLocals scope locals params) := by
  apply List.foldl_hom r.locals
  intro locals p
  rw [h.staticTypeOfRef hscope, r.locals_declare]

theorem lambdaLocals (h : s.RenamedBy r s') (hscope : scope.RenamedBy r scope') (locals : Locals)
    (params : List LambdaParam) :
    s'.lambdaLocals scope' (r.locals locals) params =
      r.locals (s.lambdaLocals scope locals params) := by
  apply List.foldl_hom r.locals
  intro locals p
  rw [r.locals_declare]
  congr 1
  cases p.type with
  | none => rfl
  | some ref => exact h.staticTypeOfRef hscope ref

theorem isTypeAccess (h : s.RenamedBy r s') (hscope : scope.RenamedBy r scope') (locals : Locals)
    (target : Expr) (name : Ident) :
    s'.isTypeAccess scope' (r.locals locals) target name =
      s.isTypeAccess scope locals target name := by
  rw [BoundWorkspace.isTypeAccess, h.meaning hscope, h.meaningOfMember hscope,
    BoundWorkspace.isTypeAccess]
  cases s.meaningOfMember scope (s.meaning scope locals target) name.text <;> rfl

/-! ## Places -/

mutual

theorem typePlaces (h : s.RenamedBy r s') (hscope : scope.RenamedBy r scope')
    (locals : Locals) : ∀ x : TypeDecl,
    s'.typePlaces scope' (r.locals locals) x = (s.typePlaces scope locals x).map r.place
  | ⟨head, members⟩ => by
    rw [BoundWorkspace.typePlaces, membersPlaces h hscope locals members,
      BoundWorkspace.typePlaces]
    simp only [List.map_append, r.map_place_typeRef]

theorem membersPlaces (h : s.RenamedBy r s') (hscope : scope.RenamedBy r scope')
    (locals : Locals) : ∀ x : List Member,
    s'.membersPlaces scope' (r.locals locals) x = (s.membersPlaces scope locals x).map r.place
  | [] => rfl
  | m :: ms => by
    rw [BoundWorkspace.membersPlaces, memberPlaces h hscope locals m, membersPlaces h hscope locals ms,
      BoundWorkspace.membersPlaces, List.map_append]

/-- **The places in a member** are the same, with renamed locals. -/
theorem memberPlaces (h : s.RenamedBy r s') (hscope : scope.RenamedBy r scope')
    (locals : Locals) : ∀ x : Member,
    s'.memberPlaces scope' (r.locals locals) x = (s.memberPlaces scope locals x).map r.place
  | .field head init => by
    have htype : (fieldTypePlaces head).map r.place = fieldTypePlaces head := by
      unfold fieldTypePlaces
      split <;> rfl
    rw [BoundWorkspace.memberPlaces, exprOptPlaces h hscope locals init, BoundWorkspace.memberPlaces,
      List.map_append, htype]
  | .method head body => by
    rw [BoundWorkspace.memberPlaces, h.paramLocals hscope, bodyPlaces h hscope _ body,
      BoundWorkspace.memberPlaces, List.map_append, headPlaces, r.map_place_typeRef]
  | .initializer isStatic body range => by
    rw [BoundWorkspace.memberPlaces, blockPlaces h hscope locals body, BoundWorkspace.memberPlaces]
  | .type decl => by
    rw [BoundWorkspace.memberPlaces, typePlaces h hscope locals decl, BoundWorkspace.memberPlaces]

theorem bodyPlaces (h : s.RenamedBy r s') (hscope : scope.RenamedBy r scope')
    (locals : Locals) : ∀ x : MethodBody,
    s'.bodyPlaces scope' (r.locals locals) x = (s.bodyPlaces scope locals x).map r.place
  | .block b => by
    rw [BoundWorkspace.bodyPlaces, blockPlaces h hscope locals b, BoundWorkspace.bodyPlaces]
  | .absent => rfl
  | .unparsed range => rfl

theorem blockPlaces (h : s.RenamedBy r s') (hscope : scope.RenamedBy r scope')
    (locals : Locals) : ∀ x : Block,
    s'.blockPlaces scope' (r.locals locals) x = (s.blockPlaces scope locals x).map r.place
  | ⟨stmts, range⟩ => by
    rw [BoundWorkspace.blockPlaces, stmtsPlaces h hscope locals stmts, BoundWorkspace.blockPlaces, r.walked_fst]

theorem blockOptPlaces (h : s.RenamedBy r s') (hscope : scope.RenamedBy r scope')
    (locals : Locals) : ∀ x : Option Block,
    s'.blockOptPlaces scope' (r.locals locals) x = (s.blockOptPlaces scope locals x).map r.place
  | none => rfl
  | some b => by
    rw [BoundWorkspace.blockOptPlaces, blockPlaces h hscope locals b, BoundWorkspace.blockOptPlaces]

/-- The places of statements, and the locals after them, which the next one starts with. -/
theorem stmtsPlaces (h : s.RenamedBy r s') (hscope : scope.RenamedBy r scope')
    (locals : Locals) : ∀ x : List Stmt,
    s'.stmtsPlaces scope' (r.locals locals) x = r.walked (s.stmtsPlaces scope locals x)
  | [] => rfl
  | st :: rest => by
    rw [BoundWorkspace.stmtsPlaces, stmtPlaces h hscope locals st, BoundWorkspace.stmtsPlaces]
    dsimp only [r.walked_snd]
    rw [stmtsPlaces h hscope _ rest, Renaming.walked, Renaming.walked, Renaming.walked,
      List.map_append]

theorem stmtOptPlaces (h : s.RenamedBy r s') (hscope : scope.RenamedBy r scope')
    (locals : Locals) : ∀ x : Option Stmt,
    s'.stmtOptPlaces scope' (r.locals locals) x = r.walked (s.stmtOptPlaces scope locals x)
  | none => rfl
  | some st => by
    rw [BoundWorkspace.stmtOptPlaces, stmtPlaces h hscope locals st, BoundWorkspace.stmtOptPlaces]

theorem varPlaces (h : s.RenamedBy r s') (hscope : scope.RenamedBy r scope')
    (locals : Locals) : ∀ x : LocalVar,
    s'.varPlaces scope' (r.locals locals) x = r.walked (s.varPlaces scope locals x)
  | ⟨type, name, init⟩ => by
    rw [BoundWorkspace.varPlaces, exprOptPlaces h hscope locals init, h.localType hscope,
      BoundWorkspace.varPlaces, Renaming.walked, List.map_cons, r.place_typeRef, r.locals_declare]

theorem varsPlaces (h : s.RenamedBy r s') (hscope : scope.RenamedBy r scope')
    (locals : Locals) : ∀ x : List LocalVar,
    s'.varsPlaces scope' (r.locals locals) x = r.walked (s.varsPlaces scope locals x)
  | [] => rfl
  | v :: vs => by
    rw [BoundWorkspace.varsPlaces, varPlaces h hscope locals v, BoundWorkspace.varsPlaces]
    dsimp only [r.walked_snd]
    rw [varsPlaces h hscope _ vs, Renaming.walked, Renaming.walked, Renaming.walked,
      List.map_append]

theorem catchesPlaces (h : s.RenamedBy r s') (hscope : scope.RenamedBy r scope')
    (locals : Locals) : ∀ x : List CatchClause,
    s'.catchesPlaces scope' (r.locals locals) x = (s.catchesPlaces scope locals x).map r.place
  | [] => rfl
  | ⟨param, body⟩ :: rest => by
    rw [BoundWorkspace.catchesPlaces, h.paramLocals hscope, blockPlaces h hscope _ body,
      catchesPlaces h hscope locals rest, BoundWorkspace.catchesPlaces, List.map_append, List.map_cons,
      r.place_typeRef]

theorem casesPlaces (h : s.RenamedBy r s') (hscope : scope.RenamedBy r scope')
    (locals : Locals) : ∀ x : List SwitchCase,
    s'.casesPlaces scope' (r.locals locals) x = r.walked (s.casesPlaces scope locals x)
  | [] => rfl
  | ⟨labels, body⟩ :: rest => by
    rw [BoundWorkspace.casesPlaces, stmtsPlaces h hscope locals body, exprsPlaces h hscope locals labels,
      BoundWorkspace.casesPlaces]
    dsimp only [r.walked_snd]
    rw [casesPlaces h hscope _ rest, Renaming.walked, Renaming.walked, Renaming.walked,
      List.map_append, List.map_append]

/-- **The places of a statement** and the locals after it. -/
theorem stmtPlaces (h : s.RenamedBy r s') (hscope : scope.RenamedBy r scope')
    (locals : Locals) : ∀ x : Stmt,
    s'.stmtPlaces scope' (r.locals locals) x = r.walked (s.stmtPlaces scope locals x)
  | .block b => by
    rw [BoundWorkspace.stmtPlaces, blockPlaces h hscope locals b, BoundWorkspace.stmtPlaces, Renaming.walked]
  | .locals vars => by
    rw [BoundWorkspace.stmtPlaces, varsPlaces h hscope locals vars, BoundWorkspace.stmtPlaces]
  | .expr e => by
    rw [BoundWorkspace.stmtPlaces, exprPlaces h hscope locals e, BoundWorkspace.stmtPlaces, Renaming.walked]
  | .return value => by
    rw [BoundWorkspace.stmtPlaces, exprOptPlaces h hscope locals value, BoundWorkspace.stmtPlaces,
      Renaming.walked]
  | .throw value => by
    rw [BoundWorkspace.stmtPlaces, exprPlaces h hscope locals value, BoundWorkspace.stmtPlaces, Renaming.walked]
  | .ifThen cond yes no => by
    rw [BoundWorkspace.stmtPlaces, stmtPlaces h hscope locals yes, exprPlaces h hscope locals cond,
      BoundWorkspace.stmtPlaces]
    dsimp only [r.walked_snd]
    rw [stmtOptPlaces h hscope _ no, Renaming.walked, Renaming.walked, Renaming.walked,
      List.map_append, List.map_append]
  | .while cond body => by
    rw [BoundWorkspace.stmtPlaces, stmtPlaces h hscope locals body, exprPlaces h hscope locals cond,
      BoundWorkspace.stmtPlaces, Renaming.walked, Renaming.walked, List.map_append]
  | .doWhile body cond => by
    rw [BoundWorkspace.stmtPlaces, stmtPlaces h hscope locals body, exprPlaces h hscope locals cond,
      BoundWorkspace.stmtPlaces, Renaming.walked, Renaming.walked, List.map_append]
  | .for init cond update body => by
    rw [BoundWorkspace.stmtPlaces, stmtsPlaces h hscope locals init, BoundWorkspace.stmtPlaces]
    dsimp only [r.walked_snd]
    rw [exprOptPlaces h hscope _ cond, exprsPlaces h hscope _ update, stmtPlaces h hscope _ body,
      Renaming.walked, Renaming.walked, Renaming.walked, List.map_append, List.map_append,
      List.map_append]
  | .forEach var iterable body => by
    rw [BoundWorkspace.stmtPlaces, varPlaces h hscope locals var, exprPlaces h hscope locals iterable,
      BoundWorkspace.stmtPlaces]
    dsimp only [r.walked_snd]
    rw [stmtPlaces h hscope _ body, Renaming.walked, Renaming.walked, Renaming.walked,
      List.map_append, List.map_append]
  | .try body handlers cleanup => by
    rw [BoundWorkspace.stmtPlaces, blockPlaces h hscope locals body,
      catchesPlaces h hscope locals handlers, blockOptPlaces h hscope locals cleanup,
      BoundWorkspace.stmtPlaces, Renaming.walked, List.map_append, List.map_append]
  | .switch selector groups => by
    rw [BoundWorkspace.stmtPlaces, casesPlaces h hscope locals groups,
      exprPlaces h hscope locals selector, BoundWorkspace.stmtPlaces, Renaming.walked, Renaming.walked,
      List.map_append]
  | .synchronized lock body => by
    rw [BoundWorkspace.stmtPlaces, exprPlaces h hscope locals lock, blockPlaces h hscope locals body,
      BoundWorkspace.stmtPlaces, Renaming.walked, List.map_append]
  | .assert cond message => by
    rw [BoundWorkspace.stmtPlaces, exprPlaces h hscope locals cond,
      exprOptPlaces h hscope locals message, BoundWorkspace.stmtPlaces, Renaming.walked, List.map_append]
  | .localClass decl => by
    rw [BoundWorkspace.stmtPlaces, typePlaces h hscope locals decl, BoundWorkspace.stmtPlaces, Renaming.walked]
  | .break => rfl
  | .continue => rfl
  | .empty => rfl

theorem exprsPlaces (h : s.RenamedBy r s') (hscope : scope.RenamedBy r scope')
    (locals : Locals) : ∀ x : List Expr,
    s'.exprsPlaces scope' (r.locals locals) x = (s.exprsPlaces scope locals x).map r.place
  | [] => rfl
  | e :: es => by
    rw [BoundWorkspace.exprsPlaces, exprPlaces h hscope locals e, exprsPlaces h hscope locals es,
      BoundWorkspace.exprsPlaces, List.map_append]

theorem exprOptPlaces (h : s.RenamedBy r s') (hscope : scope.RenamedBy r scope')
    (locals : Locals) : ∀ x : Option Expr,
    s'.exprOptPlaces scope' (r.locals locals) x = (s.exprOptPlaces scope locals x).map r.place
  | none => rfl
  | some e => by
    rw [BoundWorkspace.exprOptPlaces, exprPlaces h hscope locals e, BoundWorkspace.exprOptPlaces]

theorem exprsOptPlaces (h : s.RenamedBy r s') (hscope : scope.RenamedBy r scope')
    (locals : Locals) : ∀ x : Option (List Expr),
    s'.exprsOptPlaces scope' (r.locals locals) x = (s.exprsOptPlaces scope locals x).map r.place
  | none => rfl
  | some es => by
    rw [BoundWorkspace.exprsOptPlaces, exprsPlaces h hscope locals es, BoundWorkspace.exprsOptPlaces]

theorem membersOptPlaces (h : s.RenamedBy r s') (hscope : scope.RenamedBy r scope')
    (locals : Locals) : ∀ x : Option (List Member),
    s'.membersOptPlaces scope' (r.locals locals) x = (s.membersOptPlaces scope locals x).map r.place
  | none => rfl
  | some ms => by
    rw [BoundWorkspace.membersOptPlaces, membersPlaces h hscope locals ms,
      BoundWorkspace.membersOptPlaces]

theorem exprPlaces (h : s.RenamedBy r s') (hscope : scope.RenamedBy r scope')
    (locals : Locals) : ∀ x : Expr,
    s'.exprPlaces scope' (r.locals locals) x = (s.exprPlaces scope locals x).map r.place
  | ⟨kind, range⟩ => by
    rw [BoundWorkspace.exprPlaces, partPlaces h hscope locals kind, BoundWorkspace.exprPlaces, List.map_cons,
      r.place_expr]

theorem partPlaces (h : s.RenamedBy r s') (hscope : scope.RenamedBy r scope')
    (locals : Locals) : ∀ x : ExprKind,
    s'.partPlaces scope' (r.locals locals) x = (s.partPlaces scope locals x).map r.place
  | .literal literal => rfl
  | .name ident => rfl
  | .this => rfl
  | .super => rfl
  | .fieldAccess target name => by
    rw [BoundWorkspace.partPlaces, h.isTypeAccess hscope, exprPlaces h hscope locals target,
      BoundWorkspace.partPlaces]
    split <;> rfl
  | .call target name args => by
    rw [BoundWorkspace.partPlaces, exprOptPlaces h hscope locals target, exprsPlaces h hscope locals args,
      BoundWorkspace.partPlaces, List.map_append]
  | .new type args body => by
    rw [BoundWorkspace.partPlaces, exprsPlaces h hscope locals args,
      membersOptPlaces h hscope locals body, BoundWorkspace.partPlaces, List.map_append, List.map_cons,
      r.place_typeRef]
  | .newArray type dims init => by
    rw [BoundWorkspace.partPlaces, exprsPlaces h hscope locals dims,
      exprsOptPlaces h hscope locals init, BoundWorkspace.partPlaces, List.map_append, List.map_cons,
      r.place_typeRef]
  | .arrayInit items => by
    rw [BoundWorkspace.partPlaces, exprsPlaces h hscope locals items, BoundWorkspace.partPlaces]
  | .arrayAccess array index => by
    rw [BoundWorkspace.partPlaces, exprPlaces h hscope locals array, exprPlaces h hscope locals index,
      BoundWorkspace.partPlaces, List.map_append]
  | .constructorCall isSuper args => by
    rw [BoundWorkspace.partPlaces, exprsPlaces h hscope locals args, BoundWorkspace.partPlaces]
  | .classLiteral type => rfl
  | .assign target value => by
    rw [BoundWorkspace.partPlaces, exprPlaces h hscope locals target, exprPlaces h hscope locals value,
      BoundWorkspace.partPlaces, List.map_append]
  | .binary op lhs rhs => by
    rw [BoundWorkspace.partPlaces, exprPlaces h hscope locals lhs, exprPlaces h hscope locals rhs,
      BoundWorkspace.partPlaces, List.map_append]
  | .unary op operand => by
    rw [BoundWorkspace.partPlaces, exprPlaces h hscope locals operand, BoundWorkspace.partPlaces]
  | .cast type e => by
    rw [BoundWorkspace.partPlaces, exprPlaces h hscope locals e, BoundWorkspace.partPlaces, List.map_cons,
      r.place_typeRef]
  | .instanceOf e type => by
    rw [BoundWorkspace.partPlaces, exprPlaces h hscope locals e, BoundWorkspace.partPlaces, List.map_append]
    rfl
  | .conditional cond yes no => by
    rw [BoundWorkspace.partPlaces, exprPlaces h hscope locals cond, exprPlaces h hscope locals yes,
      exprPlaces h hscope locals no, BoundWorkspace.partPlaces, List.map_append, List.map_append]
  | .paren inner => by
    rw [BoundWorkspace.partPlaces, exprPlaces h hscope locals inner, BoundWorkspace.partPlaces]
  | .lambda params body => by
    rw [BoundWorkspace.partPlaces, h.lambdaLocals hscope, lambdaPlaces h hscope _ body,
      BoundWorkspace.partPlaces, List.map_append, r.map_place_typeRef]
  | .methodRef target name => by
    rw [BoundWorkspace.partPlaces, exprPlaces h hscope locals target, BoundWorkspace.partPlaces]

theorem lambdaPlaces (h : s.RenamedBy r s') (hscope : scope.RenamedBy r scope')
    (locals : Locals) : ∀ x : LambdaBody,
    s'.lambdaPlaces scope' (r.locals locals) x = (s.lambdaPlaces scope locals x).map r.place
  | .expr e => by
    rw [BoundWorkspace.lambdaPlaces, exprPlaces h hscope locals e, BoundWorkspace.lambdaPlaces]
  | .block b => by
    rw [BoundWorkspace.lambdaPlaces, blockPlaces h hscope locals b, BoundWorkspace.lambdaPlaces]

end

end BoundWorkspace.RenamedBy

end SourceSearch
