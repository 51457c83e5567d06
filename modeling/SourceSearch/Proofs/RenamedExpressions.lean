import SourceSearch.Binding.Expressions
import SourceSearch.Proofs.RenamedBinding

/-!
# Expressions under other numbers

What an expression stands for in a renamed place is the renamed meaning, given renamed locals
(`meaning`), and a call there binds to the renamed method (`call`).
-/

set_option autoImplicit false

namespace SourceSearch

namespace Renaming

variable (r : Renaming)

def meaning : Meaning → Meaning
  | .value type => .value (r.staticType type)
  | .type key => .type (r.key key)
  | .package name => .package name
  | .unknown => .unknown

def locals (locals : Locals) : Locals := ⟨locals.vars.map fun v => (v.1, r.staticType v.2)⟩

def boundCall (call : BoundCall) : BoundCall :=
  ⟨call.receiver.map r.key, call.method.map r.boundMethod⟩

@[simp] theorem meaning_value (type : StaticType) :
    r.meaning (.value type) = .value (r.staticType type) := rfl

@[simp] theorem staticType_meaning (meaning : Meaning) :
    (r.meaning meaning).staticType = r.staticType meaning.staticType := by
  cases meaning <;> rfl

@[simp] theorem get?_locals (locals : Locals) (name : String) :
    (r.locals locals).get? name = (locals.get? name).map r.staticType := by
  obtain ⟨vars⟩ := locals
  simp only [Locals.get?, Renaming.locals]
  induction vars with
  | nil => rfl
  | cons first vars ih =>
    rw [List.map_cons, List.lookup_cons, List.lookup_cons, ih]
    split <;> rfl

@[simp] theorem locals_declare (locals : Locals) (name : String) (type : StaticType) :
    r.locals (locals.declare name type) = (r.locals locals).declare name (r.staticType type) := rfl

@[simp] theorem staticType_eq_unresolved {type : StaticType} {name : String} :
    r.staticType type = .unresolved name ↔ type = .unresolved name := by
  cases type <;> simp [staticType]

end Renaming

namespace BoundWorkspace.RenamedBy

variable {r : Renaming} {s s' : BoundWorkspace} {scope scope' : NameScope}

/-! ## Names and calls -/

theorem wellKnown (hscope : scope.RenamedBy r scope') (name : String) :
    BoundWorkspace.wellKnown scope' name = r.staticType (BoundWorkspace.wellKnown scope name) := by
  rw [BoundWorkspace.wellKnown, hscope.env.lookup?, BoundWorkspace.wellKnown]
  cases scope.env.lookup? name <;> rfl

theorem literalType (hscope : scope.RenamedBy r scope') (literal : Literal) :
    BoundWorkspace.literalType scope' literal =
      r.staticType (BoundWorkspace.literalType scope literal) := by
  cases literal with
  | string => exact wellKnown hscope _
  | _ => rfl

theorem operationType (hscope : scope.RenamedBy r scope') (op : BinaryOp)
    (left right : StaticType) :
    BoundWorkspace.operationType scope' op (r.staticType left) (r.staticType right) =
      r.staticType (BoundWorkspace.operationType scope op left right) := by
  simp only [BoundWorkspace.operationType, r.erasedName?_staticType]
  split
  · rfl
  · split
    · exact wellKnown hscope _
    · rfl

theorem meaningOfName (h : s.RenamedBy r s') (hscope : scope.RenamedBy r scope')
    (locals : Locals) (name : String) :
    s'.meaningOfName scope' (r.locals locals) name = r.meaning (s.meaningOfName scope locals name) := by
  rw [BoundWorkspace.meaningOfName, r.get?_locals, h.fieldAround? hscope, h.simpleType? hscope,
    hscope.env.hasPackage, BoundWorkspace.meaningOfName]
  cases locals.get? name with
  | some type => rfl
  | none =>
    cases s.fieldAround? scope name with
    | some binding => simp [Renaming.meaning, h.fieldType]
    | none =>
      cases s.simpleType? scope name with
      | some key => rfl
      | none =>
        dsimp only [Option.map_none]
        split <;> rfl

theorem meaningOfMember (h : s.RenamedBy r s') (hscope : scope.RenamedBy r scope')
    (target : Meaning) (name : String) :
    s'.meaningOfMember scope' (r.meaning target) name =
      r.meaning (s.meaningOfMember scope target name) := by
  cases target with
  | value type =>
    cases type with
    | named key =>
      simp only [BoundWorkspace.meaningOfMember, Renaming.meaning, Renaming.staticType, h.field?]
      cases s.field? key name with
      | none => rfl
      | some binding => simp [h.fieldType]
    | array element =>
      simp only [BoundWorkspace.meaningOfMember, Renaming.meaning, Renaming.staticType]
      split <;> rfl
    | _ => rfl
  | type key =>
    simp only [BoundWorkspace.meaningOfMember, Renaming.meaning, h.field?, h.memberType?]
    cases s.field? key name with
    | some binding => simp [h.fieldType]
    | none => cases s.memberType? key name <;> rfl
  | package outer =>
    simp only [BoundWorkspace.meaningOfMember, Renaming.meaning, hscope.env.lookup?,
      hscope.env.hasPackage]
    cases scope.env.lookup? (outer ++ "." ++ name) with
    | some key => rfl
    | none =>
      dsimp only [Option.map_none]
      split <;> rfl
  | unknown => rfl

theorem bindUnqualified (h : s.RenamedBy r s') (hscope : scope.RenamedBy r scope')
    (name : String) (args : List StaticType) :
    s'.bindUnqualified scope' name (args.map r.staticType) =
      r.boundCall (s.bindUnqualified scope name args) := by
  have hfound : ((s'.enclosingChain scope'.enclosing).findSome? fun key =>
      (s'.method? key name (args.map r.staticType)).map fun m => (key, m)) =
      ((s.enclosingChain scope.enclosing).findSome? fun key =>
        (s.method? key name args).map fun m => (key, m)).map fun found =>
          (r.key found.1, r.boundMethod found.2) := by
    rw [hscope.enclosing, h.enclosingChain, List.findSome?_map, List.map_findSome?]
    congr 1
    funext key
    simp only [Function.comp, h.method?, Option.map_map]
    rfl
  unfold BoundWorkspace.bindUnqualified
  dsimp only
  rw [hfound]
  cases (s.enclosingChain scope.enclosing).findSome? fun key =>
      (s.method? key name args).map fun m => (key, m) with
  | none => simp [Renaming.boundCall, hscope.enclosing, h.enclosingChain]
  | some found => rfl

theorem receiverType? (hscope : scope.RenamedBy r scope') (target : Meaning) :
    BoundWorkspace.receiverType? scope' (r.meaning target) =
      (BoundWorkspace.receiverType? scope target).map r.key := by
  cases target with
  | value type =>
    cases type with
    | array element => exact hscope.env.lookup? objectName
    | _ => rfl
  | _ => rfl

theorem bindCall (h : s.RenamedBy r s') (hscope : scope.RenamedBy r scope')
    (target : Option Meaning) (name : String) (args : List StaticType) :
    s'.bindCall scope' (target.map r.meaning) name (args.map r.staticType) =
      r.boundCall (s.bindCall scope target name args) := by
  cases target with
  | none => exact h.bindUnqualified hscope name args
  | some target =>
    simp only [BoundWorkspace.bindCall, Option.map_some, receiverType? hscope, Renaming.boundCall,
      Option.bind_map, Option.map_bind]
    congr 2
    funext key
    exact h.method? key name args

theorem meaningOfCall (h : s.RenamedBy r s') (call : BoundCall) :
    s'.meaningOfCall (r.boundCall call) = r.meaning (s.meaningOfCall call) := by
  obtain ⟨receiver, method⟩ := call
  cases method with
  | none => rfl
  | some binding => simp [BoundWorkspace.meaningOfCall, Renaming.boundCall, Renaming.meaning, h.returnType]

/-! ## Expressions -/

mutual

/-- **The meaning of an expression** is renamed with its place and its locals. -/
theorem meaning (h : s.RenamedBy r s') (hscope : scope.RenamedBy r scope') (locals : Locals) :
    ∀ e : Expr, s'.meaning scope' (r.locals locals) e = r.meaning (s.meaning scope locals e)
  | ⟨kind, _⟩ => meaningOfKind h hscope locals kind

theorem meaningOfKind (h : s.RenamedBy r s') (hscope : scope.RenamedBy r scope')
    (locals : Locals) : ∀ kind : ExprKind,
    s'.meaningOfKind scope' (r.locals locals) kind = r.meaning (s.meaningOfKind scope locals kind)
  | .literal literal => by
    simp only [BoundWorkspace.meaningOfKind, r.meaning_value, literalType hscope]
  | .name ident => h.meaningOfName hscope locals ident.text
  | .fieldAccess target member => by
    rw [BoundWorkspace.meaningOfKind, meaning h hscope locals target, h.meaningOfMember hscope,
      BoundWorkspace.meaningOfKind]
  | .call target callee args => by
    rw [BoundWorkspace.meaningOfKind, meaningOpt h hscope locals target, types h hscope locals args,
      h.bindCall hscope, h.meaningOfCall, BoundWorkspace.meaningOfKind]
  | .new type args body => by
    simp only [BoundWorkspace.meaningOfKind, r.meaning_value, h.staticTypeOfRef hscope]
  | .newArray type dims init => by
    simp only [BoundWorkspace.meaningOfKind, r.meaning_value, h.staticTypeOfRef hscope,
      r.staticType_arrayOf]
  | .arrayInit items => rfl
  | .arrayAccess array index => by
    rw [BoundWorkspace.meaningOfKind, meaning h hscope locals array, r.staticType_meaning,
      BoundWorkspace.meaningOfKind]
    cases (s.meaning scope locals array).staticType <;> rfl
  | .this => by
    rw [BoundWorkspace.meaningOfKind, hscope.enclosing, BoundWorkspace.meaningOfKind]
    cases scope.enclosing <;> rfl
  | .super => by
    rw [BoundWorkspace.meaningOfKind, hscope.enclosing, BoundWorkspace.meaningOfKind]
    cases scope.enclosing with
    | none => rfl
    | some key =>
      simp only [Option.map_some, Option.bind_some, h.superclass?]
      cases s.superclass? key <;> rfl
  | .constructorCall isSuper args => rfl
  | .classLiteral type => by
    simp only [BoundWorkspace.meaningOfKind, r.meaning_value, wellKnown hscope]
  | .assign target value => by
    simp only [BoundWorkspace.meaningOfKind, meaning h hscope locals target, r.meaning_value,
      r.staticType_meaning]
  | .binary op lhs rhs => by
    simp only [BoundWorkspace.meaningOfKind, meaning h hscope locals lhs,
      meaning h hscope locals rhs, r.meaning_value, r.staticType_meaning, operationType hscope]
  | .unary op operand => by
    simp only [BoundWorkspace.meaningOfKind, meaning h hscope locals operand, r.staticType_meaning]
    split <;> rfl
  | .cast type e => by
    simp only [BoundWorkspace.meaningOfKind, r.meaning_value, h.staticTypeOfRef hscope]
  | .instanceOf e type => rfl
  | .conditional cond yes no => by
    simp only [BoundWorkspace.meaningOfKind, meaning h hscope locals yes,
      meaning h hscope locals no, r.staticType_meaning]
    cases (s.meaning scope locals yes).staticType <;> rfl
  | .paren inner => meaning h hscope locals inner
  | .lambda params body => rfl
  | .methodRef target name => rfl

theorem meaningOpt (h : s.RenamedBy r s') (hscope : scope.RenamedBy r scope') (locals : Locals) :
    ∀ e : Option Expr,
    s'.meaningOpt scope' (r.locals locals) e = (s.meaningOpt scope locals e).map r.meaning
  | none => rfl
  | some e => congrArg some (meaning h hscope locals e)

theorem types (h : s.RenamedBy r s') (hscope : scope.RenamedBy r scope') (locals : Locals) :
    ∀ es : List Expr,
    s'.types scope' (r.locals locals) es = (s.types scope locals es).map r.staticType
  | [] => rfl
  | e :: es => by
    rw [BoundWorkspace.types, meaning h hscope locals e, types h hscope locals es,
      r.staticType_meaning, BoundWorkspace.types, List.map_cons]

end

theorem call (h : s.RenamedBy r s') (hscope : scope.RenamedBy r scope') (locals : Locals)
    (target : Option Expr) (name : Ident) (args : List Expr) :
    s'.call scope' (r.locals locals) target name args =
      r.boundCall (s.call scope locals target name args) := by
  rw [BoundWorkspace.call, h.meaningOpt hscope, h.types hscope, h.bindCall hscope,
    BoundWorkspace.call]

theorem localType (h : s.RenamedBy r s') (hscope : scope.RenamedBy r scope') (locals : Locals)
    (var : LocalVar) :
    s'.localType scope' (r.locals locals) var = r.staticType (s.localType scope locals var) := by
  simp only [BoundWorkspace.localType, h.staticTypeOfRef hscope, r.staticType_eq_unresolved,
    BoundWorkspace.typeOf, h.meaning hscope, r.staticType_meaning]
  cases var.init with
  | none => rfl
  | some init =>
    dsimp only
    split <;> rfl

end BoundWorkspace.RenamedBy

end SourceSearch
