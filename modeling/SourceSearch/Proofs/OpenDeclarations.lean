import SourceSearch.Proofs.GrammarDepth
import SourceSearch.Proofs.Loops

/-!
# Declarations that are still open

While a unit is read there is at every moment a stack of declarations that are open: the unit, the
types around the place that the reading has come to, and perhaps a method. `OpenUnit`, `OpenType`
and `OpenMethod` hold what has been read of them. `Parser.ComesTo` says which declarations are open
where, one step at a time, and what the reading comes to from there depends on the stack and on the
tokens that are left, but not on the tokens before (`Parser.ComesTo.compilationUnit_eq`).

A member of the innermost type is filled into what stands around it (`MemberPlace.fill`), and what
stands around it is read without a look at the member (`Parser.rest_add`).
-/

set_option autoImplicit false

namespace SourceSearch

/-! ## What has been read -/

/-- What has been read of a unit: all before the type that comes next. -/
structure OpenUnit where
  package : Option PackageDecl
  imports : List ImportDecl
  types : List TypeDecl

namespace OpenUnit

/-- The unit with more types read. -/
def add (unit : OpenUnit) (decls : List TypeDecl) : OpenUnit :=
  { unit with types := unit.types ++ decls }

/-- The unit when its last types are read. -/
def close (unit : OpenUnit) (decls : List TypeDecl) : CompilationUnit :=
  ⟨unit.package, unit.imports, unit.types ++ decls⟩

end OpenUnit

/-- What has been read of a type declaration: all before the member that comes next. -/
structure OpenType where
  kind : TypeDeclKind
  mods : Modifiers
  name : Ident
  superclass : Option TypeRef
  interfaces : List TypeRef
  start : Nat
  members : List Member

namespace OpenType

/-- The type with more members read. -/
def add (type : OpenType) (members : List Member) : OpenType :=
  { type with members := type.members ++ members }

/-- The type when its last members are read. -/
def close (type : OpenType) (members : List Member) (range : TextRange) : TypeDecl :=
  ⟨⟨type.kind, type.mods, type.name, type.superclass, type.interfaces, range⟩,
    type.members ++ members⟩

end OpenType

/-- What has been read of a method before its body. -/
structure OpenMethod where
  mods : Modifiers
  returnType : Option TypeRef
  name : Ident
  params : List Param
  throws : List TypeRef
  start : Nat

/-- The method when its body is read. -/
def OpenMethod.close (method : OpenMethod) (range : TextRange) (body : MethodBody) : Member :=
  .method ⟨method.mods, method.returnType, method.name, method.params, method.throws, range⟩ body

/-- What stands around a member of a type: the type without the member. -/
structure TypeFrame extends OpenType where
  later : List Member
  range : TextRange

/-- The type with the member. -/
def TypeFrame.fill (frame : TypeFrame) (member : Member) : TypeDecl :=
  frame.close (member :: frame.later) frame.range

/-- A place among the members of a unit: all that stands around it, the types that enclose it from
the inside to the outside. -/
structure MemberPlace where
  unit : OpenUnit
  inner : TypeFrame
  outer : List TypeFrame
  later : List TypeDecl

/-- A type with the types around it. -/
def TypeFrame.fillAll (frames : List TypeFrame) (decl : TypeDecl) : TypeDecl :=
  frames.foldl (fun decl frame => frame.fill (.type decl)) decl

/-- **The unit with a member in its place.** -/
def MemberPlace.fill (place : MemberPlace) (member : Member) : CompilationUnit :=
  place.unit.close (TypeFrame.fillAll place.outer (place.inner.fill member) :: place.later)

namespace Parser

variable {α β : Type} {n m : Nat} {g : Grammar}

/-! ## Heads of declarations -/

/-- Reads a type declaration up to its members. The constants of an enum stand before those. -/
def openType (g : Grammar) (mods : Modifiers) (start : Nat) : Parser OpenType := do
  let kind ← typeDeclKind
  let name ← ident
  typeArguments
  let (superclass, interfaces) ← supertypes kind
  let _ ← expect Symbol.lBrace
  let constants ← if kind = .enumDecl then enumConstants g name.text else pure []
  return ⟨kind, mods, name, superclass, interfaces, start, constants⟩

/-- A round of the loop over the members of a type. -/
def inBody (item : Parser α) : Parser (Option α) :=
  untilClosed Symbol.rBrace "unterminated type body" item

/-- Reads what stands around a member from the member on to the end of the type. -/
def typeFrame (g : Grammar) (type : OpenType) : Parser TypeFrame := do
  let later ← many (inBody (g.member type.name.text))
  return ⟨type, later.flatten, ← rangeFrom type.start⟩

/-- Reads the other members of a type. -/
def typeRest (g : Grammar) (type : OpenType) : Parser TypeDecl := do
  let later ← many (inBody (g.member type.name.text))
  return type.close later.flatten (← rangeFrom type.start)

/-- **A type declaration** is its head and its members. -/
theorem typeDecl_eq (mods : Modifiers) (start : Nat) :
    typeDecl g mods start = openType g mods start >>= typeRest g := by
  unfold typeDecl openType
  simp only [bind_assoc, pure_bind]
  refine bind_congr fun kind => bind_congr fun name => ?_
  refine bind_congr fun _ => bind_congr fun types => ?_
  by_cases hkind : kind = .enumDecl
  · simp only [if_pos hkind, enumBody, bind_assoc, pure_bind]
    rfl
  · simp only [if_neg hkind, classBody, bind_assoc, pure_bind]
    rfl

/-- Reads a method up to its body. -/
def openMethod (mods : Modifiers) (returnType : Option TypeRef) (name : Ident) (start : Nat) :
    Parser OpenMethod := do
  let parameters ← params
  let extra ← dims
  let throws ← if ← eat Keyword.throwsKw then typeList else pure []
  return ⟨mods, returnType.map (·.addDims extra), name, parameters, throws, start⟩

/-- Reads the body of a method. -/
def methodEnd (g : Grammar) (method : OpenMethod) : Parser Member := do
  let body ← methodBody g
  return method.close (← rangeFrom method.start) body

theorem methodRest_eq (mods : Modifiers) (returnType : Option TypeRef) (name : Ident)
    (start : Nat) :
    methodRest g mods returnType name start =
      openMethod mods returnType name start >>= methodEnd g := by
  unfold methodRest openMethod
  simp only [bind_assoc, pure_bind]
  refine bind_congr fun _ => bind_congr fun _ => bind_congr fun eaten => ?_
  cases eaten <;> simp <;> rfl

/-- The head of a declaration in the body of a type, or the declaration as a whole when there is
neither a type nor a method to open. -/
inductive MemberHead
  | members (members : List Member)
  | type (type : OpenType)
  | method (method : OpenMethod)

/-- Reads the head of a declaration in the body of a type. -/
def memberHead (g : Grammar) (typeName : String) : Parser MemberHead := do
  if ← eat Symbol.semi then return .members []
  else
    let start ← offset
    if (← nextIs Symbol.lBrace) || (← nextAre Modifier.staticMod Symbol.lBrace) then
      let isStatic ← eat Modifier.staticMod
      let body ← block g
      return .members [.initializer isStatic body (← rangeFrom start)]
    else
      let mods ← modifiers
      if ← nextIsTypeDecl then return .type (← openType g mods start)
      else
        typeArguments
        if ← nextIsConstructor typeName then
          let name ← ident
          return .method (← openMethod mods none name start)
        else
          let type ← typeRef
          let name ← ident
          if ← nextIs Symbol.lParen then return .method (← openMethod mods (some type) name start)
          else return .members (← fieldsRest g mods type start name)

/-- Reads what follows the head of a declaration. -/
def memberEnd (g : Grammar) : MemberHead → Parser (List Member)
  | .members members => return members
  | .type type => return [.type (← typeRest g type)]
  | .method method => return [← methodEnd g method]

/-- **A declaration in the body of a type** is its head and what follows. -/
theorem member_eq (typeName : String) :
    member g typeName = memberHead g typeName >>= memberEnd g := by
  unfold member memberHead
  rw [bind_assoc]
  refine bind_congr fun semi => ?_
  split
  · rfl
  · simp only [bind_assoc]
    refine bind_congr fun start => bind_congr fun braced => bind_congr fun staticBraced => ?_
    split
    · simp only [bind_assoc]
      rfl
    · simp only [bind_assoc]
      refine bind_congr fun mods => bind_congr fun isType => ?_
      split
      · simp only [typeDecl_eq, bind_assoc, pure_bind, memberEnd]
      · simp only [bind_assoc]
        refine bind_congr fun _ => bind_congr fun isConstructor => ?_
        split
        · simp only [methodRest_eq, bind_assoc, pure_bind, memberEnd]
        · simp only [bind_assoc]
          refine bind_congr fun type => bind_congr fun name => bind_congr fun isMethod => ?_
          split
          · simp only [methodRest_eq, bind_assoc, pure_bind, memberEnd]
          · simp only [bind_assoc, pure_bind, memberEnd, bind_pure]

/-- Reads the head of a type at the top of a unit; no head is read of a semicolon there. -/
def topHead? (g : Grammar) : Parser (Option (Option OpenType)) := do
  if (← get).rest.isEmpty then return none
  else if ← eat Symbol.semi then return some none
  else
    let start ← offset
    let mods ← modifiers
    return some (some (← openType g mods start))

/-- Reads what follows the head of a type at the top of a unit. -/
def topEnd (g : Grammar) : Option OpenType → Parser (List TypeDecl)
  | none => return []
  | some type => return [← typeRest g type]

/-- **A type at the top of a unit** is its head and its members. -/
theorem topLevel?_eq : topLevel? g = (do
    match ← topHead? g with
    | none => return none
    | some head => some <$> topEnd g head) := by
  unfold topLevel? topHead?
  rw [bind_assoc]
  refine bind_congr fun c => ?_
  split
  · rfl
  · rw [bind_assoc]
    refine bind_congr fun semi => ?_
    split
    · rfl
    · simp only [typeDecl_eq, bind_assoc, pure_bind, topEnd, map_eq_pure_bind]

/-! ## The reading goes on -/

/-- Reads the types that are left. -/
def unitRest (g : Grammar) (unit : OpenUnit) : Parser CompilationUnit := do
  let later ← many (topLevel? g)
  return unit.close later.flatten

/-- Reads all that is left when a type has been read: the types around it, from the inside to the
outside, and the unit. -/
def restBehind (g : Grammar) (unit : OpenUnit) : List OpenType → TypeDecl → Parser CompilationUnit
  | [], decl => unitRest g (unit.add [decl])
  | type :: outer, decl => typeRest g (type.add [.type decl]) >>= restBehind g unit outer

/-- **Reads all that is left** of the open declarations, the innermost type first. -/
def rest (g : Grammar) (unit : OpenUnit) : List OpenType → Parser CompilationUnit
  | [] => unitRest g unit
  | type :: outer => typeRest g type >>= restBehind g unit outer

section Unbounded

open Grammar (unbounded)

/-- **The rest of a type** is its next member and what is left then. -/
theorem typeRest_eq (type : OpenType) : typeRest unbounded type = (do
    match ← inBody (unbounded.member type.name.text) with
    | none => return type.close [] (← rangeFrom type.start)
    | some members => typeRest unbounded (type.add members)) := by
  have hadvances : Advances (inBody (unbounded.member type.name.text)) :=
    advances_untilClosed fun _ => leaves_member_unbounded _
  unfold typeRest
  rw [hadvances.many_eq]
  simp only [bind_assoc]
  refine bind_congr fun round => ?_
  cases round with
  | none => rfl
  | some members =>
    simp only [bind_assoc, pure_bind, List.flatten_cons, OpenType.close, OpenType.add,
      List.append_assoc]

theorem advances_topLevel? : Advances (topLevel? unbounded) := by
  refine advances_of_at fun c => .get_bind (.ite (fun _ => .none) fun _ => .eat_bind .done ?_)
  refine .of_leaves (leaves_offset.bind fun start => leaves_modifiers.bind fun mods => ?_)
  have htype := agree_typeDecl (Grammar.agreesUpTo_unbounded c.rest.length) (Nat.le_refl _)
    mods start
  exact htype.right.bind fun _ => .done

/-- The rest of a unit is its next type and what is left then. -/
theorem unitRest_eq (unit : OpenUnit) : unitRest unbounded unit = (do
    match ← topLevel? unbounded with
    | none => return unit.close []
    | some decls => unitRest unbounded (unit.add decls)) := by
  rw [unitRest, advances_topLevel?.many_eq]
  simp only [bind_assoc]
  refine bind_congr fun round => ?_
  cases round with
  | none => rfl
  | some decls =>
    simp only [unitRest, bind_assoc, pure_bind, List.flatten_cons, OpenUnit.close, OpenUnit.add,
      List.append_assoc]

/-- A declaration is read from its head on. -/
theorem inBody_member_of_head {typeName : String} {head : MemberHead} {c d : Cursor}
    (h : inBody (memberHead unbounded typeName) c = .ok (some head, d)) :
    inBody (unbounded.member typeName) c = (some <$> memberEnd unbounded head) d := by
  obtain ⟨hnext, hempty, hhead⟩ := of_untilClosed_eq_ok h
  rw [inBody, untilClosed_of_open hnext hempty, member_unbounded, member_eq, map_bind]
  exact bind_of_ok hhead _

/-- **From the start of a unit the reading comes to a place**, with the open declarations around it,
the innermost type first: it reads a type or a member, or the head of one that it opens. -/
inductive ComesTo (g : Grammar) (c : Cursor) : OpenUnit → List OpenType → Cursor → Prop
  | start {package : Option PackageDecl} {imports : List ImportDecl} {mid d : Cursor} :
      packageDecl? c = .ok (package, mid) → many importDecl? mid = .ok (imports, d) →
      ComesTo g c ⟨package, imports, []⟩ [] d
  | topLevel {unit : OpenUnit} {decls : List TypeDecl} {d next : Cursor} :
      ComesTo g c unit [] d → topLevel? g d = .ok (some decls, next) →
      ComesTo g c (unit.add decls) [] next
  | openTop {unit : OpenUnit} {type : OpenType} {d next : Cursor} :
      ComesTo g c unit [] d → topHead? g d = .ok (some (some type), next) →
      ComesTo g c unit [type] next
  | member {unit : OpenUnit} {type : OpenType} {outer : List OpenType} {members : List Member}
      {d next : Cursor} :
      ComesTo g c unit (type :: outer) d →
      inBody (g.member type.name.text) d = .ok (some members, next) →
      ComesTo g c unit (type.add members :: outer) next
  | openInner {unit : OpenUnit} {type inner : OpenType} {outer : List OpenType} {d next : Cursor} :
      ComesTo g c unit (type :: outer) d →
      inBody (memberHead g type.name.text) d = .ok (some (.type inner), next) →
      ComesTo g c unit (inner :: type :: outer) next

/-- **What the reading of a unit comes to**, it comes to from wherever it has been on the way. -/
theorem ComesTo.compilationUnit_eq {c d : Cursor} {unit : OpenUnit} {types : List OpenType}
    (h : ComesTo unbounded c unit types d) :
    compilationUnit unbounded c = rest unbounded unit types d := by
  induction h with
  | start hpackage himports => exact (bind_of_ok hpackage _).trans (bind_of_ok himports _)
  | topLevel _ hround ih =>
    refine ih.trans ?_
    rw [rest, unitRest_eq]
    exact bind_of_ok hround _
  | openTop _ hhead ih =>
    refine ih.trans ?_
    rw [rest, unitRest_eq, topLevel?_eq, bind_assoc]
    refine (bind_of_ok hhead _).trans ?_
    simp only [topEnd, map_eq_pure_bind, bind_assoc, pure_bind]
    rfl
  | member _ hround ih =>
    refine ih.trans ?_
    rw [rest, typeRest_eq, bind_assoc]
    exact bind_of_ok hround _
  | openInner _ hhead ih =>
    refine ih.trans ?_
    rw [rest, typeRest_eq, bind_assoc]
    refine (bind_of_run_eq (inBody_member_of_head hhead) _).trans ?_
    simp only [memberEnd, map_eq_pure_bind, bind_assoc, pure_bind]
    rfl

end Unbounded

/-! ## What stands around a member -/

/-- A type is its frame with the member in it. -/
theorem typeRest_add (type : OpenType) (member : Member) :
    typeRest g (type.add [member]) = (·.fill member) <$> typeFrame g type := by
  unfold typeRest typeFrame
  simp only [map_eq_pure_bind, bind_assoc, pure_bind, OpenType.add, OpenType.close,
    TypeFrame.fill, List.append_assoc, List.singleton_append]

/-- Reads what stands around a member from the member on to the end of the unit. -/
def memberPlace (g : Grammar) (unit : OpenUnit) (type : OpenType) (outer : List OpenType) :
    Parser MemberPlace := do
  let inner ← typeFrame g type
  let frames ← outer.mapM (typeFrame g)
  let later ← many (topLevel? g)
  return ⟨unit, inner, frames, later.flatten⟩

theorem restBehind_eq (unit : OpenUnit) (outer : List OpenType) (decl : TypeDecl) :
    restBehind g unit outer decl = (do
      let frames ← outer.mapM (typeFrame g)
      let later ← many (topLevel? g)
      return unit.close (TypeFrame.fillAll frames decl :: later.flatten)) := by
  induction outer generalizing decl with
  | nil =>
    simp only [restBehind, unitRest, List.mapM_nil, pure_bind, OpenUnit.add, OpenUnit.close,
      List.append_assoc, List.singleton_append]
    rfl
  | cons type outer ih =>
    simp only [restBehind, typeRest_add, map_eq_pure_bind, List.mapM_cons, bind_assoc, pure_bind,
      ih]
    rfl

/-- **What stands around a member** is read without a look at the member. -/
theorem rest_add (unit : OpenUnit) (type : OpenType) (outer : List OpenType) (member : Member) :
    rest g unit (type.add [member] :: outer) =
      (·.fill member) <$> memberPlace g unit type outer := by
  rw [rest, typeRest_add]
  simp only [memberPlace, restBehind_eq, map_eq_pure_bind, bind_assoc, pure_bind,
    MemberPlace.fill]

end Parser

end SourceSearch
