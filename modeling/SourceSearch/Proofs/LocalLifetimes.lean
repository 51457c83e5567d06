import SourceSearch.Proofs.IndexedSearch
import SourceSearch.Proofs.Inheritance

/-!
# How long local variables live

Blocks, loops with a head, handlers and lambdas end the life of the variables that they declare. The
group of a switch does not, and neither does a branch or a loop body that declares a variable without
braces (`Stmt.outliving`). What a statement leaves to those behind it is what was there before and
these variables (`stmtPlaces_extends`, by induction on the statement): so locals are as they were iff
there are none of them. A field of the name of such a variable is hidden from the statements that
follow, and its references there are lost (`inName?_after_stmtPlaces`).
-/

set_option autoImplicit false

namespace SourceSearch

/-! ## Variables that outlive their statement -/

mutual

/-- The variables of a statement that are still there behind it. -/
def Stmt.outliving : Stmt → List LocalVar
  | .locals vars => vars
  | .ifThen _ yes no => yes.outliving ++ outlivingOpt no
  | .while _ body => body.outliving
  | .doWhile body _ => body.outliving
  | .switch _ groups => outlivingCases groups
  | _ => []

/-- The variables of a branch that are still there behind it. -/
def Stmt.outlivingOpt : Option Stmt → List LocalVar
  | none => []
  | some st => st.outliving

/-- The variables that statements declare for what follows them. -/
def Stmt.outlivingAll : List Stmt → List LocalVar
  | [] => []
  | st :: rest => st.outliving ++ outlivingAll rest

/-- The variables of the groups of a switch, which are still there behind it. -/
def Stmt.outlivingCases : List SwitchCase → List LocalVar
  | [] => []
  | ⟨_, body⟩ :: rest => outlivingAll body ++ outlivingCases rest

end

/-! ## Locals that are added -/

namespace Locals

/-- What locals become when these variables are declared one after the other, whatever their types
are. -/
def Extends (before : Locals) (vars : List LocalVar) (after : Locals) : Prop :=
  ∃ declared : List (String × StaticType),
    after.vars = declared ++ before.vars ∧
      declared.map (·.1) = (vars.map (·.name.text)).reverse

namespace Extends

variable {before middle after : Locals} {vars more : List LocalVar}

theorem refl (locals : Locals) : locals.Extends [] locals := ⟨[], rfl, rfl⟩

theorem declare (locals : Locals) (var : LocalVar) (type : StaticType) :
    locals.Extends [var] (locals.declare var.name.text type) :=
  ⟨[(var.name.text, type)], rfl, rfl⟩

theorem trans (h : before.Extends vars middle) (h' : middle.Extends more after) :
    before.Extends (vars ++ more) after := by
  obtain ⟨declared, hvars, hnames⟩ := h
  obtain ⟨declared', hvars', hnames'⟩ := h'
  refine ⟨declared' ++ declared, by rw [hvars', hvars, List.append_assoc], ?_⟩
  rw [List.map_append, hnames, hnames', List.map_append, List.reverse_append]

/-- **Locals are as they were** iff no variable is added. -/
theorem eq_iff (h : before.Extends vars after) : after = before ↔ vars = [] := by
  obtain ⟨declared, hvars, hnames⟩ := h
  have hnil : vars = [] ↔ declared = [] := by
    rw [← List.map_eq_nil_iff (f := fun entry : String × StaticType => entry.1), hnames,
      List.reverse_eq_nil_iff, List.map_eq_nil_iff]
  have hself : declared ++ before.vars = before.vars ↔ declared = [] := List.append_left_eq_self
  rw [hnil, ← hself, ← hvars]
  exact ⟨congrArg Locals.vars, fun heq => by cases after; cases before; exact congrArg mk heq⟩

/-- A variable that is added is found. -/
theorem isSome_get? (h : before.Extends vars after) {name : String}
    (hname : name ∈ vars.map (·.name.text)) : (after.get? name).isSome = true := by
  obtain ⟨declared, hvars, hnames⟩ := h
  rw [← List.mem_reverse, ← hnames] at hname
  obtain ⟨entry, hentry, rfl⟩ := List.mem_map.1 hname
  rw [get?, hvars, List.lookup_isSome_iff]
  exact ⟨entry, List.mem_append_left _ hentry, beq_self_eq_true _⟩

/-- All other names mean what they meant. -/
theorem get?_eq (h : before.Extends vars after) {name : String}
    (hname : name ∉ vars.map (·.name.text)) : after.get? name = before.get? name := by
  obtain ⟨declared, hvars, hnames⟩ := h
  rw [← List.mem_reverse, ← hnames] at hname
  have hnone : declared.lookup name = Option.none := by
    rw [List.lookup_eq_none_iff]
    intro entry hentry
    rw [bne_iff_ne]
    rintro rfl
    exact hname (List.mem_map_of_mem hentry)
  rw [get?, hvars, List.lookup_append, hnone, Option.none_or, get?]

end Extends

end Locals

namespace BoundWorkspace

variable (s : BoundWorkspace) (scope : NameScope)

/-! ## What a statement leaves -/

theorem varPlaces_extends (locals : Locals) (v : LocalVar) :
    locals.Extends [v] (s.varPlaces scope locals v).2 := by
  obtain ⟨type, name, init⟩ := v
  rw [varPlaces]
  exact .declare locals ⟨type, name, init⟩ _

theorem varsPlaces_extends (locals : Locals) (vars : List LocalVar) :
    locals.Extends vars (s.varsPlaces scope locals vars).2 := by
  induction vars generalizing locals with
  | nil =>
    rw [varsPlaces]
    exact .refl locals
  | cons v vs ih =>
    rw [varsPlaces]
    exact (s.varPlaces_extends scope locals v).trans (ih _)

mutual

theorem stmtsPlaces_extends (locals : Locals) :
    ∀ stmts : List Stmt,
      locals.Extends (Stmt.outlivingAll stmts) (s.stmtsPlaces scope locals stmts).2
  | [] => by
    rw [stmtsPlaces, Stmt.outlivingAll]
    exact .refl locals
  | st :: rest => by
    rw [stmtsPlaces, Stmt.outlivingAll]
    exact (stmtPlaces_extends locals st).trans (stmtsPlaces_extends _ rest)

theorem stmtOptPlaces_extends (locals : Locals) :
    ∀ st : Option Stmt,
      locals.Extends (Stmt.outlivingOpt st) (s.stmtOptPlaces scope locals st).2
  | none => by
    rw [stmtOptPlaces, Stmt.outlivingOpt]
    exact .refl locals
  | some st => by
    rw [stmtOptPlaces, Stmt.outlivingOpt]
    exact stmtPlaces_extends locals st

theorem casesPlaces_extends (locals : Locals) :
    ∀ groups : List SwitchCase,
      locals.Extends (Stmt.outlivingCases groups) (s.casesPlaces scope locals groups).2
  | [] => by
    rw [casesPlaces, Stmt.outlivingCases]
    exact .refl locals
  | ⟨labels, body⟩ :: rest => by
    rw [casesPlaces, Stmt.outlivingCases]
    exact (stmtsPlaces_extends locals body).trans (casesPlaces_extends _ rest)

/-- **The locals after a statement** are those before it and the variables that outlive it. -/
theorem stmtPlaces_extends (locals : Locals) :
    ∀ st : Stmt, locals.Extends st.outliving (s.stmtPlaces scope locals st).2
  | .locals vars => by
    rw [stmtPlaces, Stmt.outliving]
    exact s.varsPlaces_extends scope locals vars
  | .ifThen cond yes no => by
    rw [stmtPlaces, Stmt.outliving]
    exact (stmtPlaces_extends locals yes).trans (stmtOptPlaces_extends _ no)
  | .while cond body => by
    rw [stmtPlaces, Stmt.outliving]
    exact stmtPlaces_extends locals body
  | .doWhile body cond => by
    rw [stmtPlaces, Stmt.outliving]
    exact stmtPlaces_extends locals body
  | .switch selector groups => by
    rw [stmtPlaces, Stmt.outliving]
    exact casesPlaces_extends locals groups
  | .block _ | .expr _ | .return _ | .throw _ | .for .. | .forEach .. | .try .. |
    .synchronized .. | .assert .. | .localClass _ | .break | .continue | .empty => by
    rw [stmtPlaces]
    exact .refl locals

end

end BoundWorkspace

namespace Target

variable (target : Target) (s : BoundWorkspace) (scope : NameScope)

/-- The name of a variable refers to no target. -/
theorem inName?_of_isSome {locals : Locals} {name : Ident}
    (h : (locals.get? name.text).isSome = true) : target.inName? s scope locals name = none := by
  obtain ⟨type, htype⟩ := Option.isSome_iff_exists.1 h
  have hmeaning : s.meaningOfName scope locals name.text = .value type := by
    rw [BoundWorkspace.meaningOfName, htype]
  rw [inName?, hmeaning]
  cases target.kind <;> simp [h, Occurrence.at?]

/-- Where no variable has its name, a field of the type around is referred to. -/
theorem inName?_of_own {scope : NameScope} (hlimit : 0 < s.chainLimit) {key : TypeKey}
    (hscope : scope.enclosing = some key) {info : DeclaredType}
    (hinfo : s.declared? key = some info) {locals : Locals} {name : Ident}
    {field : DeclaredField} (hfield : info.field? name.text = some field)
    (hnone : locals.get? name.text = none) :
    (Target.field (field.handle info.key)).inName? s scope locals name =
      some ⟨name.range, .exact⟩ := by
  have hbound := BoundWorkspace.fieldAround?_of_own hlimit hscope hinfo hfield
  have hmeaning : s.meaningOfName scope locals name.text = .value (s.fieldType ⟨info, field⟩) := by
    rw [BoundWorkspace.meaningOfName, hnone, hbound]
  rw [inName?, hmeaning]
  simp [Target.kind, hnone, hbound, fieldAccuracy?, Occurrence.at?]

/-- Only the variable of a name decides what the name refers to. -/
theorem inName?_congr {locals locals' : Locals} {name : Ident}
    (h : locals.get? name.text = locals'.get? name.text) :
    target.inName? s scope locals name = target.inName? s scope locals' name := by
  rw [inName?, inName?, BoundWorkspace.meaningOfName, BoundWorkspace.meaningOfName, h]

/-- **A statement leaves the locals as they were** iff no variable outlives it. Behind it a name of
such a variable is a variable and refers to no target; all others are and refer to what they were
and referred to before. -/
theorem inName?_after_stmtPlaces (locals : Locals) (st : Stmt) :
    let after := (s.stmtPlaces scope locals st).2
    (after = locals ↔ st.outliving = []) ∧
    ∀ name : Ident,
      (name.text ∈ st.outliving.map (·.name.text) →
        (after.get? name.text).isSome = true ∧ target.inName? s scope after name = none) ∧
      (name.text ∉ st.outliving.map (·.name.text) →
        after.get? name.text = locals.get? name.text ∧
          target.inName? s scope after name = target.inName? s scope locals name) := by
  intro after
  have h : locals.Extends st.outliving after := s.stmtPlaces_extends scope locals st
  refine ⟨h.eq_iff, fun name => ⟨fun hname => ?_, fun hname => ?_⟩⟩
  · have hsome := h.isSome_get? hname
    exact ⟨hsome, target.inName?_of_isSome s scope hsome⟩
  · have hget := h.get?_eq hname
    exact ⟨hget, target.inName?_congr s scope hget⟩

/-- A class with a variable in a switch and a field of the same name, which is used behind it. -/
def switchText : String :=
  "class X \x7b int f; void m(int k) \x7b switch (k) \x7b case 1: int f = 2; \x7d f = 3; \x7d \x7d"

/-- A project with the class. -/
def fieldBehindSwitch : List Edit :=
  [.createProject ⟨"P", [""], [], none⟩, .createFile "/P/X.java" switchText]

/-- The first of two statements in a body, and the name to which the second one assigns. -/
def beforeAssignment? : MethodBody → Option (Stmt × Ident)
  | .block ⟨[st, .expr ⟨.assign ⟨.name name, _⟩ _, _⟩], _⟩ => some (st, name)
  | _ => none

/-- **The use behind the switch is not found**, though it is one with the locals before it. -/
theorem search_misses_field_behind_switch :
    let ws := Workspace.initial.afterAll fieldBehindSwitch
    let s := BoundWorkspace.ofWorkspace ws
    let field : FieldHandle := ⟨⟨.source ⟨0⟩, "X"⟩, "f"⟩
    (Searchable.ofWorkspace ws).search ⟨.field field, .references⟩ (.workspace ws) = .ok [] ∧
      ∃ scope : NameScope, s.declarationScope? field.owner = some scope ∧
      ∃ decl ∈ scope.unit.types, ∃ method ∈ decl.methods,
      ∃ st name, beforeAssignment? method.2 = some (st, name) ∧
        let before := s.paramLocals scope .none method.1.params
        let after := (s.stmtPlaces scope before st).2
        after ≠ before ∧
          (Target.field field).inName? s scope before name = some ⟨name.range, .exact⟩ ∧
          (Target.field field).inName? s scope after name = none := by
  intro ws s field
  have hdeclared : ((s.declared? field.owner).any fun info =>
      (info.field? field.name).any fun found => decide (found.handle info.key = field)) = true := by
    decide +kernel
  obtain ⟨info, hinfo, hfields⟩ := (Option.any_eq_true _ _).1 hdeclared
  obtain ⟨found, hfound, hhandle⟩ := (Option.any_eq_true _ _).1 hfields
  have hsearch : (Searchable.ofWorkspace ws).search ⟨.field field, .references⟩ (.workspace ws) =
      .ok [] := by
    have htarget : ofPattern s ⟨.field field, .references⟩ = .ok (.field field) := by
      rw [ofPattern, bind, hinfo, Option.any_some, hfound, Option.isSome_some, if_pos rfl]
      rfl
    have hnone : ∀ doc ∈ (SearchScope.workspace ws).documents,
        Searchable.locate s (.field field) .references doc = [] := by
      decide +kernel
    rw [Searchable.search_eq_ok_of_ofPattern (Workspace.inStep_afterAll fieldBehindSwitch)
      (by decide) rfl htarget, Searchable.locateAll, List.flatMap_eq_nil_iff.2]
    exact fun doc hdoc => Searchable.inOrder_eq_nil_iff.2 (hnone doc hdoc)
  have hplace : ((s.declarationScope? field.owner).any fun scope =>
      decide (scope.enclosing = some field.owner) &&
      scope.unit.types.any fun decl => decl.methods.any fun method =>
        (beforeAssignment? method.2).any fun pair =>
          decide (pair.1.outliving.map (·.name.text) = ["f"] ∧ pair.2.text = "f" ∧
            ((s.paramLocals scope .none method.1.params).get? "f").isNone)) = true := by
    decide +kernel
  obtain ⟨scope, hscope, hscoped⟩ := (Option.any_eq_true _ _).1 hplace
  obtain ⟨henclosing, htypes⟩ := Bool.and_eq_true_iff.1 hscoped
  obtain ⟨decl, hdecl, hmethods⟩ := List.any_eq_true.1 htypes
  obtain ⟨method, hmethod, hbody⟩ := List.any_eq_true.1 hmethods
  obtain ⟨⟨st, name⟩, hstmts, hfacts⟩ := (Option.any_eq_true _ _).1 hbody
  obtain ⟨houtliving, hname, hnone⟩ := of_decide_eq_true hfacts
  have h := inName?_after_stmtPlaces (.field field) s scope
    (s.paramLocals scope .none method.1.params) st
  refine ⟨hsearch, scope, hscope, decl, hdecl, method, hmethod, st, name, hstmts, ?_, ?_,
    ((h.2 name).1 ?_).2⟩
  · intro heq
    rw [h.1.1 heq] at houtliving
    cases houtliving
  · have hown : info.field? name.text = some found := by
      rw [hname]
      exact hfound
    have hbefore := inName?_of_own s (BoundWorkspace.chainLimit_pos ws)
      (of_decide_eq_true henclosing) hinfo hown
      (hname ▸ Option.isNone_iff_eq_none.1 hnone)
    rwa [of_decide_eq_true hhandle] at hbefore
  · rw [houtliving, hname]
    exact List.mem_singleton_self _

end Target

end SourceSearch
