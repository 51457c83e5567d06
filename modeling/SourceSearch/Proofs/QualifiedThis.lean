import SourceSearch.Proofs.HierarchyScopes
import SourceSearch.Proofs.LoopRounds

/-!
# Objects of the types around

In the body of an inner class `Outer.this` is the object of the class around. Reading it drops what
stands before the point, so that it is read as `this` is (`Parser.operand_qualifiedThis`), and what
stands behind it is read behind `this`. Hence it has the type of the innermost class, whichever is
named, and fields and methods are looked for in that one. This is the class that is named only if it
is the innermost one, since all types around are others (`length_lt_of_getElem?_enclosingChain`).
-/

set_option autoImplicit false

namespace SourceSearch

namespace Parser

variable {g : Grammar} {start : Nat} {e : Expr} {c : Cursor}

/-! ## What stands behind an operand -/

open Grammar (unbounded)

theorem suffix?_of_dot (h : c.nextIs Symbol.dot = true) :
    suffix? g start e c = (some <$> selection g start e) c.advance := by
  rw [suffix?, get_bind_eq, eq_of_beq h]
  rfl

/-- Behind a point `this` is read as what it is alone; what stands before the point is dropped. -/
theorem selection_of_this (h : c.nextIs Keyword.thisKw = true) :
    selection g start e c = .ok (⟨.this, .upTo start c.advance.lastEnd⟩, c.advance) := by
  rw [selection, get_bind_eq, eq_of_beq h]
  rfl

/-! ## The reading -/

/-- From the cursor on stand a name, a point and `this`. -/
structure QualifiedThisAt (c : Cursor) (name : String) : Prop where
  text : c.rest.head?.map (·.text) = some name
  ident : c.nextIs .ident = true
  dot : c.advance.nextIs Symbol.dot = true
  this : c.advance.advance.nextIs Keyword.thisKw = true

/-- A name before a point is an operand. -/
theorem primary_of_name (h : c.nextIs .ident = true) (hdot : c.advance.nextIs Symbol.dot = true) :
    ∃ e, primary g c = .ok (e, c.advance) := by
  obtain ⟨tokens, lastEnd, textEnd⟩ := c
  obtain ⟨text, range, rest, rfl⟩ := Cursor.exists_cons_of_kind? (eq_of_beq h)
  let after : Cursor := ⟨rest, range.stop, textEnd⟩
  have hparen : after.nextIs Symbol.lParen = false := by
    have hkind : after.kind? = some (.symbol .dot) := eq_of_beq hdot
    rw [Cursor.nextIs, hkind]
    rfl
  refine ⟨⟨.name ⟨text, range⟩, .upTo range.start range.stop⟩, ?_⟩
  rw [primary, bind_of_ok (p := offset) rfl, get_bind_eq]
  dsimp only
  rw [bind_of_ok (show skip 1 _ = .ok ((), after) from rfl), nextIs_bind_eq, hparen,
    if_neg Bool.false_ne_true]
  rfl

/-- **The object of a type around** is read as the innermost one is, and so is what follows. -/
theorem operand_qualifiedThis {name : String} (h : QualifiedThisAt c name) :
    ∃ range : TextRange, operand unbounded c =
      grow (suffix? unbounded c.offset) ⟨.this, range⟩ c.advance.advance.advance := by
  obtain ⟨e, hprimary⟩ := primary_of_name (g := unbounded) h.ident h.dot
  have hsuffix : suffix? unbounded c.offset e c.advance =
      .ok (some ⟨.this, .upTo c.offset c.advance.advance.advance.lastEnd⟩,
        c.advance.advance.advance) := by
    rw [suffix?_of_dot h.dot, map_eq_pure_bind, bind_of_ok (selection_of_this h.this)]
    rfl
  refine ⟨.upTo c.offset c.advance.advance.advance.lastEnd, ?_⟩
  rw [← grow_of_some (advances_suffix? Grammar.readsOn_unbounded c.offset) hsuffix]
  exact bind_of_ok hprimary _

end Parser

namespace BoundWorkspace

variable {s : BoundWorkspace}

/-! ## The types around -/

theorem length_le_of_mem_outerChain (h : s.workspace.InStep) {fuel : Nat} {key around : TypeKey}
    (hmem : around ∈ s.outerChain fuel key) :
    around.qualifiedName.length ≤ key.qualifiedName.length := by
  induction fuel generalizing key with
  | zero => cases hmem
  | succ fuel ih =>
    rw [outerChain] at hmem
    rcases List.mem_cons.1 hmem with rfl | hmem
    · exact Nat.le_refl _
    · cases houter : s.outer? key with
      | none =>
        rw [houter] at hmem
        cases hmem
      | some outer =>
        rw [houter] at hmem
        exact Nat.le_of_lt (Nat.lt_of_le_of_lt (ih hmem) (length_lt_of_isDirectlyIn h houter))

/-- **All types around** a type have shorter names, so that none of them is the type itself. -/
theorem length_lt_of_getElem?_enclosingChain (h : s.workspace.InStep) {inner outer : TypeKey}
    {k : Nat} (hat : (s.enclosingChain (some inner))[k + 1]? = some outer) :
    outer.qualifiedName.length < inner.qualifiedName.length := by
  rw [enclosingChain, outerChain, List.getElem?_cons_succ] at hat
  cases houter : s.outer? inner with
  | none =>
    rw [houter] at hat
    cases hat
  | some next =>
    rw [houter] at hat
    exact Nat.lt_of_le_of_lt (length_le_of_mem_outerChain h (List.mem_of_getElem? hat))
      (length_lt_of_isDirectlyIn h houter)

/-! ## What is meant -/

/-- An expression that is read as `this` is the innermost object, and its members are looked for in
the type of that one. -/
theorem meaning_this {scope : NameScope} {inner : TypeKey} (hscope : scope.enclosing = some inner)
    (locals : Locals) (range : TextRange) :
    s.meaning scope locals ⟨.this, range⟩ = .value (.named inner) := by
  rw [meaning, meaningOfKind, hscope]

end BoundWorkspace

namespace Workspace

open SourceSearch.Parser BoundWorkspace

/-- **The object of a type around** which an expression names is taken for the innermost one: at
every depth it is read as `this` is, whatever follows, it has the type of the innermost class, and
fields and methods are looked for in that class. This is the class that is named iff it is the
innermost one. -/
theorem typeOf_qualifiedThis_afterAll (edits : List Edit) {inner outer : TypeKey} {k : Nat}
    (hat : ((BoundWorkspace.ofWorkspace (initial.afterAll edits)).enclosingChain
      (some inner))[k]? = some outer)
    {c : Cursor} (hc : QualifiedThisAt c outer.simpleName) :
    let s := BoundWorkspace.ofWorkspace (initial.afterAll edits)
    ∃ range : TextRange,
      operand .unbounded c =
        grow (suffix? .unbounded c.offset) ⟨.this, range⟩ c.advance.advance.advance ∧
      ∀ (scope : NameScope) (locals : Locals), scope.enclosing = some inner →
        let e : Expr := ⟨.this, range⟩
        s.typeOf scope locals e = .named inner ∧
        (s.typeOf scope locals e = .named outer ↔ k = 0) ∧
        (∀ name whole, s.typeOf scope locals ⟨.fieldAccess e name, whole⟩ =
          ((s.field? inner name.text).map s.fieldType).getD .unknown) ∧
        ∀ name args, s.call scope locals (some e) name args =
          ⟨some inner, s.method? inner name.text (s.types scope locals args)⟩ := by
  intro s
  obtain ⟨range, hread⟩ := operand_qualifiedThis hc
  refine ⟨range, hread, fun scope locals hscope => ?_⟩
  intro e
  have hmeaning : s.meaning scope locals e = .value (.named inner) :=
    meaning_this hscope locals range
  have htype : s.typeOf scope locals e = .named inner := by
    rw [typeOf, hmeaning, Meaning.staticType]
  refine ⟨htype, ?_, fun name whole => ?_, fun name args => ?_⟩
  · rw [htype, StaticType.named.injEq]
    cases k with
    | zero =>
      rw [enclosingChain, outerChain, List.getElem?_cons_zero, Option.some.injEq] at hat
      exact iff_of_true hat rfl
    | succ k =>
      refine iff_of_false (fun heq => ?_) (Nat.succ_ne_zero k)
      have hlt := length_lt_of_getElem?_enclosingChain (inStep_afterAll edits) hat
      rw [heq] at hlt
      exact Nat.lt_irrefl _ hlt
  · rw [typeOf, meaning, meaningOfKind, hmeaning, meaningOfMember]
    cases s.field? inner name.text <;> rfl
  · rw [call, meaningOpt, hmeaning]
    rfl

/-- A project with a class in a class. -/
def innerClass : List Edit :=
  [.createProject ⟨"P", [""], [], none⟩,
    .createFile "/P/X.java" "class A \x7b int f; class B \x7b int g; \x7d \x7d"]

/-- The tokens of `A.this`. -/
def outerThis : List Token :=
  [tokenAt .ident "A" 0, tokenAt Symbol.dot "." 1, tokenAt Keyword.thisKw "this" 2]

/-- In the inner class the object of the outer one has the type of the inner one. -/
theorem typeOf_outerThis :
    let s := BoundWorkspace.ofWorkspace (initial.afterAll innerClass)
    let outer : TypeKey := ⟨.source ⟨0⟩, "A"⟩
    let inner : TypeKey := ⟨.source ⟨0⟩, "A.B"⟩
    tokenize "A.this" = .ok outerThis ∧ s.enclosingChain (some inner) = [inner, outer] ∧
      ∃ e, (operand .unbounded).run' ⟨outerThis, 0, 6⟩ = .ok e ∧
        ∀ (scope : NameScope) (locals : Locals), scope.enclosing = some inner →
          s.typeOf scope locals e = .named inner ∧ s.typeOf scope locals e ≠ .named outer := by
  intro s outer inner
  have hchain : s.enclosingChain (some inner) = [inner, outer] := by decide +kernel
  have hat : (s.enclosingChain (some inner))[1]? = some outer := by
    rw [hchain]
    rfl
  have hc : QualifiedThisAt ⟨outerThis, 0, 6⟩ outer.simpleName :=
    ⟨by decide +kernel, rfl, rfl, rfl⟩
  obtain ⟨range, hread, htypes⟩ := typeOf_qualifiedThis_afterAll innerClass hat hc
  refine ⟨by decide +kernel, hchain, ⟨.this, range⟩, ?_, fun scope locals hscope => ?_⟩
  · rw [StateT.run'_eq, show (operand .unbounded).run ⟨outerThis, 0, 6⟩ = _ from hread]
    rfl
  · obtain ⟨htype, hiff, -⟩ := htypes scope locals hscope
    exact ⟨htype, fun heq => Nat.one_ne_zero (hiff.1 heq)⟩

end Workspace

end SourceSearch
