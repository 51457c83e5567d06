import SourceSearch.Proofs.OpenDeclarations

/-!
# The rounds of the loops

Each loop of the readers is given its rounds by name here, and every round that answers something
reads a token (`Parser.Advances`). This is so for the readers over any grammar whose own readers
read a token when they succeed (`Parser.Grammar.ReadsOn`), as those of every depth do.

The heads of declarations go onward too, and with them the reading of a unit that comes to a
declaration in it (`Parser.ComesTo.onward`).
-/

set_option autoImplicit false

namespace SourceSearch.Parser

variable {α : Type} {n : Nat} {g : Grammar}

open Grammar (unbounded)

/-- Every reader of the grammar that succeeds has gone onward past a token at least. -/
def Grammar.ReadsOn (g : Grammar) : Prop := ∀ d, g.AgreesUpTo d g

/-- A grammar that others agree with reads on. -/
theorem Grammar.AgreesUpTo.right {d : Nat} {h : Grammar} (hg : g.AgreesUpTo d h) :
    h.AgreesUpTo d h where
  expr hn := (hg.expr hn).right
  conditional hn := (hg.conditional hn).right
  binary least _ hn := (hg.binary least hn).right
  unary hn := (hg.unary hn).right
  initializer hn := (hg.initializer hn).right
  stmt hn := (hg.stmt hn).right
  member typeName _ hn := (hg.member typeName hn).right

theorem Grammar.readsOn_unbounded : unbounded.ReadsOn :=
  fun d => (agreesUpTo_unbounded d).right

theorem Grammar.readsOn_ofDepth (depth : Nat) : (ofDepth depth).ReadsOn := by
  induction depth with
  | zero =>
    exact fun _ => ⟨fun _ => .fail _, fun _ => .fail _, fun _ _ _ => .fail _, fun _ => .fail _,
      fun _ => .fail _, fun _ => .fail _, fun _ _ _ => .fail _⟩
  | succ depth ih =>
    intro d
    cases d with
    | zero => exact (ih 0).step.mono (Nat.zero_le 1)
    | succ d => exact (ih d).step

namespace Grammar.ReadsOn

variable (hg : g.ReadsOn)

include hg

theorem expr : Leaves n (n - 1) g.expr := (hg n).expr (Nat.le_refl n)

theorem conditional : Leaves n (n - 1) g.conditional := (hg n).conditional (Nat.le_refl n)

theorem binary (least : Nat) : Leaves n (n - 1) (g.binary least) :=
  (hg n).binary least (Nat.le_refl n)

theorem initializer : Leaves n (n - 1) g.initializer := (hg n).initializer (Nat.le_refl n)

theorem stmt : Leaves n (n - 1) g.stmt := (hg (n + 1)).stmt (Nat.le_refl n)

theorem member (typeName : String) : Leaves n (n - 1) (g.member typeName) :=
  (hg (n + 1)).member typeName (Nat.le_refl n)

end Grammar.ReadsOn

/-! ## Items behind separators -/

/-- Reads an item behind a separator, if the separator comes next. -/
def itemAfter? (separator : TokenKind) (item : Parser α) : Parser (Option α) := do
  if ← eat separator then return some (← item) else return none

theorem sepByComma_eq (item : Parser α) : sepByComma item = (do
    let first ← item
    let others ← many (itemAfter? Symbol.comma item)
    return first :: others) := rfl

theorem fieldsRest_eq_many (mods : Modifiers) (type : TypeRef) (start : Nat) (name : Ident) :
    fieldsRest g mods type start name = (do
      let first ← fieldRest g mods type start name
      let others ← many (itemAfter? Symbol.comma (ident >>= fieldRest g mods type start))
      let _ ← expect Symbol.semi
      return first :: others) := by
  simp only [itemAfter?, bind_assoc]
  rfl

theorem advances_itemAfter? {separator : TokenKind} {item : Parser α} (h : ∀ n, Leaves n n item) :
    Advances (itemAfter? separator item) :=
  advances_of_at fun _ => .eat_bind ((h _).bind fun _ => .done) .none

/-! ## Names and written types -/

theorem advances_dottedName? : Advances dottedName? := by
  refine advances_of_at fun c => .nextAre_bind (.ite (fun _ => .of_leaves ?_) fun _ => .none)
  exact (leaves_skip 1).bind fun _ => leaves_ident.bind fun _ => .done

/-- Reads a pair of empty brackets, if it comes next. -/
def emptyPair? : Parser (Option Unit) := do
  if ← nextAre Symbol.lBracket Symbol.rBracket then
    skip 2
    return some ()
  else return none

theorem dims_eq : dims = (do
    let pairs ← many emptyPair?
    return pairs.length) := rfl

theorem advances_emptyPair? : Advances emptyPair? := by
  refine advances_of_at fun c => .nextAre_bind (.ite (fun hnext => ?_) fun _ => .none)
  have hopened : c.nextIs Symbol.lBracket = true := (Bool.and_eq_true_iff.1 hnext).1
  exact .skip_bind (Cursor.rest_ne_nil_of_kind? (eq_of_beq hopened)) .done 1

/-- Reads a point and a name with its type arguments, if a point and a name come next. -/
def typeSegment? : Parser (Option String) := do
  match ← dottedName? with
  | some name =>
    typeArguments
    return some name
  | none => return none

theorem elementType_eq : elementType = (do
    let start ← offset
    match (← get).rest with
    | ⟨.primitive _, text, range⟩ :: _ =>
      skip 1
      return ⟨[text], 0, range⟩
    | _ =>
      let first ← ident
      typeArguments
      let others ← many typeSegment?
      return ⟨first.text :: others, 0, ← rangeFrom start⟩) := rfl

theorem advances_typeSegment? : Advances typeSegment? := by
  intro c next name hok
  obtain ⟨o, mid, hname, hok⟩ := of_bind_eq_ok hok
  cases o with
  | none => cases hok
  | some name =>
    have hrest : Leaves c.rest.length c.rest.length (do
        typeArguments
        return some name) := leaves_typeArguments.bind fun _ => .done
    exact (hrest.at_cursor (advances_dottedName? hname)).lt_of_ok hok

theorem advances_modifier? (mods : Modifiers) : Advances (modifier? mods) := by
  refine advances_of_at fun c => .get_bind ?_
  split
  · refine .ite (fun _ => .none) fun _ => .of_leaves ?_
    exact leaves_annotation.bind fun _ => .done
  next hkind =>
    refine .ite (fun _ => .none) fun _ => ?_
    exact .skip_bind (Cursor.rest_ne_nil_of_kind? hkind) .done 0
  · exact .none

/-- Reads an annotation, if one comes next. -/
def annotation? : Parser (Option Unit) := do
  if ← nextIs Symbol.at then
    annotation
    return some ()
  else return none

theorem advances_annotation? : Advances annotation? := by
  refine advances_of_at fun c => .nextIs_bind (.ite (fun _ => .of_leaves ?_) fun _ => .none)
  exact leaves_annotation.bind fun _ => .done

/-! ## Expressions -/

/-- Reads one more pair of brackets. -/
def bracketPair? (g : Grammar) : Parser (Option (Option Expr)) := do
  if ← eat Symbol.lBracket then
    if ← eat Symbol.rBracket then return some none
    else
      let length ← g.expr
      let _ ← expect Symbol.rBracket
      return some (some length)
  else return none

/-- Each pair takes two tokens at least. -/
theorem advances_bracketPair? (hg : ∀ n, Leaves n (n - 1) g.expr) : Advances (bracketPair? g) := by
  refine advances_of_at fun c => .eat_bind ((leaves_eat _).bind fun _ => .ite .done ?_) .none
  exact (hg _).pass fun _ => (leaves_expect _).pass fun _ => .done

/-- Reads an item of an array in braces, with the comma behind it, up to the closing brace. -/
def arrayItem? (g : Grammar) : Parser (Option Expr) := do
  if ← nextIs Symbol.rBrace then return none
  else
    let e ← g.initializer
    if !(← eat Symbol.comma) && !(← nextIs Symbol.rBrace) then
      let _ ← expect Symbol.rBrace
    return some e

theorem arrayItems_eq : arrayItems g = (do
    let _ ← expect Symbol.lBrace
    let items ← many (arrayItem? g)
    let _ ← expect Symbol.rBrace
    return items) := rfl

theorem advances_arrayItem? (hg : g.ReadsOn) : Advances (arrayItem? g) := by
  refine advances_of_at fun c => .nextIs_bind (.ite (fun _ => .none) fun _ => .of_leaves ?_)
  refine hg.initializer.bind fun _ => ?_
  refine (leaves_eat _).bind fun _ => (leaves_nextIs _).bind fun _ => ?_
  exact .ite ((leaves_expect _).pass fun _ => .done) .done

/-- Each selection, index or operator takes a token at least. -/
theorem advances_suffix? (hg : g.ReadsOn) (start : Nat) (e : Expr) :
    Advances (suffix? g start e) := by
  refine advances_of_at fun c => .get_bind ?_
  -- what follows a token that is there
  have hskip : ∀ {kind : TokenKind} {p : Parser (Option Expr)}, c.kind? = some kind →
      Leaves c.rest.length c.rest.length p → AdvancesAt c (skip 1 >>= fun _ => p) :=
    fun hkind hp => .skip_bind (Cursor.rest_ne_nil_of_kind? hkind) hp 0
  split
  next hkind => exact hskip hkind ((agree_selection (hg _) (Nat.le_refl _) start e).map _)
  next hkind =>
    refine hskip hkind (hg.expr.pass fun _ => ?_)
    exact (leaves_expect _).pass fun _ => leaves_ranged _ _
  next hkind => exact hskip hkind (leaves_ranged _ _)
  next hkind => exact hskip hkind (leaves_ranged _ _)
  next hkind =>
    refine hskip hkind (leaves_typeArguments.bind fun _ => .get_bind fun _ => ?_)
    split
    · exact (leaves_skip 1).bind fun _ => leaves_ranged _ _
    · exact leaves_ident.pass fun _ => leaves_ranged _ _
  next => exact .none

/-- The operator that comes next takes a token at least. -/
theorem exists_width_of_operator? {c : Cursor} {operator : Cursor.Operator} {level width : Nat}
    (h : c.operator? = some (operator, level, width)) :
    c.rest ≠ [] ∧ ∃ count, width = count + 1 := by
  unfold Cursor.operator? at h
  split at h
  · cases h
  · split at h
    next hkind =>
      cases h
      exact ⟨Cursor.rest_ne_nil_of_kind? hkind, 0, rfl⟩
    next hkind =>
      refine ⟨Cursor.rest_ne_nil_of_kind? hkind, ?_⟩
      split at h
      case h_8 =>
        -- one, two or three adjacent brackets
        split at h
        · split at h <;> cases h <;> exact ⟨_, rfl⟩
        · cases h
          exact ⟨0, rfl⟩
      all_goals first
        | cases h; exact ⟨0, rfl⟩
        | cases h
    next => cases h

theorem advances_operatorTail? (hg : g.ReadsOn) (least start : Nat) (lhs : Expr) :
    Advances (operatorTail? g least start lhs) := by
  refine advances_of_at fun c => .get_bind ?_
  split
  next => exact .none
  next hop =>
    obtain ⟨hc, count, rfl⟩ := exists_width_of_operator? hop
    refine .ite (fun _ => .none) fun _ => .skip_bind hc ?_ count
    split
    · exact leaves_typeRef.pass fun _ => (leaves_eat _).bind fun _ => leaves_ranged _ _
    · exact (hg.binary _).pass fun _ => leaves_ranged _ _

/-! ## Statements -/

/-- Reads a resource of a try statement, with the token that ends it, up to the closing
parenthesis. -/
def resource? (g : Grammar) : Parser (Option Stmt) := do
  if ← nextIs Symbol.rParen then return none
  else
    let _ ← modifiers
    let vars ← localVars g
    if !(← eat Symbol.semi) && !(← nextIs Symbol.rParen) then
      let _ ← expect Symbol.rParen
    return some (.locals vars)

theorem resources_eq : resources g = (do
    if ← eat Symbol.lParen then
      let declared ← many (resource? g)
      let _ ← expect Symbol.rParen
      return declared
    else return []) := rfl

theorem advances_resource? (hg : g.ReadsOn) : Advances (resource? g) := by
  refine advances_of_at fun c => .nextIs_bind (.ite (fun _ => .none) fun _ => .of_leaves ?_)
  refine leaves_modifiers.bind fun _ => (agree_localVars (hg _) (Nat.le_refl _)).bind fun _ => ?_
  refine (leaves_eat _).bind fun _ => (leaves_nextIs _).bind fun _ => ?_
  exact .ite ((leaves_expect _).pass fun _ => .done) .done

theorem catchClause?_eq : catchClause? g = (do
    if ← eat Keyword.catchKw then
      let _ ← expect Symbol.lParen
      let _ ← modifiers
      let type ← typeRef
      let _ ← many (itemAfter? Symbol.pipe typeRef)
      let name ← ident
      let _ ← expect Symbol.rParen
      return some ⟨⟨type, name, false⟩, ← block g⟩
    else return none) := rfl

theorem advances_catchClause? (hg : g.ReadsOn) : Advances (catchClause? g) := by
  refine advances_of_at fun c => .eat_bind ?_ .none
  refine (leaves_expect _).pass fun _ => leaves_modifiers.bind fun _ => ?_
  refine leaves_typeRef.pass fun _ => (agree_many ?_).bind fun _ => ?_
  · exact (leaves_eat _).bind fun _ => .ite (leaves_typeRef.pass fun _ => .done) .done
  · refine leaves_ident.pass fun _ => (leaves_expect _).pass fun _ => ?_
    exact (agree_block (hg _) (Nat.le_refl _)).pass fun _ => .done

theorem advances_switchPart? (hg : g.ReadsOn) (cases : List SwitchCase) :
    Advances (switchPart? g cases) := by
  refine advances_of_at fun c => .eat_bind .done (.eat_bind ?_ (.eat_bind ?_ (.of_leaves ?_)))
  · have hlabels := agree_sepByComma (n := c.rest.length) hg.conditional (Nat.sub_le _ _)
    exact hlabels.pass fun _ => (leaves_expect _).pass fun _ => .done
  · exact (leaves_expect _).pass fun _ => .done
  · refine hg.stmt.bind fun _ => ?_
    split
    · exact .fail _
    · exact .done

/-! ## Declarations -/

theorem enumConstant_eq (enumName : String) : enumConstant g enumName = (do
    let start ← offset
    let _ ← many annotation?
    let name ← ident
    let args ← if ← nextIs Symbol.lParen then arguments g else pure []
    let body ← if ← nextIs Symbol.lBrace then some <$> classBody g "" else pure none
    let range ← rangeFrom start
    let type : TypeRef := ⟨[enumName], 0, name.range⟩
    let init : Option Expr :=
      if args.isEmpty && body.isNone then none else some ⟨.new type args body, range⟩
    let mods : Modifiers := { isPublic := true, isStatic := true, isFinal := true }
    return .field ⟨mods, type, name, true, range⟩ init) := rfl

/-- Reads a constant of an enum, with the token that ends it if that is none of the enum, up to the
end of the constants. -/
def constant? (g : Grammar) (enumName : String) : Parser (Option Member) := do
  if (← nextIs Symbol.semi) || (← nextIs Symbol.rBrace) then return none
  else
    let constant ← enumConstant g enumName
    if !(← eat Symbol.comma) && !(← nextIs Symbol.rBrace) && !(← nextIs Symbol.semi) then
      let _ ← expect Symbol.semi
    return some constant

theorem enumConstants_eq (enumName : String) : enumConstants g enumName = (do
    let constants ← many (constant? g enumName)
    let _ ← eat Symbol.semi
    return constants) := rfl

theorem advances_constant? (hg : g.ReadsOn) (enumName : String) :
    Advances (constant? g enumName) := by
  refine advances_of_at fun c => .nextIs_bind (.nextIs_bind (.ite (fun _ => .none) fun _ => ?_))
  refine .of_leaves ((agree_enumConstant (hg _) (Nat.le_refl _) enumName).bind fun _ => ?_)
  refine (leaves_eat _).bind fun _ => (leaves_nextIs _).bind fun _ => ?_
  refine (leaves_nextIs _).bind fun _ => ?_
  exact .ite ((leaves_expect _).pass fun _ => .done) .done

/-- The constants of an enum end at a semicolon or a brace, which is left. -/
theorem nextIs_of_constant?_eq_none {enumName : String} {c d : Cursor}
    (h : constant? g enumName c = .ok (none, d)) :
    d = c ∧ (d.nextIs Symbol.semi = true ∨ d.nextIs Symbol.rBrace = true) := by
  unfold constant? at h
  rw [nextIs_bind_eq, nextIs_bind_eq] at h
  split at h
  next hnext =>
    cases h
    exact ⟨rfl, Bool.or_eq_true_iff.1 hnext⟩
  next =>
    obtain ⟨constant, _, -, h⟩ := of_bind_eq_ok h
    obtain ⟨_, _, -, h⟩ := of_bind_eq_ok h
    obtain ⟨_, _, -, h⟩ := of_bind_eq_ok h
    obtain ⟨_, _, -, h⟩ := of_bind_eq_ok h
    split at h
    · obtain ⟨_, _, -, h⟩ := of_bind_eq_ok h
      cases h
    · cases h

theorem advances_importDecl? : Advances importDecl? := by
  refine advances_of_at fun c => .eat_bind ?_ .none
  refine (leaves_eat _).bind fun _ => leaves_offset.bind fun _ => ?_
  refine leaves_qualifiedName.pass fun _ => (leaves_nextAre _ _).bind fun _ => ?_
  refine .ite ((leaves_skip 2).bind fun _ => ?_) ?_ <;>
  · exact (leaves_rangeFrom _).bind fun _ => (leaves_expect _).pass fun _ => .done

/-! ## Open declarations -/

/-- A reader that goes onward leaves no more tokens than there were. -/
theorem length_le_of_leaves {p : Parser α} {a : α} {c d : Cursor} (hp : ∀ n, Leaves n n p)
    (hok : p c = .ok (a, d)) : d.rest.length ≤ c.rest.length :=
  Nat.le_of_lt_succ (((hp _).at_cursor (Nat.lt_succ_self _)).lt_of_ok hok)

theorem leaves_inBody {item : Parser α} (h : Leaves n n item) : Leaves n n (inBody item) :=
  agree_untilClosed h (Nat.sub_le _ _)

section OpenDeclarations

variable (hg : g.ReadsOn)

include hg

theorem leaves_openType (mods : Modifiers) (start : Nat) : Leaves n n (openType g mods start) := by
  refine leaves_typeDeclKind.bind fun kind => leaves_ident.pass fun name => ?_
  refine leaves_typeArguments.bind fun _ => (leaves_supertypes kind).bind fun _ => ?_
  exact (leaves_expect _).pass fun _ =>
    .ite_bind (agree_enumConstants (hg n) (Nat.le_refl n) _) .done fun _ => .done

omit hg in
theorem leaves_openMethod (mods : Modifiers) (returnType : Option TypeRef) (name : Ident)
    (start : Nat) : Leaves n n (openMethod mods returnType name start) := by
  refine leaves_params.pass fun _ => leaves_dims.bind fun _ => (leaves_eat _).bind fun _ => ?_
  exact .ite_bind leaves_typeList.of_read .done fun _ => .done

theorem leaves_memberHead (typeName : String) : Leaves n n (memberHead g typeName) := by
  refine (leaves_eat _).bind fun _ => .ite .done (leaves_offset.bind fun start => ?_)
  refine (leaves_nextIs _).bind fun _ => (leaves_nextAre _ _).bind fun _ => .ite ?_ ?_
  · refine (leaves_eat _).bind fun _ => ?_
    exact (agree_block (hg n) (Nat.le_refl n)).pass fun _ => leaves_ranged _ _
  · refine leaves_modifiers.bind fun mods => leaves_nextIsTypeDecl.bind fun _ => .ite ?_ ?_
    · exact (leaves_openType hg mods start).bind fun _ => .done
    · refine leaves_typeArguments.bind fun _ => (leaves_nextIsConstructor _).bind fun _ => ?_
      refine .ite ?_ ?_
      · refine leaves_ident.pass fun name => ?_
        exact (leaves_openMethod mods none name start).bind fun _ => .done
      · refine leaves_typeRef.pass fun type => leaves_ident.pass fun name =>
          (leaves_nextIs _).bind fun _ => .ite ?_ ?_
        · exact (leaves_openMethod mods (some type) name start).bind fun _ => .done
        · exact (agree_fieldsRest (hg n) (Nat.le_refl n) mods type start name).bind fun _ => .done

theorem leaves_topHead? : Leaves n n (topHead? g) := by
  refine .get_bind fun _ => .ite .done ((leaves_eat _).bind fun _ => .ite .done ?_)
  refine leaves_offset.bind fun start => leaves_modifiers.bind fun mods => ?_
  exact (leaves_openType hg mods start).bind fun _ => .done

theorem leaves_topEnd (head : Option OpenType) : Leaves n n (topEnd g head) := by
  cases head with
  | none => exact .done
  | some type =>
    exact ((agree_manyUntil (hg.member _).of_read).bind fun _ => leaves_ranged _ _).bind
      fun _ => .done

theorem leaves_topLevel? : Leaves n n (topLevel? g) :=
  agree_topLevel? (hg n) (Nat.le_succ n)

end OpenDeclarations

/-- **The reading of a unit goes onward.** -/
theorem ComesTo.onward {c d : Cursor} {unit : OpenUnit} {types : List OpenType}
    (h : ComesTo unbounded c unit types d) : c.Onward d := by
  have hreads := Grammar.readsOn_unbounded
  have hstep : ∀ {β : Type} {p : Parser β} {b : β} {mid next : Cursor}, (∀ n, Leaves n n p) →
      p mid = .ok (b, next) → mid.Onward next :=
    fun hp hok => ((hp _).at_cursor (Nat.lt_succ_self _)).onward hok
  induction h with
  | start hpackage himports =>
    exact (hstep (fun _ => leaves_packageDecl?) hpackage).trans
      (hstep (fun _ => agree_many leaves_importDecl?) himports)
  | topLevel _ htype ih => exact ih.trans (hstep (fun _ => leaves_topLevel? hreads) htype)
  | openTop _ hhead ih => exact ih.trans (hstep (fun _ => leaves_topHead? hreads) hhead)
  | member _ hmember ih =>
    exact ih.trans (hstep (fun _ => leaves_inBody (hreads.member _).of_read) hmember)
  | openInner _ hhead ih =>
    exact ih.trans (hstep (fun _ => leaves_inBody (leaves_memberHead hreads _)) hhead)

end SourceSearch.Parser
