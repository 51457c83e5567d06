import SourceSearch.Proofs.ReaderBounds

/-!
# How deep texts nest

The grammar of a text is tied once for every token. This is deep enough: a reader goes further
inside only after it has read a token, but for the reader of statements, which goes on to that of
expressions, so that one more level is left over for statements and members. Hence grammars of
different depths agree from wherever few enough tokens are left (`Grammar.agreesUpTo_ofDepth`), and
all of them agree with the grammar that is as deep as it has to be (`Grammar.unbounded`), which is
its own next level (`Grammar.step_unbounded`).
-/

set_option autoImplicit false

namespace SourceSearch.Parser

variable {α β : Type} {n m d : Nat}

/-! ## Names and written types -/

theorem leaves_dottedName? : Leaves n n dottedName? := by
  refine (leaves_nextAre _ _).bind fun _ => .ite ?_ .done
  exact (leaves_skip 1).bind fun _ => leaves_ident.bind fun _ => .pure (Nat.sub_le _ _) _

theorem leaves_qualifiedName : Leaves n (n - 1) qualifiedName :=
  leaves_ident.bind fun _ => (agree_many leaves_dottedName?).bind fun _ => .done

theorem leaves_dims : Leaves n n dims := by
  refine (agree_many ?_).bind fun _ => .done
  refine (leaves_nextAre _ _).bind fun _ => .ite ?_ .done
  exact (leaves_skip 2).bind fun _ => .done

theorem leaves_elementType : Leaves n (n - 1) elementType := by
  refine ⟨fun {c} hlt => .offset_bind (.get_bind ?_)⟩
  split
  next hrest =>
    have hskip : AgreeAt c (n - 1) (skip 1) (skip 1) :=
      .skip (by rw [hrest]; exact List.cons_ne_nil _ _) (by omega) 0
    exact hskip.bind fun _ => .done
  next =>
    refine (leaves_ident.bind fun _ => leaves_typeArguments.bind fun _ => ?_).at_cursor hlt
    refine (agree_many ?_).bind fun _ => leaves_ranged _ _
    refine leaves_dottedName?.bind fun o => ?_
    split
    · exact leaves_typeArguments.bind fun _ => .done
    · exact .done

theorem leaves_typeRef : Leaves n (n - 1) typeRef :=
  leaves_elementType.bind fun _ => leaves_dims.bind fun _ => .done

theorem leaves_typeList : Leaves n (n - 1) typeList :=
  agree_sepByComma leaves_typeRef (Nat.sub_le _ _)

theorem leaves_annotation : Leaves n (n - 1) annotation := by
  refine (leaves_expect _).bind fun _ => leaves_qualifiedName.pass fun _ => ?_
  exact (leaves_nextIs _).bind fun _ =>
    .ite (leaves_skipBalanced _ _).of_read .done

theorem leaves_modifier? (mods : Modifiers) : Leaves n n (modifier? mods) := by
  refine .get_bind fun c => ?_
  split
  · refine .ite .done ?_
    exact leaves_annotation.pass fun _ => .done
  · refine .ite .done ?_
    exact (leaves_skip 1).bind fun _ => .done
  · exact .done

theorem leaves_modifiers : Leaves n n modifiers :=
  agree_grow leaves_modifier? _

theorem leaves_nextIsTypeDecl : Leaves n n nextIsTypeDecl := by
  refine .get_bind fun c => ?_
  split <;> exact .done

theorem leaves_param : Leaves n (n - 1) param := by
  refine leaves_modifiers.bind fun _ => leaves_typeRef.bind fun _ => (leaves_eat _).bind fun _ => ?_
  exact leaves_ident.pass fun _ => leaves_dims.bind fun _ => .done

theorem leaves_params : Leaves n (n - 1) params :=
  agree_parenthesized leaves_param.of_read

theorem leaves_nextIsLocalDecl : Leaves n n nextIsLocalDecl := leaves_succeeds

/-! ## The recursive part of the grammar -/

/-- The readers that go further inside agree from wherever fewer than `d` tokens are left, those of
statements and members from one token less. -/
structure Grammar.AgreesUpTo (d : Nat) (g h : Grammar) : Prop where
  expr : ∀ {n}, n ≤ d → Agree n (n - 1) g.expr h.expr
  conditional : ∀ {n}, n ≤ d → Agree n (n - 1) g.conditional h.conditional
  binary : ∀ least {n}, n ≤ d → Agree n (n - 1) (g.binary least) (h.binary least)
  unary : ∀ {n}, n ≤ d → Agree n (n - 1) g.unary h.unary
  initializer : ∀ {n}, n ≤ d → Agree n (n - 1) g.initializer h.initializer
  stmt : ∀ {n}, n ≤ d - 1 → Agree n (n - 1) g.stmt h.stmt
  member : ∀ typeName {n}, n ≤ d - 1 → Agree n (n - 1) (g.member typeName) (h.member typeName)

variable {g h : Grammar}

/-! ## Expressions -/

theorem agree_arguments (hg : g.AgreesUpTo d h) (hn : n ≤ d + 1) :
    Agree n (n - 1) (arguments g) (arguments h) :=
  agree_parenthesized (hg.expr (by omega)).of_read

theorem agree_block (hg : g.AgreesUpTo d h) (hn : n ≤ d) :
    Agree n (n - 1) (block g) (block h) := by
  refine leaves_offset.bind fun _ => (leaves_expect _).bind fun _ => ?_
  exact (agree_manyUntil (hg.stmt (by omega)).of_read).bind fun _ => leaves_ranged _ _

theorem agree_arrayItems (hg : g.AgreesUpTo d h) (hn : n ≤ d + 1) :
    Agree n (n - 1) (arrayItems g) (arrayItems h) := by
  refine (leaves_expect _).bind fun _ => (agree_many ?_).bind fun _ =>
    (leaves_expect _).pass fun _ => .done
  refine (leaves_nextIs _).bind fun _ => .ite .done ?_
  refine (hg.initializer (by omega)).pass fun _ => (leaves_eat _).bind fun _ => ?_
  refine (leaves_nextIs _).bind fun _ => .ite ?_ .done
  exact (leaves_expect _).pass fun _ => .done

theorem agree_arrayInit (hg : g.AgreesUpTo d h) (hn : n ≤ d + 1) :
    Agree n (n - 1) (arrayInit g) (arrayInit h) :=
  leaves_offset.bind fun _ => (agree_arrayItems hg hn).bind fun _ => leaves_ranged _ _

theorem agree_classBody (hg : g.AgreesUpTo d h) (hn : n ≤ d) (typeName : String) :
    Agree n (n - 1) (classBody g typeName) (classBody h typeName) := by
  refine (leaves_expect _).bind fun _ => ?_
  exact (agree_manyUntil (hg.member _ (by omega)).of_read).bind fun _ => .done

theorem agree_creation (hg : g.AgreesUpTo d h) (hn : n ≤ d + 1) (start : Nat) :
    Agree n (n - 1) (creation g start) (creation h start) := by
  refine leaves_elementType.bind fun _ => (leaves_nextIs _).bind fun _ => .ite ?_ ?_
  · refine (agree_many ?_).bind fun _ => (leaves_nextIs _).bind fun _ => ?_
    · refine (leaves_eat _).bind fun _ => .ite ?_ .done
      refine (leaves_eat _).bind fun _ => .ite .done ?_
      exact (hg.expr (by omega)).pass fun _ => (leaves_expect _).pass fun _ => .done
    · exact .ite_bind ((agree_arrayItems hg (by omega)).of_read.map _) .done
        fun _ => leaves_ranged _ _
  · refine (agree_arguments hg (by omega)).pass fun _ => (leaves_nextIs _).bind fun _ => ?_
    exact .ite_bind ((agree_classBody hg (by omega) "").of_read.map _) .done
      fun _ => leaves_ranged _ _

/-- `this` and `super` are expressions, and with arguments they call a constructor. -/
theorem agree_selfExpr (hg : g.AgreesUpTo d h) (hn : n ≤ d) (onSuper : Bool) (kind : ExprKind)
    (start : Nat) :
    Agree n n (do
        if ← nextIs Symbol.lParen then
          let args ← arguments g
          return (⟨.constructorCall onSuper args, ← rangeFrom start⟩ : Expr)
        else return ⟨kind, ← rangeFrom start⟩) (do
        if ← nextIs Symbol.lParen then
          let args ← arguments h
          return ⟨.constructorCall onSuper args, ← rangeFrom start⟩
        else return ⟨kind, ← rangeFrom start⟩) := by
  refine (leaves_nextIs _).bind fun _ => .ite ?_ ?_
  · exact (agree_arguments hg (by omega)).pass fun _ => leaves_ranged _ _
  · exact leaves_ranged _ _

theorem agree_primary (hg : g.AgreesUpTo d h) (hn : n ≤ d + 1) :
    Agree n (n - 1) (primary g) (primary h) := by
  refine ⟨fun {c} hlt => .offset_bind (.get_bind ?_)⟩
  split
  next => exact .fail _
  next kind text range rest hrest =>
    have hskip : AgreeAt c (n - 1) (skip 1) (skip 1) :=
      .skip (by rw [hrest]; exact List.cons_ne_nil _ _) (by omega) 0
    -- an expression of one token
    have hleaf : ∀ kind : ExprKind, AgreeAt c (n - 1)
        (do skip 1; return (⟨kind, ← rangeFrom c.offset⟩ : Expr))
        (do skip 1; return ⟨kind, ← rangeFrom c.offset⟩) :=
      fun kind => hskip.bind fun _ => leaves_ranged _ _
    split
    · exact hleaf _
    · exact hleaf _
    · exact hleaf _
    · exact hleaf _
    · exact hleaf _
    · exact hleaf _
    · exact hskip.bind fun _ => agree_selfExpr hg (by omega) _ _ _
    · exact hskip.bind fun _ => agree_selfExpr hg (by omega) _ _ _
    · refine hskip.bind fun _ => (hg.expr (by omega)).pass fun _ => ?_
      exact (leaves_expect _).pass fun _ => leaves_ranged _ _
    · exact hskip.bind fun _ => (agree_creation hg (by omega) _).of_read
    · refine hskip.bind fun _ => (leaves_nextIs _).bind fun _ => .ite ?_ ?_
      · exact (agree_arguments hg (by omega)).pass fun _ => leaves_ranged _ _
      · exact leaves_ranged _ _
    · refine (leaves_typeRef.bind fun _ => (leaves_expect _).pass fun _ => ?_).at_cursor hlt
      exact (leaves_expect _).pass fun _ => leaves_ranged _ _
    · exact .fail _

theorem agree_selection (hg : g.AgreesUpTo d h) (hn : n ≤ d) (start : Nat) (target : Expr) :
    Agree n n (selection g start target) (selection h start target) := by
  -- a call on the target
  have hcall : ∀ {n'} (name : Ident), n' ≤ d → Agree n' n' (do
      let args ← arguments g
      return (⟨.call (some target) name args, ← rangeFrom start⟩ : Expr)) (do
      let args ← arguments h
      return ⟨.call (some target) name args, ← rangeFrom start⟩) :=
    fun name hle => (agree_arguments hg (by omega)).pass fun _ => leaves_ranged _ _
  refine .get_bind fun c => ?_
  split
  · exact leaves_typeArguments.bind fun _ => leaves_ident.pass fun name => hcall name hn
  · refine leaves_ident.pass fun name => (leaves_nextIs _).bind fun _ => ?_
    exact .ite (hcall name hn) (leaves_ranged _ _)
  · refine (leaves_skip 1).bind fun _ => ?_
    split
    · exact leaves_ranged _ _
    · exact .fail _
  · exact (leaves_skip 1).bind fun _ => leaves_ranged _ _
  · exact (agree_primary hg (by omega)).of_read
  · exact .fail _

theorem agree_suffix? (hg : g.AgreesUpTo d h) (hn : n ≤ d) (start : Nat) (x : Expr) :
    Agree n n (suffix? g start x) (suffix? h start x) := by
  refine .get_bind fun c => ?_
  split
  · exact (leaves_skip 1).bind fun _ => (agree_selection hg hn start x).map _
  · refine (leaves_skip 1).bind fun _ => (hg.expr hn).pass fun _ => ?_
    exact (leaves_expect _).pass fun _ => leaves_ranged _ _
  · exact (leaves_skip 1).bind fun _ => leaves_ranged _ _
  · exact (leaves_skip 1).bind fun _ => leaves_ranged _ _
  · refine (leaves_skip 1).bind fun _ => leaves_typeArguments.bind fun _ => .get_bind fun _ => ?_
    split
    · exact (leaves_skip 1).bind fun _ => leaves_ranged _ _
    · exact leaves_ident.pass fun _ => leaves_ranged _ _
  · exact .done

theorem agree_operand (hg : g.AgreesUpTo d h) (hn : n ≤ d + 1) :
    Agree n (n - 1) (operand g) (operand h) :=
  leaves_offset.bind fun start => (agree_primary hg hn).bind fun _ =>
    agree_grow (fun x => agree_suffix? hg (by omega) start x) _

theorem leaves_lambdaParam : Leaves n (n - 1) lambdaParam := by
  refine (leaves_nextAre _ _).bind fun _ => (leaves_nextAre _ _).bind fun _ => .ite ?_ ?_
  · exact leaves_ident.bind fun _ => .done
  · refine leaves_modifiers.bind fun _ => leaves_typeRef.bind fun _ => ?_
    exact leaves_ident.pass fun _ => leaves_dims.bind fun _ => .done

theorem agree_lambda (hg : g.AgreesUpTo d h) (hn : n ≤ d + 1) :
    Agree n (n - 1) (lambda g) (lambda h) := by
  refine leaves_offset.bind fun _ => (leaves_nextIs _).bind fun _ => ?_
  refine .ite_bind (leaves_ident.map _) (agree_parenthesized leaves_lambdaParam.of_read)
    fun _ => (leaves_expect _).pass fun _ => (leaves_nextIs _).bind fun _ => ?_
  exact .ite_bind ((agree_block hg (by omega)).of_read.map _) ((hg.expr (by omega)).of_read.map _)
    fun _ => leaves_ranged _ _

theorem leaves_castType : Leaves n (n - 1) castType :=
  (leaves_expect _).bind fun _ => leaves_typeRef.pass fun _ =>
    (leaves_expect _).pass fun _ => .done

/-- A cast is there and its type is read, or there is none and nothing is read, or the tokens that
have to be a cast are none. -/
theorem castType?_cases (c : Cursor) :
    castType? c = .ok (none, c) ∨ (∃ e, castType? c = .error e) ∨
      ∃ type after, castType c = .ok (type, after) ∧ castType? c = .ok (some type, after) := by
  unfold castType?
  split
  · cases hcast : castType c with
    | error e => exact .inr (.inl ⟨e, rfl⟩)
    | ok pair => exact .inr (.inr ⟨pair.1, pair.2, rfl, rfl⟩)
  · cases hcast : castType c with
    | error e => exact .inl rfl
    | ok pair =>
      dsimp only
      split
      · exact .inr (.inr ⟨pair.1, pair.2, rfl, rfl⟩)
      · exact .inl rfl
  · exact .inl rfl

/-- The type of a cast is read before what follows it. -/
theorem agree_castType?_bind {f f' : Option TypeRef → Parser β}
    (hsome : ∀ type, Agree (n - 1) m (f (some type)) (f' (some type)))
    (hnone : Agree n m (f none) (f' none)) :
    Agree n m (castType? >>= f) (castType? >>= f') := by
  refine ⟨fun {c} hlt => ?_⟩
  obtain hrun | ⟨e, hrun⟩ | ⟨type, after, hcast, hrun⟩ := castType?_cases c
  · exact (hnone.at_cursor hlt).of_eq (bind_of_ok hrun f) (bind_of_ok hrun f')
  · exact .of_error (bind_of_error hrun f) (bind_of_error hrun f')
  · have hat := leaves_castType.at_cursor hlt
    have hafter := ((hsome type).at_cursor (hat.lt_of_ok hcast)).of_onward (hat.onward hcast)
    exact hafter.of_eq (bind_of_ok hrun f) (bind_of_ok hrun f')

theorem rest_ne_nil_of_signOp? {c : Cursor} {op : UnaryOp} (h : c.signOp? = some op) :
    c.rest ≠ [] := by
  intro hnil
  rw [Cursor.signOp?, Cursor.kind?, hnil] at h
  cases h

theorem agree_unary (hg : g.AgreesUpTo d h) (hn : n ≤ d + 1) :
    Agree n (n - 1) (unary g) (unary h) := by
  refine ⟨fun {c} hlt => .offset_bind (.get_bind ?_)⟩
  split
  next op hop =>
    have hskip : AgreeAt c (n - 1) (skip 1) (skip 1) :=
      .skip (rest_ne_nil_of_signOp? hop) (by omega) 0
    exact hskip.bind fun _ => (hg.unary (by omega)).pass fun _ => leaves_ranged _ _
  next =>
    refine ((leaves_nextIs _).bind fun _ => .ite ?_ (agree_operand hg hn)).at_cursor hlt
    refine agree_castType?_bind (fun type => ?_) (agree_operand hg hn)
    refine .get_bind fun _ => ?_
    exact .ite_bind (agree_lambda hg (by omega)).of_read (hg.unary (by omega)).of_read fun _ =>
      leaves_ranged _ _

theorem agree_operatorTail? (hg : g.AgreesUpTo d h) (hn : n ≤ d) (least start : Nat) (lhs : Expr) :
    Agree n n (operatorTail? g least start lhs) (operatorTail? h least start lhs) := by
  refine .get_bind fun c => ?_
  split
  next => exact .done
  next =>
    refine .ite .done ((leaves_skip _).bind fun _ => ?_)
    split
    · exact leaves_typeRef.pass fun _ => (leaves_eat _).bind fun _ => leaves_ranged _ _
    · exact (hg.binary _ hn).pass fun _ => leaves_ranged _ _

theorem agree_binary (hg : g.AgreesUpTo d h) (least : Nat) (hn : n ≤ d + 1) :
    Agree n (n - 1) (binary g least) (binary h least) :=
  leaves_offset.bind fun start => (agree_unary hg hn).bind fun _ =>
    agree_grow (fun lhs => agree_operatorTail? hg (by omega) least start lhs) _

theorem agree_conditional (hg : g.AgreesUpTo d h) (hn : n ≤ d + 1) :
    Agree n (n - 1) (conditional g) (conditional h) := by
  refine leaves_offset.bind fun _ => (agree_binary hg 0 hn).bind fun _ => ?_
  refine (leaves_eat _).bind fun _ => .ite ?_ .done
  refine (hg.expr (by omega)).pass fun _ => (leaves_expect _).pass fun _ => ?_
  exact (hg.conditional (by omega)).pass fun _ => leaves_ranged _ _

theorem agree_expr (hg : g.AgreesUpTo d h) (hn : n ≤ d + 1) :
    Agree n (n - 1) (expr g) (expr h) := by
  refine .get_bind fun _ => .ite (agree_lambda hg hn) (leaves_offset.bind fun _ => ?_)
  refine (agree_conditional hg hn).bind fun _ => .get_bind fun _ => .ite ?_ ?_
  · exact (leaves_skip _).bind fun _ => (hg.expr (by omega)).pass fun _ => leaves_ranged _ _
  · exact (leaves_nextIs _).bind fun _ => .ite (.fail _) .done

theorem agree_initializer (hg : g.AgreesUpTo d h) (hn : n ≤ d + 1) :
    Agree n (n - 1) (initializer g) (initializer h) :=
  (leaves_nextIs _).bind fun _ => .ite (agree_arrayInit hg hn) (agree_expr hg hn)

/-! ## Statements -/

theorem agree_parenExpr (hg : g.AgreesUpTo d h) (hn : n ≤ d) :
    Agree n (n - 1) (parenExpr g) (parenExpr h) :=
  (leaves_expect _).bind fun _ => (hg.expr (by omega)).pass fun _ =>
    (leaves_expect _).pass fun _ => .done

theorem agree_localVar (hg : g.AgreesUpTo d h) (hn : n ≤ d) (type : TypeRef) :
    Agree n (n - 1) (localVar g type) (localVar h type) := by
  refine leaves_ident.bind fun _ => leaves_dims.bind fun _ => (leaves_eat _).bind fun _ => ?_
  exact .ite_bind ((hg.initializer (by omega)).of_read.map _) .done fun _ => .done

theorem agree_localVars (hg : g.AgreesUpTo d h) (hn : n ≤ d) :
    Agree n (n - 1) (localVars g) (localVars h) :=
  leaves_typeRef.bind fun type =>
    agree_sepByComma (agree_localVar hg (by omega) type).of_read (Nat.le_refl _)

theorem leaves_modifiersRead : Leaves n n modifiersRead :=
  .get_bind fun _ => leaves_modifiers.bind fun _ => .get_bind fun _ => .done

theorem leaves_forEachVar : Leaves n (n - 1) forEachVar :=
  leaves_modifiers.bind fun _ => leaves_typeRef.bind fun _ => leaves_ident.pass fun _ => .done

theorem agree_exprs (hg : g.AgreesUpTo d h) (hn : n ≤ d) :
    Agree n (n - 1) (sepByComma g.expr) (sepByComma h.expr) :=
  agree_sepByComma (hg.expr hn) (Nat.sub_le _ _)

theorem agree_forInit (hg : g.AgreesUpTo d h) (hn : n ≤ d) (isDecl : Bool) :
    Agree n n (forInit g isDecl) (forInit h isDecl) := by
  refine .ite ?_ ?_
  · exact leaves_modifiers.bind fun _ => (agree_localVars hg hn).pass fun _ => .done
  · exact (agree_exprs hg hn).pass fun _ => .done

theorem agree_countingLoop (hg : g.AgreesUpTo d h) (hn : n ≤ d - 1) (isDecl : Bool) :
    Agree n n (countingLoop g isDecl) (countingLoop h isDecl) := by
  refine (leaves_nextIs _).bind fun _ => ?_
  refine .ite_bind .done (agree_forInit hg (by omega) isDecl) fun _ => ?_
  refine (leaves_expect _).pass fun _ => (leaves_nextIs _).bind fun _ => ?_
  refine .ite_bind .done ((hg.expr (by omega)).of_read.map _) fun _ => ?_
  refine (leaves_expect _).pass fun _ => (leaves_nextIs _).bind fun _ => ?_
  refine .ite_bind .done (agree_exprs hg (by omega)).of_read fun _ => ?_
  exact (leaves_expect _).pass fun _ => (hg.stmt hn).pass fun _ => .done

theorem agree_forLoop (hg : g.AgreesUpTo d h) (hn : n ≤ d) :
    Agree n (n - 1) (forLoop g) (forLoop h) := by
  refine (leaves_expect _).bind fun _ => (leaves_nextIs _).bind fun _ => ?_
  have hcounting : ∀ isDecl, Agree (n - 1) (n - 1) (countingLoop g isDecl)
      (countingLoop h isDecl) := agree_countingLoop hg (by omega)
  refine .ite (hcounting false) ?_
  -- the reading comes back to this place, to read the head of the loop again
  refine ⟨fun {c} hlt => .get_bind ?_⟩
  refine (leaves_modifiersRead.at_cursor hlt).bind_from fun _ mid hmid hless => ?_
  refine (leaves_nextIsLocalDecl.at_cursor hless).bind_from fun _ mid' hmid' hless' => ?_
  refine .ite (fun _ => .set_bind ?_) fun _ =>
    ((hcounting false).at_cursor hless').of_onward (hmid.trans hmid')
  refine (leaves_forEachVar.of_read.at_cursor hlt).bind_from fun _ after hafter hless => ?_
  refine ((leaves_eat _).at_cursor hless).bind_from fun _ behind hbehind hless' => ?_
  refine .ite (fun _ => ?_) fun _ => .set_bind ((hcounting true).at_cursor hlt)
  refine Agree.at_cursor ?_ hless' |>.of_onward (hafter.trans hbehind)
  refine (hg.expr (by omega)).pass fun _ => (leaves_expect _).pass fun _ => ?_
  exact (hg.stmt (by omega)).pass fun _ => .done

theorem agree_resources (hg : g.AgreesUpTo d h) (hn : n ≤ d) :
    Agree n n (resources g) (resources h) := by
  refine (leaves_eat _).bind fun _ => .ite ?_ .done
  refine (agree_many ?_).bind fun _ => (leaves_expect _).pass fun _ => .done
  refine (leaves_nextIs _).bind fun _ => .ite .done ?_
  refine leaves_modifiers.bind fun _ => (agree_localVars hg hn).pass fun _ => ?_
  refine (leaves_eat _).bind fun _ => (leaves_nextIs _).bind fun _ => ?_
  exact .ite ((leaves_expect _).pass fun _ => .done) .done

theorem agree_catchClause? (hg : g.AgreesUpTo d h) (hn : n ≤ d) :
    Agree n n (catchClause? g) (catchClause? h) := by
  refine (leaves_eat _).bind fun _ => .ite ?_ .done
  refine (leaves_expect _).pass fun _ => leaves_modifiers.bind fun _ => ?_
  refine leaves_typeRef.pass fun _ => (agree_many ?_).bind fun _ => ?_
  · exact (leaves_eat _).bind fun _ => .ite (leaves_typeRef.pass fun _ => .done) .done
  · refine leaves_ident.pass fun _ => (leaves_expect _).pass fun _ => ?_
    exact (agree_block hg hn).pass fun _ => .done

theorem agree_tryStmt (hg : g.AgreesUpTo d h) (hn : n ≤ d) :
    Agree n n (tryStmt g) (tryStmt h) := by
  have hblock := (agree_block hg hn).of_read
  refine (agree_resources hg hn).bind fun _ => hblock.bind fun _ => ?_
  refine (agree_many (agree_catchClause? hg hn)).bind fun _ => (leaves_eat _).bind fun _ => ?_
  exact .ite_bind (hblock.map _) .done fun _ => .ite (.fail _) .done

theorem agree_switchPart? (hg : g.AgreesUpTo d h) (hn : n ≤ d - 1) (cases : List SwitchCase) :
    Agree n n (switchPart? g cases) (switchPart? h cases) := by
  refine (leaves_eat _).bind fun _ => .ite .done ?_
  refine (leaves_eat _).bind fun _ => .ite ?_ ?_
  · have hlabels := agree_sepByComma (hg.conditional (n := n) (by omega)) (Nat.sub_le _ _)
    exact hlabels.pass fun _ => (leaves_expect _).pass fun _ => .done
  · refine (leaves_eat _).bind fun _ => .ite ?_ ?_
    · exact (leaves_expect _).pass fun _ => .done
    · refine (hg.stmt hn).pass fun _ => ?_
      split
      · exact .fail _
      · exact .done

theorem agree_switchStmt (hg : g.AgreesUpTo d h) (hn : n ≤ d) :
    Agree n (n - 1) (switchStmt g) (switchStmt h) := by
  refine (agree_parenExpr hg hn).bind fun _ => (leaves_expect _).pass fun _ => ?_
  exact (agree_grow (fun cases => agree_switchPart? hg (by omega) cases) _).bind fun _ => .done

theorem leaves_jumpEnd : Leaves n n jumpEnd :=
  (leaves_eat _).bind fun _ => (leaves_expect _).pass fun _ => .done

theorem agree_keywordStmt? (hg : g.AgreesUpTo d h) (hn : n ≤ d - 1) (k : Keyword) :
    (keywordStmt? g k = none ∧ keywordStmt? h k = none) ∨
      ∃ p q, keywordStmt? g k = some p ∧ keywordStmt? h k = some q ∧ Agree n n p q := by
  have hd : n ≤ d := by omega
  have hexpr := (hg.expr hd).of_read
  have hstmt := (hg.stmt hn).of_read
  have hcond := (agree_parenExpr hg hd).of_read
  have hsemi := (leaves_expect (n := n) Symbol.semi).of_read
  unfold keywordStmt?
  split
  · refine .inr ⟨_, _, rfl, rfl, hcond.bind fun _ => hstmt.bind fun _ => ?_⟩
    exact (leaves_eat _).bind fun _ => .ite_bind (hstmt.map _) .done fun _ => .done
  · exact .inr ⟨_, _, rfl, rfl, hcond.bind fun _ => hstmt.bind fun _ => .done⟩
  · refine .inr ⟨_, _, rfl, rfl, hstmt.bind fun _ => (leaves_expect _).pass fun _ => ?_⟩
    exact hcond.bind fun _ => hsemi.bind fun _ => .done
  · exact .inr ⟨_, _, rfl, rfl, (agree_forLoop hg hd).of_read⟩
  · refine .inr ⟨_, _, rfl, rfl, (leaves_nextIs _).bind fun _ => ?_⟩
    exact .ite_bind .done (hexpr.map _) fun _ => hsemi.bind fun _ => .done
  · exact .inr ⟨_, _, rfl, rfl, hexpr.bind fun _ => hsemi.bind fun _ => .done⟩
  · exact .inr ⟨_, _, rfl, rfl, leaves_jumpEnd.bind fun _ => .done⟩
  · exact .inr ⟨_, _, rfl, rfl, leaves_jumpEnd.bind fun _ => .done⟩
  · exact .inr ⟨_, _, rfl, rfl, agree_tryStmt hg hd⟩
  · exact .inr ⟨_, _, rfl, rfl, (agree_switchStmt hg hd).of_read⟩
  · refine .inr ⟨_, _, rfl, rfl, hexpr.bind fun _ => (leaves_eat _).bind fun _ => ?_⟩
    exact .ite_bind (hexpr.map _) .done fun _ => hsemi.bind fun _ => .done
  · exact .inl ⟨rfl, rfl⟩

theorem agree_plainStmt (hg : g.AgreesUpTo d h) (hn : n ≤ d)
    {typeDecl typeDecl' : Modifiers → Nat → Parser TypeDecl}
    (htype : ∀ mods start, Agree n (n - 1) (typeDecl mods start) (typeDecl' mods start)) :
    Agree n (n - 1) (plainStmt g typeDecl) (plainStmt h typeDecl') := by
  refine leaves_offset.bind fun start => leaves_modifiersRead.bind fun _ => ?_
  refine leaves_nextIsTypeDecl.bind fun _ => .ite ?_ ?_
  · exact (htype _ start).bind fun _ => .done
  · refine leaves_nextIsLocalDecl.bind fun _ => .ite ?_ ?_
    · exact (agree_localVars hg hn).bind fun _ => (leaves_expect _).pass fun _ => .done
    · exact (hg.expr hn).bind fun _ => (leaves_expect _).pass fun _ => .done

/-! ## Declarations -/

theorem agree_enumConstant (hg : g.AgreesUpTo d h) (hn : n ≤ d) (enumName : String) :
    Agree n (n - 1) (enumConstant g enumName) (enumConstant h enumName) := by
  refine leaves_offset.bind fun _ => (agree_many ?_).bind fun _ => ?_
  · refine (leaves_nextIs _).bind fun _ => .ite ?_ .done
    exact leaves_annotation.pass fun _ => .done
  · refine leaves_ident.bind fun _ => (leaves_nextIs _).bind fun _ => ?_
    refine .ite_bind (agree_arguments hg (by omega)).of_read .done fun _ => ?_
    refine (leaves_nextIs _).bind fun _ => ?_
    exact .ite_bind ((agree_classBody hg (by omega) "").of_read.map _) .done
      fun _ => leaves_ranged _ _

theorem agree_enumConstants (hg : g.AgreesUpTo d h) (hn : n ≤ d) (enumName : String) :
    Agree n n (enumConstants g enumName) (enumConstants h enumName) := by
  refine (agree_many ?_).bind fun _ => (leaves_eat _).bind fun _ => .done
  refine (leaves_nextIs _).bind fun _ => (leaves_nextIs _).bind fun _ => ?_
  refine .ite .done ?_
  refine (agree_enumConstant hg hn enumName).pass fun _ => (leaves_eat _).bind fun _ => ?_
  refine (leaves_nextIs _).bind fun _ => (leaves_nextIs _).bind fun _ => ?_
  exact .ite ((leaves_expect _).pass fun _ => .done) .done

theorem agree_enumBody (hg : g.AgreesUpTo d h) (hn : n ≤ d) (enumName : String) :
    Agree n (n - 1) (enumBody g enumName) (enumBody h enumName) := by
  refine (leaves_expect _).bind fun _ => (agree_enumConstants hg (by omega) _).bind fun _ => ?_
  exact (agree_manyUntil (hg.member _ (by omega)).of_read).bind fun _ => .done

theorem leaves_typeDeclKind : Leaves n n typeDeclKind := by
  refine .get_bind fun c => ?_
  split
  · exact (leaves_skip 1).bind fun _ => .done
  · exact (leaves_skip 1).bind fun _ => .done
  · exact (leaves_skip 1).bind fun _ => .done
  · exact (leaves_skip 1).bind fun _ => (leaves_expect _).pass fun _ => .done
  · exact (leaves_skip 1).bind fun _ => .fail _

theorem leaves_supertypes (kind : TypeDeclKind) : Leaves n n (supertypes kind) := by
  -- what follows the word of the superclass, whatever stood behind it
  have himplemented : ∀ inherited : Option TypeRef × List TypeRef, Leaves n n (do
      let implemented ← if ← eat Keyword.implementsKw then typeList else pure []
      return (inherited.1, inherited.2 ++ implemented)) :=
    fun _ => (leaves_eat _).bind fun _ =>
      .ite_bind leaves_typeList.of_read .done fun _ => .done
  refine (leaves_eat _).bind fun _ => .ite (.ite ?_ ?_) ?_
  · exact (leaves_typeList.of_read.map _).bind himplemented
  · exact (leaves_typeRef.of_read.map _).bind himplemented
  · exact Agree.done.bind himplemented

theorem agree_typeDecl (hg : g.AgreesUpTo d h) (hn : n ≤ d + 1) (mods : Modifiers) (start : Nat) :
    Agree n (n - 1) (typeDecl g mods start) (typeDecl h mods start) := by
  refine leaves_typeDeclKind.bind fun kind => leaves_ident.bind fun _ => ?_
  refine leaves_typeArguments.bind fun _ => (leaves_supertypes kind).bind fun _ => ?_
  exact .ite_bind (agree_enumBody hg (by omega) _).of_read (agree_classBody hg (by omega) _).of_read
    fun _ => leaves_ranged _ _

theorem agree_methodBody (hg : g.AgreesUpTo d h) (hn : n ≤ d) :
    Agree n n (methodBody g) (methodBody h) := by
  refine (leaves_eat _).bind fun _ => .ite .done ?_
  refine (leaves_eat _).bind fun _ => .ite ?_ ?_
  · exact leaves_skipToDeclaratorEnd.bind fun _ => (leaves_expect _).pass fun _ => .done
  · refine agree_orElse ((agree_block hg hn).of_read.map _) ?_
    exact leaves_offset.bind fun _ => (leaves_skipBalanced _ _).pass fun _ => leaves_ranged _ _

theorem agree_methodRest (hg : g.AgreesUpTo d h) (hn : n ≤ d) (mods : Modifiers)
    (returnType : Option TypeRef) (name : Ident) (start : Nat) :
    Agree n n (methodRest g mods returnType name start)
      (methodRest h mods returnType name start) := by
  refine leaves_params.pass fun _ => leaves_dims.bind fun _ => (leaves_eat _).bind fun _ => ?_
  refine .ite_bind leaves_typeList.of_read .done fun _ => ?_
  exact (agree_methodBody hg hn).bind fun _ => leaves_ranged _ _

theorem agree_fieldValue (hg : g.AgreesUpTo d h) (hn : n ≤ d) :
    Agree n n (fieldValue g) (fieldValue h) :=
  agree_orElse ((hg.initializer hn).of_read.map _)
    (leaves_skipToDeclaratorEnd.bind fun _ => .done)

theorem agree_fieldRest (hg : g.AgreesUpTo d h) (hn : n ≤ d) (mods : Modifiers) (type : TypeRef)
    (start : Nat) (name : Ident) :
    Agree n n (fieldRest g mods type start name) (fieldRest h mods type start name) := by
  refine leaves_dims.bind fun _ => (leaves_eat _).bind fun _ => ?_
  exact .ite_bind (agree_fieldValue hg hn) .done fun _ => leaves_ranged _ _

theorem agree_fieldsRest (hg : g.AgreesUpTo d h) (hn : n ≤ d) (mods : Modifiers) (type : TypeRef)
    (start : Nat) (name : Ident) :
    Agree n n (fieldsRest g mods type start name) (fieldsRest h mods type start name) := by
  have hfield := agree_fieldRest hg hn mods type start
  refine (hfield name).bind fun _ => (agree_many ?_).bind fun _ => ?_
  · refine (leaves_eat _).bind fun _ => .ite ?_ .done
    exact leaves_ident.pass fun _ => (hfield _).bind fun _ => .done
  · exact (leaves_expect _).pass fun _ => .done

theorem leaves_nextIsConstructor (typeName : String) : Leaves n n (nextIsConstructor typeName) :=
  (leaves_nextAre _ _).bind fun _ => .get_bind fun _ => .done

theorem agree_member (hg : g.AgreesUpTo d h) (hn : n ≤ d) (typeName : String) :
    Agree n (n - 1) (member g typeName) (member h typeName) := by
  refine .eat_bind .done (leaves_offset.bind fun start => ?_)
  refine (leaves_nextIs _).bind fun _ => (leaves_nextAre _ _).bind fun _ => .ite ?_ ?_
  · exact (leaves_eat _).bind fun _ => (agree_block hg hn).bind fun _ => leaves_ranged _ _
  · refine leaves_modifiers.bind fun mods => leaves_nextIsTypeDecl.bind fun _ => .ite ?_ ?_
    · exact (agree_typeDecl hg (by omega) mods start).bind fun _ => .done
    · refine leaves_typeArguments.bind fun _ => (leaves_nextIsConstructor typeName).bind fun _ => ?_
      refine .ite ?_ ?_
      · refine leaves_ident.bind fun name => ?_
        exact (agree_methodRest hg (by omega) mods none name start).bind fun _ => .done
      · refine leaves_typeRef.bind fun type => leaves_ident.pass fun name => ?_
        refine (leaves_nextIs _).bind fun _ => .ite ?_ ?_
        · exact (agree_methodRest hg (by omega) mods (some type) name start).bind fun _ => .done
        · exact agree_fieldsRest hg (by omega) mods type start name

theorem agree_stmt (hg : g.AgreesUpTo d h) (hn : n ≤ d) :
    Agree n (n - 1) (stmt g) (stmt h) := by
  have hplain := agree_plainStmt hg hn fun mods start => agree_typeDecl hg (by omega) mods start
  refine ⟨fun {c} hlt => .get_bind ?_⟩
  have hskip : ∀ {kind}, c.kind? = some kind → ∀ count,
      AgreeAt c (n - 1) (skip (count + 1)) (skip (count + 1)) :=
    fun hkind => .skip (Cursor.rest_ne_nil_of_kind? hkind) (by omega)
  split
  · exact .fail _
  · exact ((agree_block hg hn).bind fun _ => .done).at_cursor hlt
  next hkind => exact (hskip hkind 0).bind fun _ => .done
  next k hkind =>
    obtain ⟨hnone, hnone'⟩ | ⟨p, q, hsome, hsome', hagree⟩ :=
      agree_keywordStmt? (n := n - 1) hg (by omega) k
    · rw [hnone, hnone']
      exact hplain.at_cursor hlt
    · rw [hsome, hsome']
      exact (hskip hkind 0).bind fun _ => hagree
  next kind hkind =>
    refine .ite (fun _ => ?_) fun _ => .ite (fun _ => ?_) fun _ => hplain.at_cursor hlt
    · exact (hskip hkind 1).bind fun _ => (hg.stmt (by omega)).of_read
    · refine (hskip hkind 0).bind fun _ => (agree_parenExpr hg (by omega)).pass fun _ => ?_
      exact (agree_block hg (by omega)).pass fun _ => .done

/-! ## Depths -/

/-- **One level** of the grammar reads from one token further. -/
theorem Grammar.AgreesUpTo.step (hg : g.AgreesUpTo d h) : g.step.AgreesUpTo (d + 1) h.step where
  expr := agree_expr hg
  conditional := agree_conditional hg
  binary := fun least _ hn => agree_binary hg least hn
  unary := agree_unary hg
  initializer := agree_initializer hg
  stmt := agree_stmt hg
  member := fun typeName _ hn => agree_member hg hn typeName

theorem Grammar.AgreesUpTo.mono {d' : Nat} (hg : g.AgreesUpTo d h) (hle : d' ≤ d) :
    g.AgreesUpTo d' h where
  expr hn := hg.expr (Nat.le_trans hn hle)
  conditional hn := hg.conditional (Nat.le_trans hn hle)
  binary least _ hn := hg.binary least (Nat.le_trans hn hle)
  unary hn := hg.unary (Nat.le_trans hn hle)
  initializer hn := hg.initializer (Nat.le_trans hn hle)
  stmt hn := hg.stmt (Nat.le_trans hn (Nat.sub_le_sub_right hle 1))
  member typeName _ hn := hg.member typeName (Nat.le_trans hn (Nat.sub_le_sub_right hle 1))

/-- Nothing is read where no tokens are left. -/
theorem Grammar.agreesUpTo_zero (g h : Grammar) : g.AgreesUpTo 0 h := by
  have hnothing : ∀ {α : Type} {n : Nat} {p q : Parser α}, n ≤ 0 → Agree n (n - 1) p q :=
    fun hn => ⟨fun hlt => absurd (Nat.lt_of_lt_of_le hlt hn) (Nat.not_lt_zero _)⟩
  exact ⟨hnothing, hnothing, fun _ => hnothing, hnothing, hnothing, hnothing, fun _ => hnothing⟩

/-- A grammar that is deeper agrees with one that is not as far as that one goes. -/
theorem Grammar.agreesUpTo_ofDepth {e : Nat} (hle : d ≤ e) :
    (Grammar.ofDepth d).AgreesUpTo d (.ofDepth e) := by
  induction d generalizing e with
  | zero => exact agreesUpTo_zero _ _
  | succ d ih =>
    obtain ⟨e, rfl⟩ : ∃ e', e = e' + 1 := ⟨e - 1, by omega⟩
    exact (ih (Nat.le_of_succ_le_succ hle)).step

/-- **The grammar of texts of any depth**: every reader goes as deep as the tokens that are left can
nest. -/
def Grammar.unbounded : Grammar where
  expr c := (ofDepth (c.rest.length + 1)).expr c
  conditional c := (ofDepth (c.rest.length + 1)).conditional c
  binary least c := (ofDepth (c.rest.length + 1)).binary least c
  unary c := (ofDepth (c.rest.length + 1)).unary c
  initializer c := (ofDepth (c.rest.length + 1)).initializer c
  stmt c := (ofDepth (c.rest.length + 2)).stmt c
  member typeName c := (ofDepth (c.rest.length + 2)).member typeName c

/-- A reader that does at every cursor what some reader does which agrees that far. -/
theorem agree_of_cursor {p q : Parser α} (h : ∀ c : Cursor, c.rest.length < n →
    ∃ r, Agree (c.rest.length + 1) c.rest.length r p ∧ q c = r c) : Agree n (n - 1) p q := by
  refine ⟨fun {c} hlt => ?_⟩
  obtain ⟨r, hagree, hrun⟩ := h c hlt
  have hat := hagree.at_cursor (Nat.lt_succ_self _)
  refine ⟨hat.run_eq.symm.trans hrun.symm, fun {_ next} hok => ?_,
    fun hok => hat.onward (hat.run_eq.trans hok)⟩
  have hless : next.rest.length < c.rest.length := hat.lt_of_ok (hat.run_eq.trans hok)
  omega

/-- **Every depth is enough** as far as it goes. -/
theorem Grammar.agreesUpTo_unbounded (d : Nat) : (ofDepth d).AgreesUpTo d unbounded where
  expr hn := agree_of_cursor fun _ hlt =>
    ⟨_, (agreesUpTo_ofDepth (by omega)).expr (Nat.le_refl _), rfl⟩
  conditional hn := agree_of_cursor fun _ hlt =>
    ⟨_, (agreesUpTo_ofDepth (by omega)).conditional (Nat.le_refl _), rfl⟩
  binary least _ hn := agree_of_cursor fun _ hlt =>
    ⟨_, (agreesUpTo_ofDepth (by omega)).binary least (Nat.le_refl _), rfl⟩
  unary hn := agree_of_cursor fun _ hlt =>
    ⟨_, (agreesUpTo_ofDepth (by omega)).unary (Nat.le_refl _), rfl⟩
  initializer hn := agree_of_cursor fun _ hlt =>
    ⟨_, (agreesUpTo_ofDepth (by omega)).initializer (Nat.le_refl _), rfl⟩
  stmt hn := agree_of_cursor fun c hlt =>
    ⟨_, (agreesUpTo_ofDepth (d := c.rest.length + 2) (by omega)).stmt (Nat.le_refl _), rfl⟩
  member typeName _ hn := agree_of_cursor fun c hlt =>
    ⟨_, (agreesUpTo_ofDepth (d := c.rest.length + 2) (by omega)).member typeName (Nat.le_refl _),
      rfl⟩

/-- Two readers are one if other readers agree with both of them as far as one likes. -/
theorem eq_of_agree {p q : Parser α}
    (h : ∀ n, ∃ r, Agree n (n - 1) r p ∧ Agree n (n - 1) r q) : p = q := by
  funext c
  obtain ⟨r, hp, hq⟩ := h (c.rest.length + 1)
  have hlt := Nat.lt_succ_self c.rest.length
  exact (hp.at_cursor hlt).run_eq.symm.trans (hq.at_cursor hlt).run_eq

/-- Two grammars are one if every depth agrees with both of them as far as it goes. -/
theorem Grammar.eq_of_agreesUpTo (hg : ∀ d, (ofDepth d).AgreesUpTo d g)
    (hh : ∀ d, (ofDepth d).AgreesUpTo d h) : g = h := by
  refine (Grammar.mk.injEq ..).mpr ⟨?_, ?_, ?_, ?_, ?_, ?_, ?_⟩
  · exact eq_of_agree fun n => ⟨_, (hg n).expr (by omega), (hh n).expr (by omega)⟩
  · exact eq_of_agree fun n =>
      ⟨_, (hg n).conditional (by omega), (hh n).conditional (by omega)⟩
  · funext least
    exact eq_of_agree fun n =>
      ⟨_, (hg n).binary least (by omega), (hh n).binary least (by omega)⟩
  · exact eq_of_agree fun n => ⟨_, (hg n).unary (by omega), (hh n).unary (by omega)⟩
  · exact eq_of_agree fun n => ⟨_, (hg n).initializer (by omega), (hh n).initializer (by omega)⟩
  · exact eq_of_agree fun n => ⟨_, (hg (n + 1)).stmt (by omega), (hh (n + 1)).stmt (by omega)⟩
  · funext typeName
    exact eq_of_agree fun n =>
      ⟨_, (hg (n + 1)).member typeName (by omega), (hh (n + 1)).member typeName (by omega)⟩

/-- **The grammar of any depth is its own next level**, so that its readers use each other. -/
theorem Grammar.step_unbounded : unbounded.step = unbounded := by
  refine eq_of_agreesUpTo (fun d => ?_) agreesUpTo_unbounded
  cases d with
  | zero => exact agreesUpTo_zero _ _
  | succ d => exact (agreesUpTo_unbounded d).step

/-- **No other grammar** is its own next level, since a reader that goes further inside has read a
token before. -/
theorem Grammar.step_eq_self_iff : g.step = g ↔ g = unbounded := by
  constructor
  · intro hg
    refine eq_of_agreesUpTo (fun d => ?_) agreesUpTo_unbounded
    induction d with
    | zero => exact agreesUpTo_zero _ _
    | succ d ih => exact hg ▸ ih.step
  · rintro rfl
    exact step_unbounded

theorem member_unbounded (typeName : String) :
    Grammar.unbounded.member typeName = member .unbounded typeName :=
  (congrArg (Grammar.member · typeName) Grammar.step_unbounded).symm

theorem leaves_member_unbounded (typeName : String) :
    Leaves n (n - 1) (Grammar.unbounded.member typeName) :=
  ((Grammar.agreesUpTo_unbounded (n + 1)).member typeName (Nat.le_refl _)).right

/-! ## Units -/

theorem leaves_packageDecl? : Leaves n n packageDecl? := by
  refine ⟨fun {c} hlt => .get_bind ?_⟩
  refine (leaves_modifiers.at_cursor hlt).bind_from fun _ mid hmid hless => ?_
  refine ((leaves_eat _).at_cursor hless).bind_from fun _ mid' hmid' hless' => ?_
  refine .ite (fun _ => ?_) fun _ => .set_bind (Agree.done.at_cursor hlt)
  refine Agree.at_cursor ?_ hless' |>.of_onward (hmid.trans hmid')
  refine leaves_offset.bind fun _ => leaves_qualifiedName.pass fun _ => ?_
  exact (leaves_rangeFrom _).bind fun _ => (leaves_expect _).pass fun _ => .done

theorem leaves_importDecl? : Leaves n n importDecl? := by
  refine (leaves_eat _).bind fun _ => .ite ?_ .done
  refine (leaves_eat _).bind fun _ => leaves_offset.bind fun _ => ?_
  refine leaves_qualifiedName.pass fun _ => (leaves_nextAre _ _).bind fun _ => ?_
  refine .ite ((leaves_skip 2).bind fun _ => ?_) ?_ <;>
  · exact (leaves_rangeFrom _).bind fun _ => (leaves_expect _).pass fun _ => .done

theorem agree_topLevel? (hg : g.AgreesUpTo d h) (hn : n ≤ d + 1) :
    Agree n n (topLevel? g) (topLevel? h) := by
  refine .get_bind fun _ => .ite .done ?_
  refine (leaves_eat _).bind fun _ => .ite .done ?_
  refine leaves_offset.bind fun start => leaves_modifiers.bind fun mods => ?_
  exact (agree_typeDecl hg hn mods start).pass fun _ => .done

theorem agree_compilationUnit (hg : g.AgreesUpTo d h) (hn : n ≤ d + 1) :
    Agree n n (compilationUnit g) (compilationUnit h) :=
  leaves_packageDecl?.bind fun _ => (agree_many leaves_importDecl?).bind fun _ =>
    (agree_many (agree_topLevel? hg hn)).bind fun _ => .done

end SourceSearch.Parser

namespace SourceSearch

/-- **The depth that a text is read with is enough**: its tree is what the grammar of any depth
reads. -/
theorem parse_eq_unbounded {text : String} {tokens : List Token}
    (htokens : tokenize text = .ok tokens) :
    parse text = (Parser.compilationUnit .unbounded).run' ⟨tokens, 0, text.utf8ByteSize⟩ := by
  have hagree := Parser.agree_compilationUnit
    (Parser.Grammar.agreesUpTo_unbounded (tokens.length + 1)) (Nat.le_refl (tokens.length + 2))
  have hlt : tokens.length < tokens.length + 2 := by omega
  have hrun := (hagree.at_cursor (c := ⟨tokens, 0, text.utf8ByteSize⟩) hlt).run_eq
  rw [parse, htokens]
  exact congrArg (Except.map Prod.fst) hrun

end SourceSearch
