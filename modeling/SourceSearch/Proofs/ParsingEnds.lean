import SourceSearch.Proofs.ArrayCreations
import SourceSearch.Proofs.OperatorChains

/-!
# Parsing ends

The readers call each other and loop without a bound on the depth of a text or on the number of
rounds. That this comes to an end is told by the equations that the readers and the loops are to
satisfy: a reading that went on for ever could be given any answer by them. Here the equations leave
no choice. One grammar only is its own next level (`Parser.Grammar.step_eq_self_iff`), and one
reader only is a round of a loop and itself again (`Parser.Advances.eq_again_iff`,
`Parser.eq_onceMore_iff`).

Both rest on what is read. A reader of the grammar that succeeds has gone past a token at least, and
past none behind the end (`Parser.ReadsTokens`), and so has every round of a loop that answers
something (`Parser.IsRound.advances`, `Parser.IsTurn.advances`).
-/

set_option autoImplicit false

namespace SourceSearch

/-! ## Tokens that were looked at -/

namespace Cursor

variable {c : Cursor}

theorem lt_length_of_kindAt {n : Nat} {kind : TokenKind} (h : c.kindAt n = some kind) :
    n < c.rest.length := by
  obtain ⟨t, ht, -⟩ := Option.map_eq_some_iff.1 h
  exact (List.getElem?_eq_some_iff.1 ht).1

/-- To skip more tokens than there are is to skip all of them. -/
theorem exists_skip_eq (c : Cursor) (n : Nat) :
    ∃ count, count ≤ c.rest.length ∧ c.skip n = c.skip count := by
  induction n generalizing c with
  | zero => exact ⟨0, Nat.zero_le _, rfl⟩
  | succ n ih =>
    obtain ⟨count, hle, hskip⟩ := ih c.advance
    cases hrest : c.rest with
    | nil =>
      have hstays : c.advance = c := by rw [advance, hrest]
      rw [hstays, hrest] at hle
      rw [hstays] at hskip
      exact ⟨count, hle, (congrArg (Cursor.skip n) hstays).trans hskip⟩
    | cons t rest =>
      rw [advance_of_rest hrest] at hle
      exact ⟨count + 1, Nat.succ_le_succ hle, hskip⟩

/-- An operator between operands takes a token at least, and tokens that are there. -/
theorem width_of_operator? {operator : Operator} {level width : Nat}
    (h : c.operator? = some (operator, level, width)) : 0 < width ∧ width ≤ c.rest.length := by
  cases operator with
  | instanceOf =>
    obtain ⟨hkind, -, rfl⟩ := operator?_instanceOf h
    exact ⟨Nat.one_pos, List.length_pos_of_ne_nil (rest_ne_nil_of_kind? hkind)⟩
  | op op =>
    obtain ⟨-, rfl, hopens⟩ := operator?_op h
    refine ⟨by cases op <;> decide, ?_⟩
    have hlength := congrArg List.length hopens.opens.1
    rw [List.length_map, List.length_map, List.length_take] at hlength
    exact hlength ▸ Nat.min_le_right _ _

/-- The operator of an assignment takes tokens that are there. -/
theorem assignWidth_le (c : Cursor) : c.assignWidth ≤ c.rest.length := by
  unfold assignWidth
  split
  next width hshift =>
    unfold shiftAssignWidth? at hshift
    split at hshift
    · split at hshift
      next htwo =>
        cases hshift
        exact lt_length_of_kindAt (eq_of_beq htwo)
      · split at hshift
        next hthree =>
          cases hshift
          exact lt_length_of_kindAt (eq_of_beq (Bool.and_eq_true_iff.1 hthree).2)
        · cases hshift
    · cases hshift
  next hkind =>
    have hpos := List.length_pos_of_ne_nil (rest_ne_nil_of_kind? hkind)
    split
    case h_11 => exact Nat.zero_le _
    all_goals exact hpos
  · exact Nat.zero_le _

end Cursor

namespace Parser

variable {α : Type} {n : Nat} {g : Grammar}

open Grammar (unbounded)

/-! ## What is read -/

/-- A reader that succeeds goes past a token at least, and past no more tokens than there are. -/
def ReadsTokens (p : Parser α) : Prop :=
  ∀ {c next : Cursor} {a : α}, p c = .ok (a, next) →
    ∃ count, 0 < count ∧ count ≤ c.rest.length ∧ next = c.skip count

theorem readsTokens_of_leaves {p : Parser α} (h : ∀ n, Leaves n (n - 1) p) : ReadsTokens p := by
  intro c next a hok
  have hat := (h (c.rest.length + 1)).at_cursor (Nat.lt_succ_self _)
  obtain ⟨skipped, rfl⟩ := hat.onward hok
  obtain ⟨count, hle, hskip⟩ := c.exists_skip_eq skipped
  refine ⟨count, Nat.pos_of_ne_zero fun hzero => ?_, hle, hskip⟩
  have hless := hat.lt_of_ok hok
  rw [hskip, hzero] at hless
  exact Nat.lt_irrefl _ hless

/-! ## All readers and loops -/

/-- The readers of the recursive part that have to read something. -/
inductive IsProduction : {α : Type} → Parser α → Prop
  | member (typeName : String) : IsProduction (member unbounded typeName)
  | stmt : IsProduction (stmt unbounded)
  | block : IsProduction (block unbounded)
  | typeDecl (mods : Modifiers) (start : Nat) : IsProduction (typeDecl unbounded mods start)
  | typeRef : IsProduction typeRef
  | expr : IsProduction (expr unbounded)
  | conditional : IsProduction (conditional unbounded)
  | binary (least : Nat) : IsProduction (binary unbounded least)
  | unary : IsProduction (unary unbounded)
  | operand : IsProduction (operand unbounded)
  | primary : IsProduction (primary unbounded)

/-- **Every production reads a token** when it succeeds. -/
theorem IsProduction.readsTokens {p : Parser α} (h : IsProduction p) : ReadsTokens p := by
  have hself := Grammar.agreesUpTo_unbounded
  apply readsTokens_of_leaves
  intro n
  cases h with
  | member typeName => exact (agree_member (hself n) (Nat.le_refl _) typeName).right
  | stmt => exact (agree_stmt (hself n) (Nat.le_refl _)).right
  | block => exact (agree_block (hself n) (Nat.le_refl _)).right
  | typeDecl mods start => exact (agree_typeDecl (hself n) (Nat.le_succ _) mods start).right
  | typeRef => exact leaves_typeRef
  | expr => exact (agree_expr (hself n) (Nat.le_succ _)).right
  | conditional => exact (agree_conditional (hself n) (Nat.le_succ _)).right
  | binary least => exact (agree_binary (hself n) least (Nat.le_succ _)).right
  | unary => exact (agree_unary (hself n) (Nat.le_succ _)).right
  | operand => exact (agree_operand (hself n) (Nat.le_succ _)).right
  | primary => exact (agree_primary (hself n) (Nat.le_succ _)).right

/-- The items that stand behind separators. -/
inductive IsItem : {α : Type} → TokenKind → Parser α → Prop
  | typeName : IsItem Symbol.comma typeRef
  | alternative : IsItem Symbol.pipe typeRef
  | param : IsItem Symbol.comma param
  | lambdaParam : IsItem Symbol.comma lambdaParam
  | expr : IsItem Symbol.comma unbounded.expr
  | label : IsItem Symbol.comma unbounded.conditional
  | localVar (type : TypeRef) : IsItem Symbol.comma (localVar unbounded type)
  | field (mods : Modifiers) (type : TypeRef) (start : Nat) :
    IsItem Symbol.comma (ident >>= fieldRest unbounded mods type start)

theorem IsItem.leaves {separator : TokenKind} {item : Parser α} (h : IsItem separator item) :
    Leaves n n item := by
  have hself := Grammar.agreesUpTo_unbounded n
  cases h with
  | typeName => exact leaves_typeRef.of_read
  | alternative => exact leaves_typeRef.of_read
  | param => exact leaves_param.of_read
  | lambdaParam => exact leaves_lambdaParam.of_read
  | expr => exact Grammar.readsOn_unbounded.expr.of_read
  | label => exact (hself.conditional (Nat.le_refl _)).right.of_read
  | localVar type => exact (agree_localVar hself (Nat.le_refl _) type).right.of_read
  | field mods type start =>
    exact leaves_ident.pass fun name =>
      (agree_fieldRest hself (Nat.le_refl _) mods type start name).right

/-- The rounds of the loops that collect answers. -/
inductive IsRound : {α : Type} → Parser (Option α) → Prop
  | item {α : Type} {separator : TokenKind} {item : Parser α} :
    IsItem separator item → IsRound (itemAfter? separator item)
  | dottedName : IsRound dottedName?
  | emptyPair : IsRound emptyPair?
  | typeSegment : IsRound typeSegment?
  | annotation : IsRound annotation?
  | stmt : IsRound (untilClosed Symbol.rBrace "unterminated block" unbounded.stmt)
  | member (typeName : String) : IsRound (inBody (unbounded.member typeName))
  | arrayItem : IsRound (arrayItem? unbounded)
  | bracketPair : IsRound (bracketPair? unbounded)
  | constant (enumName : String) : IsRound (constant? unbounded enumName)
  | resource : IsRound (resource? unbounded)
  | catchClause : IsRound (catchClause? unbounded)
  | importDecl : IsRound importDecl?
  | topLevel : IsRound (topLevel? unbounded)

/-- **Every round that collects something reads a token.** -/
theorem IsRound.advances {p : Parser (Option α)} (h : IsRound p) : Advances p := by
  cases h with
  | item hitem => exact advances_itemAfter? fun _ => hitem.leaves
  | dottedName => exact advances_dottedName?
  | emptyPair => exact advances_emptyPair?
  | typeSegment => exact advances_typeSegment?
  | annotation => exact advances_annotation?
  | stmt => exact advances_untilClosed fun _ => Grammar.readsOn_unbounded.stmt
  | member typeName => exact advances_untilClosed fun _ => leaves_member_unbounded typeName
  | arrayItem => exact advances_arrayItem? Grammar.readsOn_unbounded
  | bracketPair => exact advances_bracketPair? fun _ => Grammar.readsOn_unbounded.expr
  | constant enumName => exact advances_constant? Grammar.readsOn_unbounded enumName
  | resource => exact advances_resource? Grammar.readsOn_unbounded
  | catchClause => exact advances_catchClause? Grammar.readsOn_unbounded
  | importDecl => exact advances_importDecl?
  | topLevel => exact advances_topLevel?

/-- The rounds of the loops that replace their answer. -/
inductive IsTurn : {α : Type} → (α → Parser (Option α)) → Prop
  | modifier : IsTurn modifier?
  | suffix (start : Nat) : IsTurn (suffix? unbounded start)
  | operatorTail (least start : Nat) : IsTurn (operatorTail? unbounded least start)
  | switchPart : IsTurn (switchPart? unbounded)

/-- **Every round that replaces something reads a token.** -/
theorem IsTurn.advances {step : α → Parser (Option α)} (h : IsTurn step) (a : α) :
    Advances (step a) := by
  cases h with
  | modifier => exact advances_modifier? a
  | suffix start => exact advances_suffix? Grammar.readsOn_unbounded start a
  | operatorTail least start => exact advances_operatorTail? Grammar.readsOn_unbounded least start a
  | switchPart => exact advances_switchPart? Grammar.readsOn_unbounded a

/-- To look for a local declaration moves nothing and does not fail. -/
theorem exists_nextIsLocalDecl_eq (c : Cursor) : ∃ found, nextIsLocalDecl c = .ok (found, c) := by
  unfold nextIsLocalDecl succeeds
  split
  · exact ⟨true, rfl⟩
  · exact ⟨false, rfl⟩

/-- Where there is no cast nothing is read. -/
theorem eq_of_castType?_eq_none {c d : Cursor} (h : castType? c = .ok (none, d)) : d = c := by
  obtain hrun | ⟨e, hrun⟩ | ⟨type, after, -, hrun⟩ := castType?_cases c
  · rw [hrun] at h
    cases h
    rfl
  · rw [hrun] at h
    cases h
  · rw [hrun] at h
    cases h

/-- **The reading of every text ends.** What the readers call themselves for, and what loops do
behind a round, is settled by their equations, which only the grammar and the loops satisfy that a
text is read with. This is since every reader of the grammar that succeeds goes past a token, and so
does every round of a loop that does not end it; no reader goes past the last token, since those
that it goes past are there; and to look for a local declaration or for a cast that is none moves
nothing. So a text has a tree or an error, which is that of its tokens or that of the reading. -/
theorem reading_ends :
    (∀ g : Grammar, g.step = g ↔ g = unbounded) ∧
    (∀ {α : Type} {p : Parser (Option α)}, IsRound p →
      Advances p ∧ ∀ loop, loop = again p loop ↔ loop = many p) ∧
    (∀ {α : Type} {step : α → Parser (Option α)}, IsTurn step →
      (∀ a, Advances (step a)) ∧ ∀ loop, loop = onceMore step loop ↔ loop = grow step) ∧
    (∀ {α : Type} {p : Parser α}, IsProduction p → ReadsTokens p) ∧
    (∀ c : Cursor, (∀ {n kind}, c.kindAt n = some kind → n < c.rest.length) ∧
      c.assignWidth ≤ c.rest.length ∧
      ∀ {operator level width}, c.operator? = some (operator, level, width) →
        0 < width ∧ width ≤ c.rest.length) ∧
    (∀ c, ∃ found, nextIsLocalDecl c = .ok (found, c)) ∧
    (∀ {c d}, castType? c = .ok (none, d) → d = c) ∧
    ∀ text,
      (∃ e, tokenize text = .error e ∧ parse text = .error ⟨"unexpected character", e.offset⟩) ∨
      ∃ tokens, tokenize text = .ok tokens ∧
        parse text = (compilationUnit unbounded).run' ⟨tokens, 0, text.utf8ByteSize⟩ := by
  refine ⟨fun g => Grammar.step_eq_self_iff, fun h => ?_, fun h => ?_, fun h => h.readsTokens,
    fun c => ?_, exists_nextIsLocalDecl_eq, eq_of_castType?_eq_none, fun text => ?_⟩
  · exact ⟨h.advances, fun loop => Advances.eq_again_iff h.advances⟩
  · exact ⟨h.advances, fun loop => eq_onceMore_iff h.advances⟩
  · exact ⟨Cursor.lt_length_of_kindAt, c.assignWidth_le, Cursor.width_of_operator?⟩
  · cases htokens : tokenize text with
    | error e => exact .inl ⟨e, rfl, by rw [parse, htokens]⟩
    | ok tokens => exact .inr ⟨tokens, rfl, parse_eq_unbounded htokens⟩

end Parser

end SourceSearch
