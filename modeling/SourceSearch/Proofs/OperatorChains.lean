import SourceSearch.Proofs.Operands
import SourceSearch.Proofs.QualifiedThis

/-!
# Chains of operators

`binary` climbs: it reads an operand and, as long as an operator of the least level or above comes
next, the operator and what is right of it, which it reads by itself at the next higher level. The
tree that it answers says what was read. From left to right it has the operands, operators and tests
that stand in the text (`SpelledUpTo`), and they are grouped by their levels (`Expr.Grouped`).

What a round keeps is `Climbed`: besides these two, an operator that comes next is of no higher
level than the one that was read last, so that it may take what was read so far as its left operand
(`Climbed.step`). A loop keeps what its rounds keep (`grow_keeps`), and the right operands are read
from fewer tokens (`binary_reads`).
-/

set_option autoImplicit false

namespace SourceSearch

/-! ## Reading from left to right -/

/-- What an expression is made of from left to right, where it is in no parentheses. -/
inductive ChainPart
  | operand (e : Expr)
  | operator (op : BinaryOp)
  | instanceOf (type : TypeRef)

namespace Expr

/-- The parts of an expression from left to right. -/
def inOrder : Expr → List ChainPart
  | ⟨.binary op lhs rhs, _⟩ => lhs.inOrder ++ .operator op :: rhs.inOrder
  | ⟨.instanceOf e type, _⟩ => e.inOrder ++ [.instanceOf type]
  | e => [.operand e]

/-- The operator of an expression between two operands. -/
def binaryOp? : Expr → Option BinaryOp
  | ⟨.binary op _ _, _⟩ => some op
  | _ => none

/-- No right operand is an operator or a test of the same level or a lower one, and no left one is
an operator of a lower level. -/
def Grouped : Expr → Prop
  | ⟨.binary op lhs rhs, _⟩ =>
    lhs.Grouped ∧ rhs.Grouped ∧ (∀ left ∈ lhs.binaryOp?, op.level ≤ left.level) ∧
      ∀ level ∈ rhs.level?, op.level < level
  | ⟨.instanceOf e _, _⟩ => e.Grouped ∧ ∀ left ∈ e.binaryOp?, 7 ≤ left.level
  | _ => True

/-- An operand is the only part of itself, and nothing in it is grouped. -/
theorem IsOperand.parts {e : Expr} (h : e.IsOperand) :
    e.inOrder = [.operand e] ∧ e.Grouped ∧ e.binaryOp? = none := by
  obtain ⟨kind, range⟩ := e
  cases kind
  case binary => cases h
  case instanceOf => cases h
  all_goals simp [inOrder, Grouped, binaryOp?]

end Expr

namespace Parser

variable {α : Type} {g : Grammar} {c d : Cursor} {least start : Nat} {lhs e : Expr}

/-! ## One more operator -/

theorem binary_unbounded (least : Nat) : Grammar.unbounded.binary least = binary .unbounded least :=
  (congrArg (Grammar.binary · least) Grammar.step_unbounded).symm

/-- Every operator that comes next has a level below. -/
def OperatorsBelow (level : Nat) (c : Cursor) : Prop :=
  ∀ {operator level' width}, c.operator? = some (operator, level', width) → level' < level

/-- Where no operator of the level comes next nothing is read. -/
theorem operatorTail?_of_none (h : c.operator? = none) :
    operatorTail? g least start lhs c = .ok (none, c) := by
  rw [operatorTail?, get_bind_eq, h]
  rfl

theorem operatorTail?_of_lt {operator : Cursor.Operator} {level width : Nat}
    (h : c.operator? = some (operator, level, width)) (hlt : level < least) :
    operatorTail? g least start lhs c = .ok (none, c) := by
  rw [operatorTail?, get_bind_eq, h]
  exact congrFun (if_pos hlt) c

theorem operatorTail?_of_instanceOf (h : c.operator? = some (.instanceOf, 7, 1))
    (hle : least ≤ 7) :
    operatorTail? g least start lhs c = (do
      let type ← typeRef
      let _ ← eat .ident
      return some ⟨.instanceOf lhs type, ← rangeFrom start⟩ : Parser (Option Expr)) c.advance := by
  rw [operatorTail?, get_bind_eq, h]
  exact congrFun (if_neg (Nat.not_lt.2 hle)) c

theorem operatorTail?_of_op {op : BinaryOp} {level width : Nat}
    (h : c.operator? = some (.op op, level, width)) (hle : least ≤ level) :
    operatorTail? g least start lhs c = (do
      let rhs ← g.binary (level + 1)
      return some ⟨.binary op lhs rhs, ← rangeFrom start⟩ : Parser (Option Expr))
        (c.skip width) := by
  rw [operatorTail?, get_bind_eq, h]
  exact congrFun (if_neg (Nat.not_lt.2 hle)) c

/-- The ways to read one more operator: a test with its type, which a name may follow, or an
operator and what is right of it. -/
inductive TailRead (g : Grammar) (least : Nat) (lhs : Expr) (c : Cursor) : Expr → Cursor → Prop
  | instanceOf {type : TypeRef} {named : Bool} {mid d : Cursor} {range : TextRange} : least ≤ 7 →
      c.operator? = some (.instanceOf, 7, 1) → typeRef c.advance = .ok (type, mid) →
      eat .ident mid = .ok (named, d) → TailRead g least lhs c ⟨.instanceOf lhs type, range⟩ d
  | op {op : BinaryOp} {rhs : Expr} {d : Cursor} {range : TextRange} :
      least ≤ op.level → c.operator? = some (.op op, op.level, op.symbols.length) →
      op.Opens c.rest → g.binary (op.level + 1) (c.skip op.symbols.length) = .ok (rhs, d) →
      TailRead g least lhs c ⟨.binary op lhs rhs, range⟩ d

/-- **One more operator** is read, or none of the level comes next. -/
theorem of_operatorTail?_eq_ok {o : Option Expr}
    (h : operatorTail? g least start lhs c = .ok (o, d)) :
    (∃ e, o = some e ∧ TailRead g least lhs c e d) ∨
      o = none ∧ d = c ∧ OperatorsBelow least c := by
  cases hnext : c.operator? with
  | none =>
    rw [operatorTail?_of_none hnext] at h
    cases h
    exact .inr ⟨rfl, rfl, fun hsome => by cases hnext.symm.trans hsome⟩
  | some found =>
    obtain ⟨operator, level, width⟩ := found
    rcases Nat.lt_or_ge level least with hlt | hle
    · rw [operatorTail?_of_lt hnext hlt] at h
      cases h
      refine .inr ⟨rfl, rfl, fun hsome => ?_⟩
      cases hnext.symm.trans hsome
      exact hlt
    · cases operator with
      | instanceOf =>
        obtain ⟨-, rfl, rfl⟩ := operator?_instanceOf hnext
        rw [operatorTail?_of_instanceOf hnext hle] at h
        obtain ⟨type, mid, htype, h⟩ := of_bind_eq_ok h
        obtain ⟨named, mid', hname, h⟩ := of_bind_eq_ok h
        cases h
        exact .inl ⟨_, rfl, .instanceOf hle hnext htype hname⟩
      | op op =>
        obtain ⟨rfl, rfl, hopens⟩ := operator?_op hnext
        rw [operatorTail?_of_op hnext hle] at h
        obtain ⟨rhs, mid, hright, h⟩ := of_bind_eq_ok h
        cases h
        exact .inl ⟨_, rfl, .op hle hnext hopens hright⟩

/-! ## Tokens of a chain -/

/-- A token is read if it is of the kind that is asked for. -/
theorem exists_of_eat_eq_ok {kind : TokenKind} {found : Bool} (h : eat kind c = .ok (found, d)) :
    ∃ tokens, c.rest = tokens ++ d.rest ∧
      (tokens.map (·.kind) = [kind] ∨ tokens = [] ∧ d.rest.head?.map (·.kind) ≠ some kind) := by
  rw [eat_eq] at h
  cases hnext : c.nextIs kind with
  | true =>
    obtain ⟨text, range, rest, hrest⟩ := Cursor.exists_cons_of_kind? (eq_of_beq hnext)
    rw [hnext] at h
    cases h
    rw [Cursor.advance_of_rest hrest]
    exact ⟨[⟨kind, text, range⟩], hrest, .inl rfl⟩
  | false =>
    rw [hnext] at h
    cases h
    exact ⟨[], rfl, .inr ⟨rfl, beq_eq_false_iff_ne.1 hnext⟩⟩

/-- The tokens are read as `a` where they stand before `after`. -/
def ReadsAs (p : Parser α) (a : α) (tokens after : List Token) : Prop :=
  ∃ c d, p c = .ok (a, d) ∧ c.rest = tokens ++ after ∧ d.rest = after

/-- What goes onward reads the tokens that it goes past. -/
theorem exists_readsAs {p : Parser α} {a : α} (hok : p c = .ok (a, d)) (h : c.Onward d) :
    ∃ tokens, c.rest = tokens ++ d.rest ∧ ReadsAs p a tokens d.rest := by
  obtain ⟨tokens, htokens⟩ := h.exists_rest_eq
  exact ⟨tokens, htokens, c, d, hok, htokens, rfl⟩

end Parser

open SourceSearch.Parser in
/-- The tokens of a part of a chain, before `after`: what `unary` reads, an operator of adjacent
tokens, or `instanceof` with the type and the name that may follow. -/
def ChainPart.SpelledBy (tokens after : List Token) : ChainPart → Prop
  | .operand e => ReadsAs (unary .unbounded) e tokens after
  | .operator op => SpelledTogether op.symbols tokens ∧ op.Opens (tokens ++ after)
  | .instanceOf type => ∃ word written binding, tokens = word :: (written ++ binding) ∧
      word.kind = .keyword .instanceofKw ∧ ReadsAs typeRef type written (binding ++ after) ∧
      (binding.map (·.kind) = [.ident] ∨ binding = [] ∧ after.head?.map (·.kind) ≠ some .ident)

/-- The tokens of the parts of a chain one behind the other, before `after`. -/
def Spells : List ChainPart → List Token → List Token → Prop
  | [], tokens, _ => tokens = []
  | part :: parts, tokens, after => ∃ first others, tokens = first ++ others ∧
      part.SpelledBy first (others ++ after) ∧ Spells parts others after

theorem Spells.append {parts parts' : List ChainPart} {tokens tokens' after : List Token}
    (h : Spells parts tokens (tokens' ++ after)) (h' : Spells parts' tokens' after) :
    Spells (parts ++ parts') (tokens ++ tokens') after := by
  induction parts generalizing tokens with
  | nil =>
    obtain rfl : tokens = [] := h
    exact h'
  | cons part parts ih =>
    obtain ⟨first, others, rfl, hfirst, hothers⟩ := h
    refine ⟨first, others ++ tokens', List.append_assoc .., ?_, ih hothers⟩
    rwa [List.append_assoc]

theorem Spells.single {part : ChainPart} {tokens after : List Token}
    (h : part.SpelledBy tokens after) : Spells [part] tokens after :=
  ⟨tokens, [], (List.append_nil _).symm, h, rfl⟩

namespace Parser

variable {g : Grammar} {c d : Cursor} {least start : Nat} {lhs e : Expr}

/-- The tokens from `c` to `d` are those of the parts. -/
def SpelledUpTo (parts : List ChainPart) (c d : Cursor) : Prop :=
  ∃ tokens, c.rest = tokens ++ d.rest ∧ Spells parts tokens d.rest

namespace SpelledUpTo

variable {mid : Cursor}

theorem append {parts parts' : List ChainPart} (h : SpelledUpTo parts c mid)
    (h' : SpelledUpTo parts' mid d) : SpelledUpTo (parts ++ parts') c d := by
  obtain ⟨tokens, htokens, hspells⟩ := h
  obtain ⟨tokens', htokens', hspells'⟩ := h'
  refine ⟨tokens ++ tokens', ?_, .append ?_ hspells'⟩
  · rw [htokens, htokens', List.append_assoc]
  · rwa [htokens'] at hspells

theorem operand (hread : unary .unbounded c = .ok (e, d)) : SpelledUpTo [.operand e] c d := by
  have hat := (agree_unary (Grammar.agreesUpTo_unbounded c.rest.length) (Nat.le_refl _)).right
    |>.at_cursor (Nat.lt_succ_self _)
  obtain ⟨tokens, htokens, hreads⟩ := exists_readsAs hread (hat.onward hread)
  exact ⟨tokens, htokens, .single hreads⟩

/-- An operator is spelled by the tokens that are gone past. -/
theorem operator {op : BinaryOp} (h : op.Opens c.rest) :
    SpelledUpTo [.operator op] c (c.skip op.symbols.length) := by
  have hsplit : c.rest = c.rest.take op.symbols.length ++ (c.skip op.symbols.length).rest := by
    rw [Cursor.rest_skip, List.take_append_drop]
  refine ⟨c.rest.take op.symbols.length, hsplit, .single ⟨h.opens, ?_⟩⟩
  rwa [← hsplit]

/-- A test is spelled by its word, its type and the name that may follow. -/
theorem instanceOf {type : TypeRef} {named : Bool} (hword : c.operator? = some (.instanceOf, 7, 1))
    (htype : typeRef c.advance = .ok (type, mid)) (hname : eat .ident mid = .ok (named, d)) :
    SpelledUpTo [.instanceOf type] c d := by
  obtain ⟨text, range, rest, hrest⟩ := Cursor.exists_cons_of_kind? (operator?_instanceOf hword).1
  have hadvance : c.advance.rest = rest := by rw [Cursor.advance_of_rest hrest]
  have hat := leaves_typeRef.at_cursor (Nat.lt_succ_self c.advance.rest.length)
  obtain ⟨written, hwritten, hreads⟩ := exists_readsAs htype (hat.onward htype)
  obtain ⟨binding, hbinding, hkinds⟩ := exists_of_eat_eq_ok hname
  rw [hbinding] at hreads
  refine ⟨⟨Keyword.instanceofKw, text, range⟩ :: (written ++ binding), ?_, .single ?_⟩
  · rw [hrest, ← hadvance, hwritten, hbinding, List.cons_append, List.append_assoc]
  · exact ⟨_, written, binding, rfl, rfl, hreads, hkinds⟩

end SpelledUpTo

/-! ## Climbing -/

theorem length_skip_symbols_lt {op : BinaryOp} (h : op.Opens c.rest) :
    (c.skip op.symbols.length).rest.length < c.rest.length := by
  have hlength := congrArg List.length h.opens.1
  have hpos : 0 < op.symbols.length := by cases op <;> decide
  simp only [List.length_map, List.length_take] at hlength
  rw [Cursor.rest_skip, List.length_drop]
  omega

/-- The tokens from `c` to `d` are those of the expression, whose operators are of level `least` or
above and are grouped by their levels. -/
structure ReadsChain (least : Nat) (c : Cursor) (e : Expr) (d : Cursor) : Prop where
  spelled : SpelledUpTo e.inOrder c d
  grouped : e.Grouped
  least_le : ∀ level ∈ e.level?, least ≤ level

/-- What a chain has come to: an operator that comes next is of no higher level than the one that
was read last. -/
structure Climbed (least : Nat) (c : Cursor) (e : Expr) (d : Cursor) : Prop extends
    ReadsChain least c e d where
  below : ∀ op ∈ e.binaryOp?, OperatorsBelow (op.level + 1) d

/-- A chain starts with an operand. -/
theorem climbed_operand (hread : unary .unbounded c = .ok (e, d)) : Climbed least c e d := by
  have hoperand : e.IsOperand := answers_unary.of_ok hread
  obtain ⟨hparts, hgrouped, hop⟩ := hoperand.parts
  refine ⟨⟨?_, hgrouped, ?_⟩, ?_⟩
  · rw [hparts]
    exact .operand hread
  · rw [hoperand]
    nofun
  · rw [hop]
    nofun

/-- **One more operator** goes on with the chain, if what is read right of it is a chain. -/
theorem Climbed.step {mid : Cursor} (h : Climbed least c lhs mid)
    (hright : ∀ {level c' rhs d'}, c'.rest.length < mid.rest.length →
      g.binary level c' = .ok (rhs, d') → ReadsChain level c' rhs d' ∧ OperatorsBelow level d')
    (htail : TailRead g least lhs mid e d) : Climbed least c e d := by
  cases htail with
  | instanceOf hle hnext htype hname =>
    refine ⟨⟨h.spelled.append (.instanceOf hnext htype hname), ⟨h.grouped, ?_⟩, ?_⟩, nofun⟩
    · intro left hleft
      exact Nat.le_of_lt_succ (h.below left hleft hnext)
    · rintro _ ⟨⟩
      exact hle
  | @op op rhs _ _ hle hnext hopens hread =>
    have hlt : (mid.skip op.symbols.length).rest.length < mid.rest.length :=
      length_skip_symbols_lt hopens
    obtain ⟨hrhs, hstop⟩ := hright hlt hread
    refine ⟨⟨?_, ⟨h.grouped, hrhs.grouped, ?_, hrhs.least_le⟩, ?_⟩, ?_⟩
    · exact h.spelled.append (.append (.operator hopens) hrhs.spelled)
    · intro left hleft
      exact Nat.le_of_lt_succ (h.below left hleft hnext)
    · rintro _ ⟨⟩
      exact hle
    · rintro _ ⟨⟩
      exact hstop

/-- What is read with an operator takes a token at least. -/
theorem TailRead.length_lt (h : TailRead .unbounded least lhs c e d) :
    d.rest.length < c.rest.length := by
  cases h with
  | instanceOf hle hnext htype hname =>
    have hword := Cursor.rest_ne_nil_of_kind? (operator?_instanceOf hnext).1
    have hadvance := Cursor.length_advance_lt hword
    have htypeLt := (leaves_typeRef.at_cursor hadvance).lt_of_ok htype
    exact Nat.lt_of_lt_of_le ((leaves_eat _).at_cursor htypeLt |>.lt_of_ok hname) (Nat.sub_le _ _)
  | @op op _ _ _ hle hnext hopens hread =>
    have hself := Grammar.agreesUpTo_unbounded c.rest.length
    have hright := (hself.binary (op.level + 1) (Nat.le_refl _)).right.at_cursor
      (length_skip_symbols_lt hopens)
    exact Nat.lt_of_lt_of_le (hright.lt_of_ok hread) (Nat.sub_le _ _)

/-- **Operands with operators between them** are read as a chain, up to where no operator of the
level comes next. -/
theorem binary_reads (hok : binary .unbounded least c = .ok (e, d)) :
    ReadsChain least c e d ∧ OperatorsBelow least d := by
  -- the induction is on the tokens that are left, since right operands are read by `binary` again
  induction hn : c.rest.length using Nat.strong_induction_on generalizing least c e d with
  | h n ih =>
    subst hn
    obtain ⟨start, mid₀, hstart, hok⟩ := of_bind_eq_ok hok
    cases hstart
    obtain ⟨first, mid, hfirst, hok⟩ := of_bind_eq_ok hok
    have hmid : mid.rest.length < c.rest.length :=
      ((agree_unary (Grammar.agreesUpTo_unbounded c.rest.length) (Nat.le_refl _)).right
        |>.at_cursor (Nat.lt_succ_self _)).lt_of_ok hfirst
    have hstep : ∀ {lhs e : Expr} {mid next : Cursor},
        Climbed least c lhs mid ∧ mid.rest.length < c.rest.length →
        operatorTail? .unbounded least c.offset lhs mid = .ok (some e, next) →
        Climbed least c e next ∧ next.rest.length < c.rest.length := by
      rintro lhs e mid next ⟨hclimbed, hlt⟩ hround
      obtain ⟨_, hsome, htail⟩ | ⟨hnone, -⟩ := of_operatorTail?_eq_ok hround
      · cases hsome
        refine ⟨hclimbed.step (fun hlt' hread => ?_) htail, htail.length_lt.trans hlt⟩
        rw [binary_unbounded] at hread
        exact ih _ (hlt'.trans hlt) hread rfl
      · cases hnone
    obtain ⟨last, ⟨hclimbed, -⟩, hlast⟩ :=
      grow_keeps (advances_operatorTail? Grammar.readsOn_unbounded _ _) hstep ⟨climbed_operand hfirst, hmid⟩ hok
    obtain ⟨_, hsome, -⟩ | ⟨-, rfl, hstop⟩ := of_operatorTail?_eq_ok hlast
    · cases hsome
    · exact ⟨hclimbed.toReadsChain, hstop⟩

/-- **Operators are grouped by their levels.** Where `binary` succeeds, the tokens that it has read
are those of the tree from left to right: operands that `unary` reads, operators of adjacent tokens,
and tests of a type with the name that may follow. No right operand is itself an operator or a test
of the same level or a lower one, and no left operand is an operator of a lower level. The reading
stops where neither a test nor an operator opens but for one that starts a shifting assignment. -/
theorem chain_of_binary_eq_ok (h : binary .unbounded 0 c = .ok (e, d)) :
    (∃ consumed, c.rest = consumed ++ d.rest ∧ Spells e.inOrder consumed d.rest) ∧ e.Grouped ∧
      d.kind? ≠ some Keyword.instanceofKw ∧
      ∀ op : BinaryOp, OpensWith op.symbols d.rest → OpensShiftAssign d.rest := by
  obtain ⟨hchain, hbelow⟩ := binary_reads h
  refine ⟨hchain.spelled, hchain.grouped, operator?_none ?_⟩
  cases hnext : d.operator? with
  | none => rfl
  | some found => exact absurd (hbelow hnext) (Nat.not_lt_zero _)

/-- The tokens of `a-b*c>>d`. -/
def shiftedDifference : List Token :=
  [tokenAt .ident "a" 0, tokenAt Symbol.minus "-" 1, tokenAt .ident "b" 2,
    tokenAt Symbol.star "*" 3, tokenAt .ident "c" 4, tokenAt Symbol.gt ">" 5,
    tokenAt Symbol.gt ">" 6, tokenAt .ident "d" 7]

/-- The product is taken before the difference, and the difference before the shift. -/
theorem chain_shiftedDifference :
    tokenize "a-b*c>>d" = .ok shiftedDifference ∧
      ∃ e d, binary .unbounded 0 ⟨shiftedDifference, 0, 8⟩ = .ok (e, d) ∧ d.rest = [] ∧
        Spells e.inOrder shiftedDifference [] ∧ e.Grouped ∧ e.binaryOp? = some .shr := by
  obtain ⟨e, d, hok, hrest, hop⟩ : ∃ e d, binary .unbounded 0 ⟨shiftedDifference, 0, 8⟩ =
      .ok (e, d) ∧ d.rest = [] ∧ e.binaryOp? = some .shr := ⟨_, _, rfl, rfl, rfl⟩
  obtain ⟨⟨consumed, hconsumed, hspells⟩, hgrouped, -⟩ := chain_of_binary_eq_ok hok
  rw [hrest, List.append_nil] at hconsumed
  rw [hrest, ← hconsumed] at hspells
  exact ⟨by decide +kernel, e, d, hok, hrest, hspells, hgrouped, hop⟩

end Parser

end SourceSearch
