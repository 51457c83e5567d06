import Mathlib.Data.List.Chain
import SourceSearch.Parser.Expressions

/-!
# Operators at a cursor

`Cursor.operator?` answers the operator that comes next with its level and its number of tokens. An
operator is made of the tokens of its symbols (`BinaryOp.symbols`), of which each ends where the
next one starts, so that several operators may open with the same token. The one that is answered is
the longest of these, and it is not the start of a shifting assignment (`operator?_op`). When none
is answered there is none, or it starts such an assignment (`operator?_none`).
-/

set_option autoImplicit false

namespace SourceSearch

/-! ## Spelling -/

/-- The level of an operator between two operands. -/
def BinaryOp.level : BinaryOp → Nat
  | .or => 1
  | .and => 2
  | .bitOr => 3
  | .bitXor => 4
  | .bitAnd => 5
  | .eq | .notEq => 6
  | .lt | .gt | .ltEq | .gtEq => 7
  | .shl | .shr | .ushr => 8
  | .add | .sub => 9
  | .mul | .div | .rem => 10

/-- The symbols of an operator, one for each of its tokens. -/
def BinaryOp.symbols : BinaryOp → List Symbol
  | .or => [.orOr]
  | .and => [.andAnd]
  | .bitOr => [.pipe]
  | .bitXor => [.caret]
  | .bitAnd => [.amp]
  | .eq => [.eqEq]
  | .notEq => [.notEq]
  | .lt => [.lt]
  | .gt => [.gt]
  | .ltEq => [.ltEq]
  | .gtEq => [.gtEq]
  | .shl => [.shl]
  | .shr => [.gt, .gt]
  | .ushr => [.gt, .gt, .gt]
  | .add => [.plus]
  | .sub => [.minus]
  | .mul => [.star]
  | .div => [.slash]
  | .rem => [.percent]

/-- The tokens are those of the symbols, and each ends where the next one starts. -/
def SpelledTogether (symbols : List Symbol) (tokens : List Token) : Prop :=
  tokens.map (·.kind) = symbols.map .symbol ∧
    tokens.IsChain fun t t' => t.range.stop = t'.range.start

/-- The tokens start with those of the symbols, each of which ends where the next one starts. -/
def OpensWith (symbols : List Symbol) (tokens : List Token) : Prop :=
  SpelledTogether symbols (tokens.take symbols.length)

/-- The tokens start with `>>=` or `>>>=`. -/
def OpensShiftAssign (tokens : List Token) : Prop :=
  OpensWith [.gt, .gtEq] tokens ∨ OpensWith [.gt, .gt, .gtEq] tokens

/-- The tokens start with those of the operator and with those of no longer one, and with no
shifting assignment. -/
structure BinaryOp.Opens (op : BinaryOp) (tokens : List Token) : Prop where
  opens : OpensWith op.symbols tokens
  longest : ∀ other : BinaryOp, OpensWith other.symbols tokens →
    other.symbols.length ≤ op.symbols.length
  not_assign : ¬ OpensShiftAssign tokens

section OpensWith

variable {c : Cursor} {s s' s'' : Symbol}

theorem opensWith_one : OpensWith [s] c.rest ↔ c.kind? = some (.symbol s) := by
  unfold OpensWith SpelledTogether Cursor.kind?
  rcases c.rest with _ | ⟨t, ts⟩ <;> simp

theorem opensWith_two :
    OpensWith [s, s'] c.rest ↔ c.kind? = some (.symbol s) ∧ c.kindAt 1 = some (.symbol s') ∧
      c.adjacent 0 = true := by
  unfold OpensWith SpelledTogether Cursor.kind? Cursor.kindAt Cursor.adjacent
  rcases c.rest with _ | ⟨t, _ | ⟨t', ts⟩⟩ <;> simp [and_assoc]

theorem opensWith_three :
    OpensWith [s, s', s''] c.rest ↔ c.kind? = some (.symbol s) ∧ c.kindAt 1 = some (.symbol s') ∧
      c.kindAt 2 = some (.symbol s'') ∧ c.adjacent 0 = true ∧ c.adjacent 1 = true := by
  unfold OpensWith SpelledTogether Cursor.kind? Cursor.kindAt Cursor.adjacent
  rcases c.rest with _ | ⟨t, _ | ⟨t', _ | ⟨t'', ts⟩⟩⟩ <;> simp [and_assoc]

end OpensWith

theorem isSome_shiftAssignWidth?_iff {c : Cursor} :
    c.shiftAssignWidth?.isSome = true ↔ OpensShiftAssign c.rest := by
  unfold OpensShiftAssign Cursor.shiftAssignWidth? Cursor.nextIs
  rw [opensWith_two, opensWith_three]
  grind

/-- A shifting assignment opens with a closing angle bracket. -/
theorem kind?_of_opensShiftAssign {c : Cursor} (h : OpensShiftAssign c.rest) :
    c.kind? = some (.symbol .gt) := by
  rcases h with h | h
  · exact (opensWith_two.1 h).1
  · exact (opensWith_three.1 h).1

/-! ## Lengths -/

namespace BinaryOp

variable {op : BinaryOp} {c : Cursor}

theorem kind?_of_opensWith (h : OpensWith op.symbols c.rest) :
    c.kind? = op.symbols.head?.map .symbol := by
  cases op <;> simp_all [symbols, opensWith_one, opensWith_two, opensWith_three]

theorem length_symbols_le_one (h : OpensWith op.symbols c.rest)
    (hshift : ¬ OpensWith [.gt, .gt] c.rest) : op.symbols.length ≤ 1 := by
  cases op <;> simp_all [symbols, opensWith_two, opensWith_three]

theorem length_symbols_le_two (h : OpensWith op.symbols c.rest)
    (hshift : ¬ OpensWith [.gt, .gt, .gt] c.rest) : op.symbols.length ≤ 2 := by
  cases op <;> simp_all [symbols]

theorem length_symbols_le_three (op : BinaryOp) : op.symbols.length ≤ 3 := by
  cases op <;> decide

/-- An operator of one symbol that is no closing angle bracket is the longest that opens there. -/
theorem opens_of_symbol {s : Symbol} (hkind : c.kind? = some (.symbol s)) (hs : s ≠ .gt)
    (hassign : ¬ OpensShiftAssign c.rest) (h : op.symbols = [s]) : op.Opens c.rest := by
  refine ⟨by rwa [h, opensWith_one], fun other hother => ?_, hassign⟩
  rw [h]
  refine length_symbols_le_one hother fun hshift => hs ?_
  simpa [hkind] using (opensWith_two.1 hshift).1

end BinaryOp

/-! ## What is answered -/

section Answers

variable {c : Cursor} {level width : Nat}

/-- **The operator that is answered** is the longest that opens there, with its level and the number
of its tokens. -/
theorem operator?_op {op : BinaryOp} (h : c.operator? = some (.op op, level, width)) :
    level = op.level ∧ width = op.symbols.length ∧ op.Opens c.rest := by
  unfold Cursor.operator? at h
  split at h
  · cases h
  next hassign =>
  rw [isSome_shiftAssignWidth?_iff] at hassign
  split at h
  · cases h
  next s hkind =>
    split at h
    case h_8 =>
      -- a closing angle bracket is an operator, or the first token of one
      simp only [Bool.and_eq_true, beq_iff_eq] at h
      split at h
      next htwo =>
        have hshift := opensWith_two.2 ⟨hkind, htwo.1, htwo.2⟩
        split at h
        next hthree =>
          cases h
          have hopens := opensWith_three.2 ⟨hkind, htwo.1, hthree.1, htwo.2, hthree.2⟩
          exact ⟨rfl, rfl, hopens, fun other _ => other.length_symbols_le_three, hassign⟩
        next hthree =>
          cases h
          refine ⟨rfl, rfl, hshift, fun other hother => ?_, hassign⟩
          refine BinaryOp.length_symbols_le_two hother fun hushr => hthree ?_
          obtain ⟨-, -, hkind', -, hadjacent⟩ := opensWith_three.1 hushr
          exact ⟨hkind', hadjacent⟩
      next htwo =>
        cases h
        refine ⟨rfl, rfl, opensWith_one.2 hkind, fun other hother => ?_, hassign⟩
        refine BinaryOp.length_symbols_le_one hother fun hshift => htwo ?_
        exact (opensWith_two.1 hshift).2
    all_goals cases h
    all_goals exact ⟨rfl, rfl, BinaryOp.opens_of_symbol hkind nofun hassign rfl⟩
  · cases h

theorem operator?_instanceOf (h : c.operator? = some (.instanceOf, level, width)) :
    c.kind? = some (.keyword .instanceofKw) ∧ level = 7 ∧ width = 1 := by
  unfold Cursor.operator? at h
  split at h
  · cases h
  split at h
  next hkind =>
    cases h
    exact ⟨hkind, rfl, rfl⟩
  next =>
    split at h
    case h_8 => split at h <;> (try split at h) <;> cases h
    all_goals cases h
  · cases h

/-- **When no operator is answered** none opens there, but for those that a shifting assignment
starts with. -/
theorem operator?_none (h : c.operator? = none) :
    c.kind? ≠ some (.keyword .instanceofKw) ∧
      ∀ op : BinaryOp, OpensWith op.symbols c.rest → OpensShiftAssign c.rest := by
  unfold Cursor.operator? at h
  split at h
  next hassign =>
    rw [isSome_shiftAssignWidth?_iff] at hassign
    refine ⟨?_, fun _ _ => hassign⟩
    rw [kind?_of_opensShiftAssign hassign]
    simp
  next =>
    constructor
    · intro hkind
      simp [hkind] at h
    · intro op hop
      rw [BinaryOp.kind?_of_opensWith hop] at h
      cases op <;> simp [BinaryOp.symbols] at h <;> grind

end Answers

end SourceSearch
