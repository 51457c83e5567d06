import SourceSearch.Proofs.Operators
import SourceSearch.Proofs.ReaderBounds

/-!
# What operators take

Operators bind operands, and an operand that is itself an operator stands in parentheses, which are
a node of their own. So what `unary` reads is neither an operator nor the test of a type
(`answers_unary`), whatever the readers further inside answer.

`Parser.Answers p P` says that whatever `p` reads satisfies `P`. As in the other rules about readers
there is one for every combinator, but of two readers in a row only the last one counts.
-/

set_option autoImplicit false

namespace SourceSearch

namespace Expr

/-- The level of the outermost operator or test of an expression. -/
def level? : Expr → Option Nat
  | ⟨.binary op _ _, _⟩ => some op.level
  | ⟨.instanceOf _ _, _⟩ => some 7
  | _ => none

/-- An expression is an operand of operators: it is none of them itself. -/
abbrev IsOperand (e : Expr) : Prop := e.level? = none

end Expr

namespace Parser

variable {α β : Type}

/-! ## Rules -/

/-- Whatever is read satisfies `P`. -/
structure Answers (p : Parser α) (P : α → Prop) : Prop where
  of_ok : ∀ {c d a}, p c = .ok (a, d) → P a

namespace Answers

variable {P : β → Prop}

theorem pure {b : β} (h : P b) : Answers (pure b) P := by
  refine ⟨fun hok => ?_⟩
  cases hok
  exact h

theorem fail (message : String) : Answers (fail message) P := ⟨nofun⟩

/-- What comes last answers. -/
theorem bind {p : Parser α} {f : α → Parser β} (h : ∀ a, Answers (f a) P) :
    Answers (p >>= f) P := by
  refine ⟨fun hok => ?_⟩
  obtain ⟨a, mid, -, hnext⟩ := of_bind_eq_ok hok
  exact (h a).of_ok hnext

theorem map {p : Parser α} {Q : α → Prop} {f : α → β} (h : Answers p Q)
    (hf : ∀ a, Q a → P (f a)) : Answers (f <$> p) P := by
  refine ⟨fun hok => ?_⟩
  rw [map_eq_pure_bind] at hok
  obtain ⟨a, mid, hfirst, hnext⟩ := of_bind_eq_ok hok
  cases hnext
  exact hf a (h.of_ok hfirst)

theorem ite {b : Prop} [Decidable b] {p q : Parser β} (hp : Answers p P) (hq : Answers q P) :
    Answers (if b then p else q) P := by
  split
  · exact hp
  · exact hq

/-- A loop answers what its last round has answered, or what it started with. -/
theorem growUpTo {step : β → Parser (Option β)}
    (h : ∀ b, Answers (step b) fun o => ∀ b' ∈ o, P b') (n : Nat) {b : β} (hb : P b) :
    Answers (growUpTo step n b) P := by
  induction n generalizing b with
  | zero => exact pure hb
  | succ n ih =>
    refine ⟨fun hok => ?_⟩
    obtain ⟨o, mid, hround, hrest⟩ := of_bind_eq_ok hok
    cases o with
    | none =>
      cases hrest
      exact hb
    | some b'' => exact (ih ((h b).of_ok hround b'' rfl)).of_ok hrest

end Answers

/-! ## Operands -/

variable {g : Grammar}

/-- An expression that is made of what was read before. -/
theorem answers_ranged {start : Nat} {kind : ExprKind}
    (h : ∀ range, Expr.IsOperand ⟨kind, range⟩) :
    Answers (do return (⟨kind, ← rangeFrom start⟩ : Expr)) Expr.IsOperand :=
  .bind fun _ => .pure (h _)

/-- A call if arguments come next, and something else if none do. -/
theorem answers_called {start : Nat} {called : List Expr → ExprKind} {kind : ExprKind}
    (hcalled : ∀ args range, Expr.IsOperand ⟨called args, range⟩)
    (h : ∀ range, Expr.IsOperand ⟨kind, range⟩) :
    Answers (do
        if ← nextIs Symbol.lParen then
          let args ← arguments g
          return (⟨called args, ← rangeFrom start⟩ : Expr)
        else return ⟨kind, ← rangeFrom start⟩) Expr.IsOperand :=
  .bind fun _ => .ite (.bind fun _ => answers_ranged (hcalled _)) (answers_ranged h)

theorem answers_creation (start : Nat) : Answers (creation g start) Expr.IsOperand := by
  refine .bind fun _ => .bind fun _ => .ite ?_ ?_ <;>
  refine .bind fun _ => .bind fun _ => .ite ?_ ?_ <;>
  exact .bind fun _ => answers_ranged fun _ => rfl

theorem answers_primary : Answers (primary g) Expr.IsOperand := by
  refine .bind fun start => .bind fun c => ?_
  -- an expression of one token
  have hleaf : ∀ {kind : ExprKind}, (∀ range, Expr.IsOperand ⟨kind, range⟩) →
      Answers (do skip 1; return (⟨kind, ← rangeFrom start⟩ : Expr)) Expr.IsOperand :=
    fun h => .bind fun _ => answers_ranged h
  split
  · exact .fail _
  · split
    · exact hleaf fun _ => rfl
    · exact hleaf fun _ => rfl
    · exact hleaf fun _ => rfl
    · exact hleaf fun _ => rfl
    · exact hleaf fun _ => rfl
    · exact hleaf fun _ => rfl
    · exact .bind fun _ => answers_called (fun _ _ => rfl) fun _ => rfl
    · exact .bind fun _ => answers_called (fun _ _ => rfl) fun _ => rfl
    · exact .bind fun _ => .bind fun _ => .bind fun _ => answers_ranged fun _ => rfl
    · exact .bind fun _ => answers_creation _
    · exact .bind fun _ => answers_called (fun _ _ => rfl) fun _ => rfl
    · exact .bind fun _ => .bind fun _ => .bind fun _ => answers_ranged fun _ => rfl
    · exact .fail _

theorem answers_selection (start : Nat) (target : Expr) :
    Answers (selection g start target) Expr.IsOperand := by
  refine .bind fun c => ?_
  split
  · exact .bind fun _ => .bind fun _ => .bind fun _ => answers_ranged fun _ => rfl
  · exact .bind fun _ => answers_called (fun _ _ => rfl) fun _ => rfl
  · refine .bind fun _ => ?_
    split
    · exact answers_ranged fun _ => rfl
    · exact .fail _
  · exact .bind fun _ => answers_ranged fun _ => rfl
  · exact answers_primary
  · exact .fail _

theorem answers_suffix? (start : Nat) (e : Expr) :
    Answers (suffix? g start e) fun o => ∀ e' ∈ o, e'.IsOperand := by
  have hranged : ∀ {kind : ExprKind}, (∀ range, Expr.IsOperand ⟨kind, range⟩) →
      Answers (do return some (⟨kind, ← rangeFrom start⟩ : Expr))
        fun o => ∀ e' ∈ o, e'.IsOperand := by
    refine fun h => .bind fun range => .pure ?_
    rintro _ ⟨⟩
    exact h range
  refine .bind fun c => ?_
  split
  · refine .bind fun _ => (answers_selection start e).map ?_
    rintro e he _ ⟨⟩
    exact he
  · exact .bind fun _ => .bind fun _ => .bind fun _ => hranged fun _ => rfl
  · exact .bind fun _ => hranged fun _ => rfl
  · exact .bind fun _ => hranged fun _ => rfl
  · refine .bind fun _ => .bind fun _ => .bind fun _ => ?_
    split
    · exact .bind fun _ => hranged fun _ => rfl
    · exact .bind fun _ => hranged fun _ => rfl
  · exact .pure nofun

theorem answers_operand : Answers (operand g) Expr.IsOperand := by
  refine .bind fun start => ⟨fun hok => ?_⟩
  obtain ⟨e, mid, hprimary, hgrow⟩ := of_bind_eq_ok hok
  exact (Answers.growUpTo (answers_suffix? start) _ (answers_primary.of_ok hprimary)).of_ok hgrow

/-- **What `unary` reads** is an operand of the operators around it. -/
theorem answers_unary : Answers (unary g) Expr.IsOperand := by
  refine .bind fun start => .bind fun c => ?_
  split
  · exact .bind fun _ => .bind fun _ => answers_ranged fun _ => rfl
  · refine .bind fun _ => .ite (.bind fun o => ?_) answers_operand
    split
    · refine .bind fun _ => .ite ?_ ?_ <;> exact .bind fun _ => answers_ranged fun _ => rfl
    · exact answers_operand

end Parser

end SourceSearch
