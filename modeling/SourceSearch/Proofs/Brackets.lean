import SourceSearch.Proofs.ReaderBounds

/-!
# Brackets

`closes closings tokens` says that the tokens close the open brackets that are listed, the innermost
first, that brackets among the tokens are balanced, and that semicolons and commas stand in brackets
only. With no open brackets it says that the tokens can be the value of a variable, as far as this
can be told without a grammar.

Two readers go by brackets alone. To skip from an opening bracket to the one that closes it, only
brackets of this kind are counted, and to find the end of a declarator brackets of all kinds are
counted as one; where brackets are balanced, both stop where they should
(`Parser.afterClosing_of_closes`, `Parser.declaratorEnd_of_closes`).
-/

set_option autoImplicit false

namespace SourceSearch

/-- The opening bracket is closed by the other one. -/
inductive Symbol.ClosedBy : (opening closing : Symbol) → Prop
  | paren : ClosedBy .lParen .rParen
  | bracket : ClosedBy .lBracket .rBracket
  | brace : ClosedBy .lBrace .rBrace

namespace Symbol.ClosedBy

variable {opening closing opening' closing' : Symbol}

theorem opening_ne_closing (h : opening.ClosedBy closing) (h' : opening'.ClosedBy closing') :
    opening ≠ closing' := by
  cases h <;> cases h' <;> decide

theorem opening_eq_iff (h : opening.ClosedBy closing) (h' : opening'.ClosedBy closing') :
    opening = opening' ↔ closing = closing' := by
  cases h <;> cases h' <;> decide

end Symbol.ClosedBy

/-- What is still to be closed behind a token, if the token may stand where the listed brackets are
to be closed. -/
def closingsBehind (closings : List Symbol) : TokenKind → Option (List Symbol)
  | .symbol .lParen => some (.rParen :: closings)
  | .symbol .lBracket => some (.rBracket :: closings)
  | .symbol .lBrace => some (.rBrace :: closings)
  | .symbol .rParen => if closings.head? = some .rParen then some closings.tail else none
  | .symbol .rBracket => if closings.head? = some .rBracket then some closings.tail else none
  | .symbol .rBrace => if closings.head? = some .rBrace then some closings.tail else none
  | .symbol .semi | .symbol .comma => if closings = [] then none else some closings
  | _ => some closings

/-- **Whether tokens close the listed brackets**, all brackets among them being balanced, and
semicolons and commas standing in brackets. -/
def closes (closings : List Symbol) : List Token → Bool
  | [] => closings.isEmpty
  | t :: tokens =>
    match closingsBehind closings t.kind with
    | some inner => closes inner tokens
    | none => false

/-- What a token does to the brackets that are to be closed. -/
inductive Turn (kind : TokenKind) (closings : List Symbol) : List Symbol → Prop
  | opens {opening closing : Symbol} : opening.ClosedBy closing → kind = opening →
      Turn kind closings (closing :: closings)
  | closes {opening closing : Symbol} {outer : List Symbol} : opening.ClosedBy closing →
      kind = closing → closings = closing :: outer → Turn kind closings outer
  | stays : (∀ {opening closing : Symbol}, opening.ClosedBy closing →
        kind ≠ opening ∧ kind ≠ closing) →
      (closings = [] → kind ≠ Symbol.semi ∧ kind ≠ Symbol.comma) → Turn kind closings closings

section Closes

variable {kind : TokenKind} {closings inner : List Symbol} {t : Token} {tokens : List Token}

theorem turn_of_closingsBehind (h : closingsBehind closings kind = some inner) :
    Turn kind closings inner := by
  have hcloses : ∀ {opening closing : Symbol}, opening.ClosedBy closing → kind = closing →
      (if closings.head? = some closing then some closings.tail else none) = some inner →
        Turn kind closings inner := by
    intro opening closing hpair hkind hinner
    split at hinner
    next hhead =>
      cases closings with
      | nil => cases hhead
      | cons first outer =>
        cases hhead
        cases hinner
        exact .closes hpair hkind rfl
    next => cases hinner
  unfold closingsBehind at h
  split at h
  · cases h
    exact .opens .paren rfl
  · cases h
    exact .opens .bracket rfl
  · cases h
    exact .opens .brace rfl
  · exact hcloses .paren rfl h
  · exact hcloses .bracket rfl h
  · exact hcloses .brace rfl h
  iterate 2
    · split at h
      next => cases h
      next hne =>
        cases h
        exact .stays (fun hpair => by cases hpair <;> decide) fun hnil => absurd hnil hne
  next hlp hlb hlc hrp hrb hrc hsemi hcomma =>
    cases h
    refine .stays (fun hpair => ?_) fun _ => ⟨hsemi, hcomma⟩
    cases hpair
    · exact ⟨hlp, hrp⟩
    · exact ⟨hlb, hrb⟩
    · exact ⟨hlc, hrc⟩

theorem closingsBehind_opening {opening closing : Symbol} (h : opening.ClosedBy closing) :
    closingsBehind closings opening = some (closing :: closings) := by
  cases h <;> rfl

theorem closes_cons : closes closings (t :: tokens) = true ↔
    ∃ inner, closingsBehind closings t.kind = some inner ∧ closes inner tokens = true := by
  rw [closes]
  cases closingsBehind closings t.kind with
  | none => simp
  | some inner => simp

theorem closes_nil : closes closings [] = true ↔ closings = [] := List.isEmpty_iff

end Closes

namespace Parser

variable {outer : List Symbol} {tokens : List Token}

/-- **Brackets of one kind are skipped** to the one that closes the first, which is in the brackets
that the first is in. -/
theorem afterClosing_of_closes {opening closing : Symbol} (hpair : opening.ClosedBy closing)
    (inner : List Symbol) (h : closes (inner ++ closing :: outer) tokens = true)
    (after : List Token) :
    ∃ lastEnd left, closes outer left = true ∧
      afterClosing opening closing (inner.count closing + 1) (tokens ++ after) =
        some (lastEnd, left ++ after) := by
  induction tokens generalizing inner with
  | nil => simp [closes] at h
  | cons t tokens ih =>
    obtain ⟨closings, hbehind, hcloses⟩ := closes_cons.1 h
    rw [List.cons_append, afterClosing]
    cases turn_of_closingsBehind hbehind with
    | @opens opening' closing' hpair' hkind =>
      have hne : t.kind ≠ closing := fun heq =>
        hpair'.opening_ne_closing hpair (TokenKind.symbol.inj (hkind.symm.trans heq))
      have hrest := ih (closing' :: inner) hcloses
      by_cases hsame : t.kind = opening
      · have hclosing := (hpair'.opening_eq_iff hpair).1
          (TokenKind.symbol.inj (hkind.symm.trans hsame))
        rw [if_pos hsame]
        rwa [hclosing, List.count_cons_self] at hrest
      · have hclosing : closing' ≠ closing := fun heq =>
          hsame (hkind.trans (congrArg TokenKind.symbol ((hpair'.opening_eq_iff hpair).2 heq)))
        rw [if_neg hsame, if_neg hne]
        rwa [List.count_cons_of_ne hclosing] at hrest
    | @closes opening' closing' outer' hpair' hkind hclosings =>
      have hne : t.kind ≠ opening := fun heq =>
        hpair.opening_ne_closing hpair' (TokenKind.symbol.inj (heq.symm.trans hkind))
      rw [if_neg hne]
      cases inner with
      | nil =>
        obtain ⟨rfl, rfl⟩ := List.cons.inj hclosings
        rw [if_pos hkind, if_pos (by simp)]
        exact ⟨_, tokens, hcloses, rfl⟩
      | cons first inner =>
        obtain ⟨rfl, rfl⟩ := List.cons.inj hclosings
        have hrest := ih inner hcloses
        by_cases hsame : t.kind = closing
        · obtain rfl := TokenKind.symbol.inj (hkind.symm.trans hsame)
          rw [if_pos hsame, List.count_cons_self, if_neg (by omega)]
          exact hrest
        · have hclosing : first ≠ closing := fun heq =>
            hsame (hkind.trans (congrArg TokenKind.symbol heq))
          rw [if_neg hsame, List.count_cons_of_ne hclosing]
          exact hrest
    | stays hplain =>
      rw [if_neg (hplain hpair).1, if_neg (hplain hpair).2]
      exact ih inner hcloses

section DeclaratorEnd

variable {opening closing : Symbol} {t : Token} {lastEnd depth : Nat}

theorem declaratorEnd_of_opens (hpair : opening.ClosedBy closing) (hkind : t.kind = opening) :
    declaratorEnd lastEnd depth (t :: tokens) = declaratorEnd t.range.stop (depth + 1) tokens := by
  obtain ⟨kind, text, range⟩ := t
  obtain rfl : kind = opening := hkind
  cases hpair <;> rfl

theorem declaratorEnd_of_closes_inner (hpair : opening.ClosedBy closing)
    (hkind : t.kind = closing) :
    declaratorEnd lastEnd (depth + 1) (t :: tokens) = declaratorEnd t.range.stop depth tokens := by
  obtain ⟨kind, text, range⟩ := t
  obtain rfl : kind = closing := hkind
  cases hpair <;> rfl

theorem declaratorEnd_of_ends
    (hkind : t.kind = Symbol.semi ∨ t.kind = Symbol.comma ∨ t.kind = Symbol.rBrace) :
    declaratorEnd lastEnd 0 (t :: tokens) = (lastEnd, t :: tokens) := by
  obtain ⟨kind, text, range⟩ := t
  obtain rfl | rfl | rfl : kind = Symbol.semi ∨ kind = Symbol.comma ∨ kind = Symbol.rBrace := hkind
  all_goals rfl

theorem declaratorEnd_of_stays
    (hplain : ∀ {opening closing : Symbol}, opening.ClosedBy closing →
      t.kind ≠ opening ∧ t.kind ≠ closing)
    (hends : depth = 0 → t.kind ≠ Symbol.semi ∧ t.kind ≠ Symbol.comma) :
    declaratorEnd lastEnd depth (t :: tokens) = declaratorEnd t.range.stop depth tokens := by
  obtain ⟨kind, text, range⟩ := t
  have hparen := hplain .paren
  have hbracket := hplain .bracket
  have hbrace := hplain .brace
  conv => lhs; unfold declaratorEnd
  split <;> simp_all

end DeclaratorEnd

/-- **A declarator is left where it ends**: at the semicolon or comma behind it, or at the first
such token or closing brace in the braces that it is in. -/
theorem declaratorEnd_of_closes {ending : Token}
    (hending : ending.kind = Symbol.semi ∨ ending.kind = Symbol.comma)
    (houter : outer = [] ∨ outer.head? = some .rBrace) (inner : List Symbol)
    (h : closes (inner ++ outer) tokens = true) (lastEnd : Nat) (later : List Token) :
    ∃ stop left, closes outer left = true ∧ (outer = [] → left = []) ∧
      declaratorEnd lastEnd inner.length (tokens ++ ending :: later) =
        (stop, left ++ ending :: later) := by
  induction tokens generalizing inner lastEnd with
  | nil =>
    obtain ⟨rfl, rfl⟩ := List.append_eq_nil_iff.1 (closes_nil.1 h)
    exact ⟨lastEnd, [], rfl, fun _ => rfl, declaratorEnd_of_ends (hending.imp_right .inl)⟩
  | cons t tokens ih =>
    obtain ⟨closings, hbehind, hcloses⟩ := closes_cons.1 h
    cases turn_of_closingsBehind hbehind with
    | opens hpair hkind =>
      rw [List.cons_append, declaratorEnd_of_opens hpair hkind]
      exact ih (_ :: inner) hcloses _
    | closes hpair hkind hclosings =>
      cases inner with
      | nil =>
        -- a bracket that closes one before the declarator is a brace
        rw [List.nil_append] at hclosings h
        have hbrace := houter.resolve_left (hclosings ▸ List.cons_ne_nil _ _)
        rw [hclosings] at hbrace
        obtain rfl := Option.some.inj hbrace
        exact ⟨lastEnd, t :: tokens, h, fun hnil => absurd hnil (hclosings ▸ List.cons_ne_nil _ _),
          declaratorEnd_of_ends (.inr (.inr hkind))⟩
      | cons first inner =>
        obtain ⟨rfl, rfl⟩ := List.cons.inj hclosings
        rw [List.cons_append, List.length_cons, declaratorEnd_of_closes_inner hpair hkind]
        exact ih inner hcloses _
    | stays hplain hends =>
      by_cases hstops : inner = [] ∧ (t.kind = Symbol.semi ∨ t.kind = Symbol.comma)
      · obtain ⟨rfl, hkind⟩ := hstops
        refine ⟨lastEnd, t :: tokens, h, fun hnil => ?_,
          declaratorEnd_of_ends (hkind.imp_right .inl)⟩
        obtain ⟨hsemi, hcomma⟩ := hends hnil
        exact (hkind.elim hsemi hcomma).elim
      · rw [List.cons_append, declaratorEnd_of_stays hplain fun hdepth => ?_]
        · exact ih inner hcloses _
        · exact not_or.1 fun hkind => hstops ⟨List.length_eq_zero_iff.1 hdepth, hkind⟩

end Parser

/-! ## Places in a value -/

theorem Cursor.textEnd_skip (c : Cursor) (n : Nat) : (c.skip n).textEnd = c.textEnd := by
  induction n generalizing c with
  | zero => rfl
  | succ n ih =>
    rw [Cursor.skip, ih]
    cases hrest : c.rest with
    | nil => rw [Cursor.advance, hrest]
    | cons t rest => rw [Cursor.advance_of_rest hrest]

/-- Behind some tokens the rest is left. -/
theorem Cursor.skip_length {c : Cursor} {tokens after : List Token}
    (h : c.rest = tokens ++ after) :
    c.skip tokens.length = ⟨after, (c.skip tokens.length).lastEnd, c.textEnd⟩ := by
  have hrest : (c.skip tokens.length).rest = after := by rw [rest_skip, h, List.drop_left]
  rw [← hrest, ← c.textEnd_skip tokens.length]

/-- **A place in a value** that starts at a cursor: some of the tokens are read, and those that are
left close the listed brackets. -/
def Within (value : List Token) (start : Cursor) (closings : List Symbol) (c : Cursor) : Prop :=
  ∃ n ≤ value.length, c = start.skip n ∧ closes closings (value.drop n) = true

namespace Within

variable {value after left : List Token} {start c d : Cursor} {closings outer : List Symbol}

/-- Where a value starts, none of its brackets are open. -/
theorem at_start (h : closes [] value = true) : Within value start [] start :=
  ⟨0, Nat.zero_le _, rfl, h⟩

/-- What is left at a place in a value. -/
theorem exists_left (h : Within value start closings c) (hrest : start.rest = value ++ after) :
    ∃ left, closes closings left = true ∧ c.rest = left ++ after := by
  obtain ⟨n, hn, rfl, hcloses⟩ := h
  refine ⟨_, hcloses, ?_⟩
  rw [Cursor.rest_skip, hrest, List.drop_append_of_le_length hn]

/-- Where some of a value is left before what stands behind it, there is a place in the value. -/
theorem of_skip (h : Within value start closings c) (hrest : start.rest = value ++ after)
    (hafter : after ≠ []) (hskip : ∃ n, d = c.skip n) (hleft : d.rest = left ++ after)
    (hcloses : closes outer left = true) : Within value start outer d := by
  obtain ⟨n, -, rfl, -⟩ := h
  obtain ⟨m, rfl⟩ := hskip
  rw [Cursor.skip_skip, Cursor.rest_skip, hrest] at hleft
  have hpos : 0 < after.length := List.length_pos_iff.2 hafter
  have hlength : n + m ≤ value.length := by
    have := congrArg List.length hleft
    simp only [List.length_drop, List.length_append] at this
    omega
  rw [List.drop_append_of_le_length hlength] at hleft
  exact ⟨n + m, hlength, Cursor.skip_skip .., List.append_cancel_right hleft ▸ hcloses⟩

/-- A place that only what stands behind the value is left at is the end of the value. -/
theorem eq_skip_length (h : Within value start closings c) (hrest : start.rest = value ++ after)
    (hc : c.rest = after) : c = start.skip value.length := by
  obtain ⟨n, hn, rfl, -⟩ := h
  rw [Cursor.rest_skip, hrest, List.drop_append_of_le_length hn] at hc
  have hnil : value.drop n = [] := List.append_left_eq_self.1 hc
  rw [Nat.le_antisymm hn (List.drop_eq_nil_iff.1 hnil)]

end Within

end SourceSearch
