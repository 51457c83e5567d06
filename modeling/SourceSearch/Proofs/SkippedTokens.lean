import SourceSearch.Proofs.Regions

/-!
# Tokens that are skipped

Two readers skip tokens without a grammar: from an opening bracket to the one that closes it, by a
count of brackets of this kind, and to the end of a declarator, by a count of brackets of any kind.
Both stop at a token and look at nothing behind it, so that they do the same in two texts that have
the tokens up to there in common (`Parser.exists_of_afterClosing`,
`Parser.exists_of_declaratorEnd`).
-/

set_option autoImplicit false

namespace SourceSearch.Parser

variable {v : Region} {c c' : Cursor} {opening closing : TokenKind} {close : Symbol}
  {closings : List Symbol} {depth lastEnd stop : Nat} {tokens rest left : List Token}

/-- **What stands behind a closing bracket** is not looked at to find it. -/
theorem exists_of_afterClosing (h : afterClosing opening closing depth tokens = some (stop, rest)) :
    ∃ skipped, tokens = skipped ++ rest ∧ skipped ≠ [] ∧
      ∀ rest', afterClosing opening closing depth (skipped ++ rest') = some (stop, rest') := by
  induction tokens generalizing depth with
  | nil => cases h
  | cons t tokens ih =>
    -- one token more before those that are skipped
    have hmore : ∀ {depth' : Nat}, afterClosing opening closing depth' tokens = some (stop, rest) →
        (∀ tokens', afterClosing opening closing depth (t :: tokens') =
          afterClosing opening closing depth' tokens') →
        ∃ skipped, t :: tokens = skipped ++ rest ∧ skipped ≠ [] ∧
          ∀ rest', afterClosing opening closing depth (skipped ++ rest') = some (stop, rest') := by
      intro depth' hrest hstep
      obtain ⟨skipped, rfl, -, hskip⟩ := ih hrest
      exact ⟨t :: skipped, rfl, List.cons_ne_nil _ _, fun rest' => (hstep _).trans (hskip rest')⟩
    rw [afterClosing] at h
    split at h
    next hopens => exact hmore h fun _ => by rw [afterClosing, if_pos hopens]
    next hopens =>
      split at h
      next hcloses =>
        split at h
        next hlast =>
          cases h
          refine ⟨[t], rfl, List.cons_ne_nil _ _, fun _ => ?_⟩
          rw [List.singleton_append, afterClosing, if_neg hopens, if_pos hcloses, if_pos hlast]
        next hlast =>
          exact hmore h fun _ => by rw [afterClosing, if_neg hopens, if_pos hcloses, if_neg hlast]
      next hcloses => exact hmore h fun _ => by rw [afterClosing, if_neg hopens, if_neg hcloses]

/-- A declarator ends before a token, or the token is gone past. -/
theorem declaratorEnd_cons (lastEnd depth : Nat) (t : Token) :
    (∀ tokens, declaratorEnd lastEnd depth (t :: tokens) = (lastEnd, t :: tokens)) ∨
      ∃ depth', ∀ tokens, declaratorEnd lastEnd depth (t :: tokens) =
        declaratorEnd t.range.stop depth' tokens := by
  obtain ⟨kind, text, range⟩ := t
  cases kind with
  | symbol s =>
    cases depth <;> cases s <;> first | exact .inl fun _ => rfl | exact .inr ⟨_, fun _ => rfl⟩
  | _ => exact .inr ⟨depth, fun _ => rfl⟩

/-- **What stands behind the end of a declarator** is not looked at to find it. -/
theorem exists_of_declaratorEnd (h : declaratorEnd lastEnd depth tokens = (stop, rest)) :
    ∃ skipped, tokens = skipped ++ rest ∧ ∀ {t : Token} {later : List Token}, rest = t :: later →
      ∀ later', declaratorEnd lastEnd depth (skipped ++ t :: later') = (stop, t :: later') := by
  induction tokens generalizing lastEnd depth with
  | nil =>
    cases h
    exact ⟨[], rfl, nofun⟩
  | cons t tokens ih =>
    obtain hends | ⟨depth', hstep⟩ := declaratorEnd_cons lastEnd depth t
    · cases (hends tokens).symm.trans h
      refine ⟨[], rfl, fun hrest later' => ?_⟩
      obtain ⟨rfl, rfl⟩ := List.cons.inj hrest
      exact hends later'
    · obtain ⟨skipped, rfl, hskip⟩ := ih ((hstep tokens).symm.trans h)
      exact ⟨t :: skipped, rfl, fun hrest later' => (hstep _).trans (hskip hrest later')⟩

/-! ## Two runs that skip tokens -/

/-- Reads past the token that closes a bracket which is open. -/
def skipToClosing (opening closing : TokenKind) : Parser Unit := do
  let c ← get
  match afterClosing opening closing 1 c.rest with
  | some (lastEnd, rest) => set { c with rest := rest, lastEnd := lastEnd }
  | none => throw ⟨"unbalanced " ++ opening.name, c.textEnd⟩

theorem skipBalanced_eq (opening closing : TokenKind) :
    skipBalanced opening closing = (do
      let _ ← expect opening
      skipToClosing opening closing) := rfl

theorem leaves_skipToClosing {n : Nat} : Leaves n n (skipToClosing opening closing) := by
  refine ⟨fun {c} hlt => .get_bind ?_⟩
  split
  next lastEnd rest hrest =>
    refine ⟨rfl, fun hok => ?_, fun hok => ?_⟩ <;> cases hok
    · exact Nat.lt_of_le_of_lt (length_afterClosing hrest) hlt
    · exact exists_skip_of_afterClosing hrest
  next => exact .of_error rfl rfl

theorem skipToClosing_apply (c : Cursor) :
    skipToClosing opening closing c =
      match afterClosing opening closing 1 c.rest with
      | some (stop, rest) => .ok ((), ⟨rest, stop, c.textEnd⟩)
      | none => .error ⟨"unbalanced " ++ opening.name, c.textEnd⟩ := by
  rw [skipToClosing, get_bind_eq]
  cases afterClosing opening closing 1 c.rest <;> rfl

/-- **Tokens are skipped to a closing bracket** in both texts, if in each they end in the region. -/
theorem leadsAt_skipToClosing {outer : List Symbol} (hrest : c.rest = left ++ v.after)
    (hrest' : c'.rest = left ++ v.after') (htext : c'.textEnd = c.textEnd)
    (hsome : ∀ {stop : Nat} {rest : List Token},
      afterClosing opening closing 1 (left ++ v.after) = some (stop, rest) →
        (∃ left', rest = left' ++ v.after ∧ v.inside outer left') ∨
          v.loose ∧ rest.length < v.after.length)
    (hsome' : ¬v.loose → ∀ {stop : Nat} {rest : List Token},
      afterClosing opening closing 1 (left ++ v.after') = some (stop, rest) →
        ∃ left', rest = left' ++ v.after') :
    LeadsAt v c c' outer (skipToClosing opening closing) := by
  refine ⟨?_⟩
  rw [skipToClosing_apply, skipToClosing_apply, hrest, hrest', htext]
  cases hclosing : afterClosing opening closing 1 (left ++ v.after) with
  | some pair =>
    obtain ⟨stop, rest⟩ := pair
    obtain ⟨left', rfl, hinside⟩ | ⟨hloose, hout⟩ := hsome hclosing
    · obtain ⟨skipped, hskipped, -, hsame⟩ := exists_of_afterClosing hclosing
      rw [← List.append_assoc] at hskipped
      obtain rfl := List.append_cancel_right hskipped
      rw [List.append_assoc, hsame]
      exact .inside ⟨left', rfl, rfl, rfl, rfl, hinside⟩
    · refine .leaves hloose fun hok => ?_
      cases hok
      exact hout
  | none =>
    by_cases hloose : v.loose
    · exact .leaves hloose fun hok => by cases hok
    cases hclosing' : afterClosing opening closing 1 (left ++ v.after') with
    | none => exact .fails
    | some pair =>
      -- the first text has the tokens that are skipped in the second one
      obtain ⟨stop, rest⟩ := pair
      obtain ⟨left', rfl⟩ := hsome' hloose hclosing'
      obtain ⟨skipped, hskipped, -, hsame⟩ := exists_of_afterClosing hclosing'
      rw [← List.append_assoc] at hskipped
      obtain rfl := List.append_cancel_right hskipped
      rw [List.append_assoc, hsame] at hclosing
      cases hclosing

/-- Tokens are skipped from an opening bracket, if one comes next. -/
theorem leadsAt_skipBalanced (hc : v.At (close :: closings) c c')
    (hsome : ∀ {t : Token} {left : List Token} {stop : Nat} {rest : List Token},
      c.rest = t :: (left ++ v.after) → v.inside (close :: closings) (t :: left) →
      t.kind = opening → afterClosing opening closing 1 (left ++ v.after) = some (stop, rest) →
        (∃ left', rest = left' ++ v.after ∧ v.inside (close :: closings) left') ∨
          v.loose ∧ rest.length < v.after.length)
    (hsome' : ¬v.loose → ∀ {t : Token} {left : List Token} {stop : Nat} {rest : List Token},
      c'.rest = t :: (left ++ v.after') → v.inside (close :: closings) (t :: left) →
      t.kind = opening → afterClosing opening closing 1 (left ++ v.after') = some (stop, rest) →
        ∃ left', rest = left' ++ v.after') :
    LeadsAt v c c' (close :: closings) (skipBalanced opening closing) := by
  cases hnext : c.nextIs opening with
  | false =>
    exact .of_error (bind_of_error (expect_of_not hnext) _)
      (bind_of_error (expect_of_not (hc.nextIs_eq opening ▸ hnext)) _)
  | true =>
    obtain ⟨left, hrest, hrest', -, htext, hinside⟩ := hc
    have hne := Cursor.rest_ne_nil_of_kind? (eq_of_beq hnext)
    cases left with
    | nil =>
      by_cases hloose : v.loose
      · refine ⟨.leaves hloose fun hok => ?_⟩
        have hless : c.rest.length < v.after.length + 1 := by rw [hrest]; exact Nat.lt_succ_self _
        exact ((leaves_skipBalanced opening closing).at_cursor hless).lt_of_ok hok
      · rw [hrest, (v.ends hloose hinside).1] at hne
        exact absurd rfl hne
    | cons t left =>
      obtain rfl : t.kind = opening := by
        rw [Cursor.nextIs, Cursor.kind?, hrest] at hnext
        exact Option.some.inj (eq_of_beq hnext)
      have hskip : LeadsAt v c.advance c'.advance (close :: closings)
          (skipToClosing t.kind closing) := by
        rw [Cursor.advance_of_rest hrest, Cursor.advance_of_rest hrest']
        exact leadsAt_skipToClosing rfl rfl htext (hsome hrest hinside rfl)
          fun hloose => hsome' hloose hrest' hinside rfl
      exact hskip.of_eq (bind_of_ok (expect_of_rest hrest) _) (bind_of_ok (expect_of_rest hrest') _)

/-- **Tokens are skipped to the end of a declarator** in both texts, if it is in the region. -/
theorem leadsAt_skipToDeclaratorEnd (hrest : c.rest = left ++ v.after)
    (hrest' : c'.rest = left ++ v.after') (hend : c'.lastEnd = c.lastEnd)
    (htext : c'.textEnd = c.textEnd)
    (hstops : ∀ {stop : Nat} {rest : List Token},
      declaratorEnd c.lastEnd 0 (left ++ v.after) = (stop, rest) →
        (∃ left', rest = left' ++ v.after ∧ v.inside closings left' ∧
          (v.after' = v.after ∨ ∃ t later later', left' ++ v.after = t :: later ∧
            left' ++ v.after' = t :: later')) ∨
            v.loose ∧ rest.length < v.after.length) :
    LeadsAt v c c' closings skipToDeclaratorEnd := by
  have hrun : ∀ d : Cursor, skipToDeclaratorEnd d = .ok ((),
      ⟨(declaratorEnd d.lastEnd 0 d.rest).2, (declaratorEnd d.lastEnd 0 d.rest).1, d.textEnd⟩) :=
    fun _ => rfl
  refine ⟨?_⟩
  rw [hrun, hrun, hrest, hrest', hend, htext]
  cases hdecl : declaratorEnd c.lastEnd 0 (left ++ v.after) with
  | mk stop rest =>
    obtain ⟨left', rfl, hinside, hsame⟩ | ⟨hloose, hout⟩ := hstops hdecl
    · have hdecl' : declaratorEnd c.lastEnd 0 (left ++ v.after') = (stop, left' ++ v.after') := by
        obtain heq | ⟨t, later, later', htokens, htokens'⟩ := hsame
        · rw [heq, hdecl]
        · obtain ⟨skipped, hskipped, hends⟩ := exists_of_declaratorEnd hdecl
          rw [← List.append_assoc] at hskipped
          obtain rfl := List.append_cancel_right hskipped
          rw [List.append_assoc, htokens']
          exact hends htokens _
      rw [hdecl']
      exact .inside ⟨left', rfl, rfl, rfl, rfl, hinside⟩
    · refine .leaves hloose fun hok => ?_
      cases hok
      exact hout

end SourceSearch.Parser
