import SourceSearch.Proofs.BracketedReaders
import SourceSearch.Proofs.SkippedTokens

/-!
# Regions in braces

A block ends with the brace that closes it, and a declaration of fields with the semicolon that
stands in no braces of its own. Up to there the tokens of a text are a region, which is left by
nothing but its last token (`braceRegion`); and where braces are not closed the region is all that
is left of the text.

This holds as long as the readers that skip tokens by a count of other brackets keep to the braces
that they start in. `skipsKeepBraces` tells this from the tokens alone: what can be skipped as type
arguments, as arguments of an annotation or as a value has balanced braces, and semicolons in braces
only.
-/

set_option autoImplicit false

namespace SourceSearch

/-! ## Braces and semicolons -/

/-- Whether braces are balanced, of which so many were opened before, and semicolons stand in braces
only. -/
def bracesEnclose : (depth : Nat) → List Token → Bool
  | depth, [] => depth == 0
  | depth, t :: rest =>
    if t.kind = Symbol.lBrace then bracesEnclose (depth + 1) rest
    else if t.kind = Symbol.rBrace then depth != 0 && bracesEnclose (depth - 1) rest
    else if t.kind = Symbol.semi then depth != 0 && bracesEnclose depth rest
    else bracesEnclose depth rest

/-- What a token does to the braces that are to be closed, the innermost first. A semicolon closes
what is to end with it, unless a brace does first. -/
def braceTurn : List Symbol → TokenKind → Option (List Symbol)
  | [], _ => none
  | closing :: closings, kind =>
    if kind = Symbol.lBrace then some (.rBrace :: closing :: closings)
    else if kind = Symbol.rBrace then some closings
    else if kind = Symbol.semi ∧ closing = .semi then some closings
    else some (closing :: closings)

/-- What tokens do to the braces that are to be closed. Nothing stands behind the last of them. -/
def braceTurns (closings : List Symbol) (tokens : List Token) : Option (List Symbol) :=
  tokens.foldlM (fun closings t => braceTurn closings t.kind) closings

section Turns

variable {closing : Symbol} {closings mid final : List Symbol} {kind : TokenKind} {t : Token}
  {tokens skipped left after rest : List Token} {depth : Nat}

theorem braceTurns_cons (closings : List Symbol) (t : Token) (tokens : List Token) :
    braceTurns closings (t :: tokens) =
      (braceTurn closings t.kind).bind fun inner => braceTurns inner tokens :=
  List.foldlM_cons

theorem braceTurns_append (closings : List Symbol) (tokens others : List Token) :
    braceTurns closings (tokens ++ others) =
      (braceTurns closings tokens).bind fun inner => braceTurns inner others :=
  List.foldlM_append

theorem braceTurns_nil_eq_some_iff :
    braceTurns [] tokens = some final ↔ tokens = [] ∧ final = [] := by
  cases tokens with
  | nil => simp [braceTurns, eq_comm]
  | cons t tokens => simp [braceTurns_cons, braceTurn]

theorem braceTurn_of_ne (hopens : kind ≠ Symbol.lBrace) (hcloses : kind ≠ Symbol.rBrace)
    (hsemi : kind = Symbol.semi → closing ≠ .semi) :
    braceTurn (closing :: closings) kind = some (closing :: closings) := by
  rw [braceTurn, if_neg hopens, if_neg hcloses, if_neg fun h => hsemi h.1 h.2]

/-- Tokens that leave all braces as they are do so in any braces. -/
theorem braceTurns_of_bracesEnclose (h : bracesEnclose depth tokens = true)
    (hne : closings ≠ []) :
    braceTurns (List.replicate depth .rBrace ++ closings) tokens = some closings := by
  induction tokens generalizing depth with
  | nil =>
    obtain rfl : depth = 0 := by simpa [bracesEnclose] using h
    rfl
  | cons t tokens ih =>
    obtain ⟨closing, others, hclosings⟩ :
        ∃ first others, List.replicate depth .rBrace ++ closings = first :: others :=
      List.exists_cons_of_ne_nil (by simp [hne])
    have hdepth : depth ≠ 0 → closing = .rBrace := by
      intro hpos
      obtain ⟨depth, rfl⟩ := Nat.exists_eq_succ_of_ne_zero hpos
      exact (List.cons.inj hclosings).1.symm
    rw [bracesEnclose] at h
    rw [braceTurns_cons]
    split at h
    next hopens =>
      rw [hclosings, braceTurn, if_pos hopens, ← hclosings]
      exact ih h
    next hopens =>
      split at h
      next hcloses =>
        simp only [Bool.and_eq_true, bne_iff_ne] at h
        obtain ⟨depth, rfl⟩ := Nat.exists_eq_succ_of_ne_zero h.1
        rw [List.replicate_succ, List.cons_append, braceTurn, if_neg hopens, if_pos hcloses]
        exact ih h.2
      next hcloses =>
        split at h
        next hsemi =>
          simp only [Bool.and_eq_true, bne_iff_ne] at h
          rw [hclosings, braceTurn_of_ne hopens hcloses fun _ => by rw [hdepth h.1]; decide,
            ← hclosings]
          exact ih h.2
        next hsemi =>
          rw [hclosings, braceTurn_of_ne hopens hcloses fun heq => absurd heq hsemi, ← hclosings]
          exact ih h

/-- Tokens that are skipped belong to the region: where they end, braces of the region are to be
closed. -/
theorem exists_left_of_braceTurns (hskipped : braceTurns closings skipped = some mid)
    (hmid : mid ≠ []) (hleft : braceTurns closings left = some final)
    (hfinal : final = [] ∨ after = []) (h : left ++ after = skipped ++ rest) :
    ∃ left', rest = left' ++ after ∧ left = skipped ++ left' ∧
      braceTurns mid left' = some final := by
  obtain ⟨left', rfl, rfl⟩ | ⟨more, rfl, rfl⟩ := List.append_eq_append_iff.1 h.symm
  · rw [braceTurns_append, hskipped] at hleft
    exact ⟨left', rfl, rfl, hleft⟩
  · rw [braceTurns_append, hleft] at hskipped
    obtain rfl | hafter := hfinal
    · exact absurd (braceTurns_nil_eq_some_iff.1 hskipped).2 hmid
    · obtain ⟨rfl, rfl⟩ := List.append_eq_nil_iff.1 hafter
      cases hskipped
      exact ⟨[], rfl, by simp, rfl⟩

/-- The last token of a region in braces is a brace or a semicolon. -/
theorem exists_isBorder_of_braceTurns (h : braceTurns (closing :: closings) tokens = some []) :
    ∃ last ∈ tokens.getLast?, last.kind.IsBorder := by
  induction tokens generalizing closing closings with
  | nil => cases h
  | cons t tokens ih =>
    rw [braceTurns_cons] at h
    obtain ⟨inner, hturn, hrest⟩ := Option.bind_eq_some_iff.1 h
    cases inner with
    | cons first inner =>
      obtain ⟨last, hlast, hborder⟩ := ih hrest
      exact ⟨last, by rw [List.getLast?_cons, hlast]; rfl, hborder⟩
    | nil =>
      -- all braces are closed, and so this is the last token
      obtain ⟨rfl, -⟩ := braceTurns_nil_eq_some_iff.1 hrest
      refine ⟨t, rfl, ?_⟩
      rw [braceTurn] at hturn
      split at hturn
      next => cases hturn
      next =>
        split at hturn
        next hcloses => exact .inr (.inl hcloses)
        next =>
          split at hturn
          next hsemi => exact .inr (.inr hsemi.1)
          next => cases hturn

/-- **Where braces are closed**: behind some of the tokens, or behind none of them. -/
theorem exists_closed_or_open (hne : closings ≠ []) (tokens : List Token) :
    (∃ closed rest, tokens = closed ++ rest ∧ braceTurns closings closed = some []) ∨
      ∃ final ≠ [], braceTurns closings tokens = some final := by
  induction tokens generalizing closings with
  | nil => exact .inr ⟨closings, hne, rfl⟩
  | cons t tokens ih =>
    obtain ⟨closing, closings, rfl⟩ := List.exists_cons_of_ne_nil hne
    obtain ⟨inner, hturn⟩ : ∃ inner, braceTurn (closing :: closings) t.kind = some inner := by
      rw [braceTurn]
      split
      · exact ⟨_, rfl⟩
      · split
        · exact ⟨_, rfl⟩
        · split <;> exact ⟨_, rfl⟩
    have hstep : ∀ tokens, braceTurns (closing :: closings) (t :: tokens) =
        braceTurns inner tokens := fun tokens => by rw [braceTurns_cons, hturn]; rfl
    by_cases hinner : inner = []
    · exact .inl ⟨[t], tokens, rfl, (hstep []).trans (congrArg some hinner)⟩
    · obtain ⟨closed, rest, rfl, hclosed⟩ | ⟨final, hfinal, hturns⟩ := ih hinner
      · exact .inl ⟨t :: closed, rest, rfl, (hstep closed).trans hclosed⟩
      · exact .inr ⟨final, hfinal, (hstep tokens).trans hturns⟩

/-- A brace is skipped to the one that closes it. -/
theorem exists_of_afterClosing_rBrace {stop : Nat}
    (h : Parser.afterClosing Symbol.lBrace Symbol.rBrace (depth + 1) tokens = some (stop, rest)) :
    ∃ skipped, tokens = skipped ++ rest ∧ ∀ closings,
      braceTurns (List.replicate (depth + 1) .rBrace ++ closings) skipped = some closings := by
  induction tokens generalizing depth with
  | nil => cases h
  | cons t tokens ih =>
    rw [Parser.afterClosing] at h
    split at h
    next hopens =>
      obtain ⟨skipped, rfl, hskipped⟩ := ih h
      refine ⟨t :: skipped, rfl, fun closings => ?_⟩
      rw [braceTurns_cons, List.replicate_succ, List.cons_append, braceTurn, if_pos hopens]
      exact hskipped closings
    next hopens =>
      split at h
      next hcloses =>
        have hturn : ∀ closings, braceTurn (List.replicate (depth + 1) .rBrace ++ closings) t.kind =
            some (List.replicate depth .rBrace ++ closings) := by
          intro closings
          rw [List.replicate_succ, List.cons_append, braceTurn, if_neg hopens, if_pos hcloses]
        split at h
        next hlast =>
          cases h
          obtain rfl : depth = 0 := by omega
          exact ⟨[t], rfl, fun closings => by rw [braceTurns_cons, hturn]; rfl⟩
        next hlast =>
          obtain ⟨depth, rfl⟩ := Nat.exists_eq_succ_of_ne_zero (n := depth) (by omega)
          obtain ⟨skipped, rfl, hskipped⟩ := ih h
          refine ⟨t :: skipped, rfl, fun closings => ?_⟩
          rw [braceTurns_cons, hturn]
          exact hskipped closings
      next hcloses =>
        obtain ⟨skipped, rfl, hskipped⟩ := ih h
        refine ⟨t :: skipped, rfl, fun closings => ?_⟩
        rw [braceTurns_cons, List.replicate_succ, List.cons_append,
          braceTurn_of_ne hopens hcloses fun _ => (by decide : Symbol.rBrace ≠ .semi)]
        exact hskipped closings

end Turns

/-! ## Tokens that can be skipped -/

/-- The tokens before those that are left. -/
def tokensBefore (left tokens : List Token) : List Token :=
  tokens.take (tokens.length - left.length)

/-- The tokens that are skipped when these come next, if some can be: those behind an angle bracket
which is closed, behind a name and a parenthesis which is closed, and behind a sign or a word that a
value follows. -/
def skipped? : List Token → Option (List Token)
  | ⟨.symbol .lt, _, _⟩ :: tokens =>
    (Parser.afterClosing Symbol.lt Symbol.gt 1 tokens).map fun closed =>
      tokensBefore closed.2 tokens
  | ⟨.ident, _, _⟩ :: ⟨.symbol .lParen, _, _⟩ :: tokens =>
    (Parser.afterClosing Symbol.lParen Symbol.rParen 1 tokens).map fun closed =>
      tokensBefore closed.2 tokens
  | ⟨.symbol .eq, _, range⟩ :: tokens | ⟨.modifier .defaultMod, _, range⟩ :: tokens =>
    some (tokensBefore (Parser.declaratorEnd range.stop 0 tokens).2 tokens)
  | _ => none

/-- **Whether readers that skip tokens keep to braces**: what can be skipped has balanced braces,
and semicolons in braces only. -/
def skipsKeepBraces : List Token → Bool
  | [] => true
  | t :: tokens => (skipped? (t :: tokens)).all (bracesEnclose 0) && skipsKeepBraces tokens

section Skipped

variable {tokens left rest : List Token} {t : Token} {stop : Nat}

theorem tokensBefore_append (tokens left : List Token) :
    tokensBefore left (tokens ++ left) = tokens := by
  rw [tokensBefore, List.length_append, Nat.add_sub_cancel, List.take_left]

theorem skipsKeepBraces_of_suffix (h : skipsKeepBraces (tokens ++ left) = true) :
    skipsKeepBraces left = true := by
  induction tokens with
  | nil => exact h
  | cons t tokens ih => exact ih (Bool.and_eq_true_iff.1 h).2

/-- Type arguments keep to braces. -/
theorem exists_of_skipped_lt (h : skipsKeepBraces (t :: tokens) = true) (hkind : t.kind = Symbol.lt)
    (hskip : Parser.afterClosing Symbol.lt Symbol.gt 1 tokens = some (stop, rest)) :
    ∃ skipped, tokens = skipped ++ rest ∧ bracesEnclose 0 skipped = true := by
  obtain ⟨kind, text, range⟩ := t
  obtain rfl : kind = Symbol.lt := hkind
  have hkeeps := (Bool.and_eq_true_iff.1 h).1
  obtain ⟨skipped, rfl, -, -⟩ := Parser.exists_of_afterClosing hskip
  rw [skipped?, hskip, Option.map_some, tokensBefore_append] at hkeeps
  exact ⟨skipped, rfl, hkeeps⟩

/-- Arguments of an annotation keep to braces. -/
theorem exists_of_skipped_lParen {name : Token} (h : skipsKeepBraces (name :: t :: tokens) = true)
    (hname : name.kind = .ident) (hkind : t.kind = Symbol.lParen)
    (hskip : Parser.afterClosing Symbol.lParen Symbol.rParen 1 tokens = some (stop, rest)) :
    ∃ skipped, tokens = skipped ++ rest ∧ bracesEnclose 0 skipped = true := by
  obtain ⟨kind, text, range⟩ := t
  obtain ⟨kind', text', range'⟩ := name
  obtain rfl : kind = Symbol.lParen := hkind
  obtain rfl : kind' = .ident := hname
  have hkeeps := (Bool.and_eq_true_iff.1 h).1
  obtain ⟨skipped, rfl, -, -⟩ := Parser.exists_of_afterClosing hskip
  rw [skipped?, hskip, Option.map_some, tokensBefore_append] at hkeeps
  exact ⟨skipped, rfl, hkeeps⟩

/-- Values keep to braces. -/
theorem exists_of_skipped_value (h : skipsKeepBraces (t :: tokens) = true)
    (hkind : t.kind = Symbol.eq ∨ t.kind = Modifier.defaultMod)
    (hskip : Parser.declaratorEnd t.range.stop 0 tokens = (stop, rest)) :
    ∃ skipped, tokens = skipped ++ rest ∧ bracesEnclose 0 skipped = true := by
  obtain ⟨kind, text, range⟩ := t
  have hkeeps := (Bool.and_eq_true_iff.1 h).1
  obtain ⟨skipped, rfl, -⟩ := Parser.exists_of_declaratorEnd hskip
  refine ⟨skipped, rfl, ?_⟩
  obtain rfl | rfl : kind = Symbol.eq ∨ kind = Modifier.defaultMod := hkind <;>
  · rwa [skipped?, hskip, tokensBefore_append] at hkeeps

end Skipped

/-! ## The region -/

/-- A brace or a semicolon closes this. -/
def Symbol.EndsBraces (closing : Symbol) : Prop := closing = .rBrace ∨ closing = .semi

instance (closing : Symbol) : Decidable closing.EndsBraces := inferInstanceAs (Decidable (_ ∨ _))

/-- The braces among the brackets that are to be closed. -/
def braces (closings : List Symbol) : List Symbol := closings.filter (·.EndsBraces)

/-- All brackets that are to be closed stand in braces. -/
def InBraces (closings : List Symbol) : Prop := ∀ closing ∈ closings.getLast?, closing.EndsBraces

section Closings

variable {closing : Symbol} {closings inner : List Symbol} {kind : TokenKind}

theorem InBraces.tail (h : InBraces (closing :: closings)) : InBraces closings := by
  intro last hlast
  cases closings with
  | nil => cases hlast
  | cons second closings => exact h last (by rwa [List.getLast?_cons_cons])

theorem InBraces.cons (h : InBraces (closing :: closings)) (opened : Symbol) :
    InBraces (opened :: closing :: closings) := by
  intro last hlast
  exact h last (by rwa [List.getLast?_cons_cons] at hlast)

theorem braces_cons_of_endsBraces (h : closing.EndsBraces) :
    braces (closing :: closings) = closing :: braces closings :=
  List.filter_cons_of_pos (decide_eq_true h)

theorem braces_cons_of_not (h : ¬closing.EndsBraces) :
    braces (closing :: closings) = braces closings :=
  List.filter_cons_of_neg (by simpa using h)

theorem braces_ne_nil (h : InBraces (closing :: closings)) : braces (closing :: closings) ≠ [] := by
  induction closings generalizing closing with
  | nil => rw [braces_cons_of_endsBraces (h closing rfl)]; exact List.cons_ne_nil _ _
  | cons second closings ih =>
    by_cases hends : closing.EndsBraces
    · rw [braces_cons_of_endsBraces hends]
      exact List.cons_ne_nil _ _
    · rw [braces_cons_of_not hends]
      exact ih h.tail

/-- **A token that is read** does to braces what it does to all brackets. -/
theorem braceTurn_of_closingsPast (hin : InBraces closings)
    (h : closingsPast closings kind = some inner) :
    braceTurn (braces closings) kind = some (braces inner) ∧ InBraces inner := by
  obtain ⟨closing, closings, rfl⟩ := Parser.exists_cons_of_closingsPast h
  obtain ⟨first, others, hbraces⟩ := List.exists_cons_of_ne_nil (braces_ne_nil hin)
  -- a token that leaves the braces as they are
  have hstays : kind ≠ Symbol.lBrace → kind ≠ Symbol.rBrace → kind ≠ Symbol.semi →
      braces inner = braces (closing :: closings) →
        braceTurn (braces (closing :: closings)) kind = some (braces inner) := by
    intro hopens hcloses hsemi hinner
    rw [hinner, hbraces, braceTurn_of_ne hopens hcloses fun heq => absurd heq hsemi]
  -- a closing bracket that is no brace
  have hpops : ∀ close : Symbol, ¬close.EndsBraces →
      (if closing = close then some closings else none) = some inner →
        braces inner = braces (closing :: closings) ∧ InBraces inner := by
    intro close hno hinner
    split at hinner
    next heq =>
      cases hinner
      exact ⟨(braces_cons_of_not (heq ▸ hno)).symm, hin.tail⟩
    next => cases hinner
  have hplain : some (closing :: closings) = some inner →
      inner = closing :: closings := fun heq => (Option.some.inj heq).symm
  cases kind with
  | symbol s =>
    cases s with
    | lParen | lBracket =>
      cases h
      exact ⟨hstays (by decide) (by decide) (by decide) (braces_cons_of_not (by decide)),
        hin.cons _⟩
    | lBrace =>
      cases h
      rw [braces_cons_of_endsBraces (.inl rfl), hbraces]
      exact ⟨rfl, hin.cons _⟩
    | rParen | rBracket =>
      obtain ⟨hinner, hin'⟩ := hpops _ (by decide) h
      exact ⟨hstays (by decide) (by decide) (by decide) hinner, hin'⟩
    | rBrace =>
      change (if closing = .rBrace then some closings else none) = some inner at h
      split at h
      next heq =>
        cases h
        subst heq
        rw [braces_cons_of_endsBraces (.inl rfl)]
        exact ⟨rfl, hin.tail⟩
      next => cases h
    | comma =>
      change (if closing = .comma then some closings else some (closing :: closings)) = some inner
        at h
      split at h
      next heq =>
        cases h
        refine ⟨hstays (by decide) (by decide) (by decide) ?_, hin.tail⟩
        exact (braces_cons_of_not (heq ▸ by decide)).symm
      next =>
        cases h
        exact ⟨hstays (by decide) (by decide) (by decide) rfl, hin⟩
    | semi =>
      obtain ⟨rfl, rfl⟩ | ⟨rfl, rfl | ⟨rfl, outer, rfl⟩⟩ := of_closingsPast_semi h
      · rw [braces_cons_of_endsBraces (.inr rfl)]
        exact ⟨rfl, hin.tail⟩
      · rw [braces_cons_of_endsBraces (.inl rfl)]
        exact ⟨rfl, hin⟩
      · rw [braces_cons_of_not (by decide), braces_cons_of_endsBraces (.inl rfl)]
        exact ⟨rfl, hin⟩
    | _ =>
      cases hplain h
      exact ⟨hstays (by decide) (by decide) (by decide) rfl, hin⟩
  | _ =>
    cases hplain h
    exact ⟨hstays nofun nofun nofun rfl, hin⟩

end Closings

/-- What may be left of a region in braces: tokens that close the braces that are open, but for the
last ones, in two texts in which readers that skip tokens keep to braces. -/
structure LeftInBraces (after after' : List Token) (final closings : List Symbol)
    (left : List Token) : Prop where
  inBraces : InBraces closings
  turns : braceTurns (braces closings) left = some final
  keeps : skipsKeepBraces (left ++ after) = true
  keeps' : skipsKeepBraces (left ++ after') = true

namespace LeftInBraces

variable {after after' left skipped rest : List Token} {final closings inner : List Symbol}
  {closing : Symbol} {t : Token}

theorem symm (h : LeftInBraces after after' final closings left) :
    LeftInBraces after' after final closings left :=
  ⟨h.inBraces, h.turns, h.keeps', h.keeps⟩

theorem past (h : LeftInBraces after after' final closings (t :: left))
    (hpast : closingsPast closings t.kind = some inner) :
    LeftInBraces after after' final inner left := by
  obtain ⟨hturn, hin⟩ := braceTurn_of_closingsPast h.inBraces hpast
  have hturns := h.turns
  rw [braceTurns_cons, hturn] at hturns
  exact ⟨hin, hturns, (Bool.and_eq_true_iff.1 h.keeps).2, (Bool.and_eq_true_iff.1 h.keeps').2⟩

/-- A token that is neither a brace nor a semicolon leaves the same braces open. -/
theorem tail (h : LeftInBraces after after' final (closing :: closings) (t :: left))
    (hkind : ¬t.kind.IsBorder) : LeftInBraces after after' final (closing :: closings) left := by
  obtain ⟨hopens, hcloses, hsemi⟩ := not_or.1 hkind |>.imp_right not_or.1
  obtain ⟨first, others, hbraces⟩ := List.exists_cons_of_ne_nil (braces_ne_nil h.inBraces)
  have hturns := h.turns
  rw [braceTurns_cons, hbraces, braceTurn_of_ne hopens hcloses fun heq => absurd heq hsemi,
    ← hbraces] at hturns
  exact ⟨h.inBraces, hturns, (Bool.and_eq_true_iff.1 h.keeps).2,
    (Bool.and_eq_true_iff.1 h.keeps').2⟩

theorem final_ne_nil (h : LeftInBraces after after' final (closing :: closings) []) :
    final ≠ [] := by
  have hturns := h.turns
  cases hturns
  exact braces_ne_nil h.inBraces

/-- Tokens with balanced braces that are skipped leave the same braces open. -/
theorem skip (h : LeftInBraces after after' final (closing :: closings) left)
    (hfinal : final = [] ∨ after = []) (hskipped : bracesEnclose 0 skipped = true)
    (hleft : left ++ after = skipped ++ rest) :
    ∃ left', rest = left' ++ after ∧
      LeftInBraces after after' final (closing :: closings) left' := by
  have hne := braces_ne_nil h.inBraces
  obtain ⟨left', hrest, rfl, hturns⟩ := exists_left_of_braceTurns
    (braceTurns_of_bracesEnclose hskipped hne) hne h.turns hfinal hleft
  refine ⟨left', hrest, h.inBraces, hturns, ?_, ?_⟩
  · exact skipsKeepBraces_of_suffix (List.append_assoc .. ▸ h.keeps)
  · exact skipsKeepBraces_of_suffix (List.append_assoc .. ▸ h.keeps')

/-- **A brace that is skipped** to the one that closes it leaves the braces around it open. -/
theorem skip_brace {stop : Nat}
    (h : LeftInBraces after after' final (closing :: closings) (t :: left))
    (hfinal : final = [] ∨ after = []) (hkind : t.kind = Symbol.lBrace)
    (hskip : Parser.afterClosing Symbol.lBrace Symbol.rBrace 1 (left ++ after) =
      some (stop, rest)) :
    ∃ left', rest = left' ++ after ∧
      LeftInBraces after after' final (closing :: closings) left' := by
  have hpast : closingsPast (closing :: closings) t.kind =
      some (.rBrace :: closing :: closings) := by
    rw [hkind]
    rfl
  have hopened := h.past hpast
  obtain ⟨skipped, hskipped, hturns⟩ := exists_of_afterClosing_rBrace hskip
  have hbraces := hopened.turns
  rw [braces_cons_of_endsBraces (.inl rfl)] at hbraces
  obtain ⟨left', hrest, rfl, hturns⟩ := exists_left_of_braceTurns
    (hturns (braces (closing :: closings))) (braces_ne_nil h.inBraces) hbraces hfinal hskipped
  refine ⟨left', hrest, h.inBraces, hturns, ?_, ?_⟩
  · exact skipsKeepBraces_of_suffix (List.append_assoc .. ▸ hopened.keeps)
  · exact skipsKeepBraces_of_suffix (List.append_assoc .. ▸ hopened.keeps')

/-- **A brace that is skipped to** ends the region, if no other one is open. -/
theorem eq_of_skipped {stop : Nat} (h : LeftInBraces after after' final [.rBrace] left)
    (hfinal : final = [] ∨ after = [])
    (hskip : Parser.afterClosing Symbol.lBrace Symbol.rBrace 1 (left ++ after) =
      some (stop, rest)) :
    rest = after ∧ LeftInBraces after after' final [] [] := by
  obtain ⟨skipped, hskipped, hclosed⟩ := exists_of_afterClosing_rBrace hskip
  have hends : rest = after ∧ final = [] := by
    have hturns : braceTurns [.rBrace] left = some final := h.turns
    have hclosed : braceTurns [.rBrace] skipped = some [] := hclosed []
    obtain ⟨left', rfl, rfl⟩ | ⟨more, rfl, rfl⟩ := List.append_eq_append_iff.1 hskipped.symm
    · rw [braceTurns_append, hclosed] at hturns
      obtain ⟨rfl, rfl⟩ := braceTurns_nil_eq_some_iff.1 hturns
      exact ⟨rfl, rfl⟩
    · rw [braceTurns_append, hturns] at hclosed
      obtain rfl | hafter := hfinal
      · obtain ⟨rfl, -⟩ := braceTurns_nil_eq_some_iff.1 hclosed
        exact ⟨rfl, rfl⟩
      · obtain ⟨rfl, rfl⟩ := List.append_eq_nil_iff.1 hafter
        cases hclosed
        exact ⟨rfl, rfl⟩
  obtain ⟨rfl, rfl⟩ := hends
  exact ⟨rfl, fun _ => nofun, rfl, skipsKeepBraces_of_suffix h.keeps,
    skipsKeepBraces_of_suffix h.keeps'⟩

end LeftInBraces

/-- **A region in braces**: it ends where all braces are closed, or where both texts do. -/
def braceRegion (after after' : List Token) (final : List Symbol)
    (hfinal : final = [] ∨ after = [] ∧ after' = []) : Region where
  after := after
  after' := after'
  inside := LeftInBraces after after' final
  loose := False
  past := LeftInBraces.past
  ends _ _ _ h := hfinal.resolve_left h.final_ne_nil
  seals _ := by
    obtain rfl | ⟨rfl, rfl⟩ := hfinal
    · refine .inr fun h => ?_
      obtain ⟨first, others, hbraces⟩ := List.exists_cons_of_ne_nil (braces_ne_nil h.inBraces)
      exact exists_isBorder_of_braceTurns (hbraces ▸ h.turns)
    · exact .inl rfl
  looks := False.elim

namespace Parser

variable {after after' : List Token} {final : List Symbol}
  {hfinal : final = [] ∨ after = [] ∧ after' = []} {c c' : Cursor} {closing : Symbol}
  {closings : List Symbol}

/-- Tokens are skipped in braces, if this keeps to the braces in each text. -/
theorem leadsAt_skipBalanced_of_left {opening close : TokenKind}
    (hc : (braceRegion after after' final hfinal).At (closing :: closings) c c')
    (hkeeps : ∀ {behind behind' : List Token} {d : Cursor} {t : Token} {left rest : List Token}
      {stop : Nat}, (final = [] ∨ behind = []) → d = c ∨ d = c' → d.rest = t :: (left ++ behind) →
      LeftInBraces behind behind' final (closing :: closings) (t :: left) → t.kind = opening →
      afterClosing opening close 1 (left ++ behind) = some (stop, rest) →
        ∃ left', rest = left' ++ behind ∧
          LeftInBraces behind behind' final (closing :: closings) left') :
    LeadsAt (braceRegion after after' final hfinal) c c' (closing :: closings)
      (skipBalanced opening close) := by
  refine leadsAt_skipBalanced hc (fun hrest hleft hkind hclosing => ?_)
    fun _ _ _ _ _ hrest hleft hkind hclosing => ?_
  · exact .inl (hkeeps (hfinal.imp_right And.left) (.inl rfl) hrest hleft hkind hclosing)
  · obtain ⟨left', hrest', -⟩ := hkeeps (hfinal.imp_right And.right) (.inr rfl) hrest
      (LeftInBraces.symm hleft) hkind hclosing
    exact ⟨left', hrest'⟩

/-- The name before a place belongs to the region. -/
theorem exists_name_of_skip {d d' : Cursor} {n : Nat}
    (hc : (braceRegion after after' final hfinal).At (closing :: closings) c c')
    (hd : (braceRegion after after' final hfinal).At (closing :: closings) d d')
    (hkind : c.kindAt n = some .ident) (hskip : d = c.skip (n + 1)) :
    ∃ name : Token, name.kind = .ident ∧ skipsKeepBraces (name :: d.rest) = true ∧
      skipsKeepBraces (name :: d'.rest) = true := by
  obtain ⟨left, hrest, hrest', -, -, hleft⟩ := hc
  obtain ⟨behind, hbehind, hbehind', -⟩ := hd
  change c.rest = left ++ after at hrest
  change d.rest = behind ++ after at hbehind
  change d'.rest = behind ++ after' at hbehind'
  obtain ⟨name, hname, hident⟩ := Option.map_eq_some_iff.1 hkind
  have hcount : n < left.length := by
    have hlength := congrArg List.length hbehind
    obtain ⟨hn, -⟩ := List.getElem?_eq_some_iff.1 hname
    rw [hrest, List.length_append] at hn
    rw [hskip, Cursor.rest_skip, List.length_drop, hrest, List.length_append, List.length_append]
      at hlength
    omega
  rw [hrest, List.getElem?_append_left hcount] at hname
  rw [hskip, Cursor.rest_skip, hrest, List.drop_append_of_le_length hcount] at hbehind
  obtain rfl := List.append_cancel_right hbehind
  have hdrop : left.drop n = name :: left.drop (n + 1) := by
    obtain ⟨hn, rfl⟩ := List.getElem?_eq_some_iff.1 hname
    exact List.drop_eq_getElem_cons hn
  have hsplit : left = left.take n ++ name :: left.drop (n + 1) := by
    rw [← hdrop, List.take_append_drop]
  -- in both texts the name stands before what is left
  have hsuffix : ∀ {tokens : List Token}, skipsKeepBraces (left ++ tokens) = true →
      skipsKeepBraces (name :: (left.drop (n + 1) ++ tokens)) = true := by
    intro tokens hkeeps
    rw [hsplit, List.append_assoc] at hkeeps
    exact skipsKeepBraces_of_suffix hkeeps
  refine ⟨name, hident, ?_, ?_⟩
  · rw [hskip, Cursor.rest_skip, hrest, List.drop_append_of_le_length hcount]
    exact hsuffix hleft.keeps
  · rw [hbehind']
    exact hsuffix hleft.keeps'

/-- Arguments of an annotation are skipped in the braces that they are in. -/
theorem leadsAt_arguments {d d' : Cursor} {n : Nat}
    (hc : (braceRegion after after' final hfinal).At (closing :: closings) c c')
    (hd : (braceRegion after after' final hfinal).At (closing :: closings) d d')
    (hkind : c.kindAt n = some .ident) (hskip : d = c.skip (n + 1)) :
    LeadsAt (braceRegion after after' final hfinal) d d' (closing :: closings)
      (skipBalanced Symbol.lParen Symbol.rParen) := by
  obtain ⟨name, hname, hkeeps, hkeeps'⟩ := exists_name_of_skip hc hd hkind hskip
  refine leadsAt_skipBalanced_of_left hd fun {behind _ e t left _ _} hfinal he hrest hleft hkind
    hclosing => ?_
  have hbefore : skipsKeepBraces (name :: t :: (left ++ behind)) = true := by
    rw [← hrest]
    obtain rfl | rfl := he <;> assumption
  obtain ⟨skipped, hskipped, henclose⟩ := exists_of_skipped_lParen hbefore hname hkind hclosing
  exact (hleft.tail (hkind ▸ by decide)).skip hfinal henclose hskipped

/-- Values are skipped in the braces that they are in. -/
theorem leadsAt_value (hc : (braceRegion after after' final hfinal).At (closing :: closings) c c')
    (hnext : c.kind? = some Symbol.eq ∨ c.kind? = some Modifier.defaultMod) :
    LeadsAt (braceRegion after after' final hfinal) c.advance c'.advance (closing :: closings)
      skipToDeclaratorEnd := by
  obtain ⟨left, hrest, hrest', -, htext, hleft⟩ := hc
  change LeftInBraces after after' final _ left at hleft
  cases left with
  | nil =>
    -- nothing comes next where both texts end
    obtain rfl := (hfinal.resolve_left hleft.final_ne_nil).1
    rw [Cursor.kind?, hrest] at hnext
    obtain hnext | hnext := hnext <;> cases hnext
  | cons t left =>
    have hkind : t.kind = Symbol.eq ∨ t.kind = Modifier.defaultMod := by
      rw [Cursor.kind?, hrest] at hnext
      exact hnext.imp Option.some.inj Option.some.inj
    have hleft' : LeftInBraces after after' final (closing :: closings) left :=
      hleft.tail (by obtain hkind | hkind := hkind <;> rw [hkind] <;> decide)
    rw [Cursor.advance_of_rest hrest, Cursor.advance_of_rest hrest']
    refine leadsAt_skipToDeclaratorEnd rfl rfl rfl htext fun hstops => .inl ?_
    obtain ⟨skipped, hskipped, henclose⟩ := exists_of_skipped_value hleft.keeps hkind hstops
    obtain ⟨left', rfl, hinside⟩ := hleft'.skip (hfinal.imp_right And.left) henclose hskipped
    refine ⟨left', rfl, hinside, ?_⟩
    cases left' with
    | nil =>
      obtain ⟨hafter, hafter'⟩ := hfinal.resolve_left hinside.final_ne_nil
      exact .inl (hafter'.trans hafter.symm)
    | cons u left' => exact .inr ⟨u, _, _, rfl, rfl⟩

/-- **Readers that skip tokens keep to the region.** -/
theorem braceRegion_skips : (braceRegion after after' final hfinal).Skips where
  typeArguments := by
    refine .of_settled id fun {c c'} hc => .nextIs_bind hc (.ite (fun _ => ?_) fun _ =>
      (Leads.pure _).at_cursor hc)
    refine leadsAt_skipBalanced_of_left hc fun hfinal _ _ hleft hkind hclosing => ?_
    obtain ⟨skipped, hskipped, henclose⟩ := exists_of_skipped_lt hleft.keeps hkind hclosing
    exact (hleft.tail (hkind ▸ by decide)).skip hfinal henclose hskipped
  arguments := leadsAt_arguments
  value hc hnext _ := leadsAt_value hc hnext
  body := .of_settled id fun hc => leadsAt_skipBalanced_of_left hc
    fun hfinal _ _ hleft hkind hclosing => hleft.skip_brace hfinal hkind hclosing

/-- The brace that is open is skipped to. -/
theorem leads_skipToClosing : Leads (braceRegion after after' final hfinal) [.rBrace] []
    (skipToClosing Symbol.lBrace Symbol.rBrace) := by
  refine .of_settled id fun {c c'} hc => ?_
  obtain ⟨left, hrest, hrest', -, htext, hleft⟩ := hc
  change LeftInBraces after after' final [.rBrace] left at hleft
  refine leadsAt_skipToClosing hrest hrest' htext (fun hskip => .inl ?_) fun _ _ _ hskip => ?_
  · obtain ⟨rfl, hinside⟩ := hleft.eq_of_skipped (hfinal.imp_right And.left) hskip
    exact ⟨[], rfl, hinside⟩
  · obtain ⟨rfl, -⟩ := hleft.symm.eq_of_skipped (hfinal.imp_right And.right) hskip
    exact ⟨[], rfl⟩

end Parser

end SourceSearch
