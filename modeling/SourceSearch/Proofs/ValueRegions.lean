import SourceSearch.Proofs.Brackets
import SourceSearch.Proofs.BracketedReaders
import SourceSearch.Proofs.SkippedTokens

/-!
# Values keep to their brackets

The value of a field whose brackets are balanced is a region that ends with the token behind it. So
a value that parses is left outside of its brackets and not behind its end
(`Parser.initializer_within`), whatever its tokens are.

One thing has to be asked for: type arguments are skipped from one angle bracket to the other, and
of these it has to be asked that they stand in the same brackets (`AnglesWithin`).
-/

set_option autoImplicit false

namespace SourceSearch

/-- An angle bracket of a value that is closed somewhere is closed in the brackets that it stands
in. -/
def AnglesWithin (value after : List Token) : Prop :=
  ∀ (before behind rest : List Token) (t : Token) (stop : Nat), value = before ++ t :: behind →
    t.kind = Symbol.lt →
    Parser.afterClosing Symbol.lt Symbol.gt 1 (behind ++ after) = some (stop, rest) →
      ∃ left, rest = left ++ after ∧
        ∀ closings, closes closings behind = true → closes closings left = true

/-- A value without angle brackets. -/
theorem AnglesWithin.of_forall_ne {value after : List Token}
    (h : ∀ t ∈ value, t.kind ≠ Symbol.lt) : AnglesWithin value after := by
  rintro before behind rest t stop rfl hkind -
  exact absurd hkind (h t (by simp))

/-- A token that is no bracket and ends nothing leaves open what is open. -/
theorem eq_of_closingsPast {closing : Symbol} {closings inner : List Symbol} {kind : TokenKind}
    (h : closingsPast (closing :: closings) kind = some inner)
    (hplain : ∀ {opening close : Symbol}, opening.ClosedBy close → kind ≠ opening ∧ kind ≠ close)
    (hends : kind ≠ closing) : inner = closing :: closings := by
  cases kind with
  | symbol s =>
    cases s with
    | lParen => exact absurd rfl (hplain .paren).1
    | lBracket => exact absurd rfl (hplain .bracket).1
    | lBrace => exact absurd rfl (hplain .brace).1
    | rParen => exact absurd rfl (hplain .paren).2
    | rBracket => exact absurd rfl (hplain .bracket).2
    | rBrace => exact absurd rfl (hplain .brace).2
    | comma =>
      change (if closing = .comma then some closings else some (closing :: closings)) = some inner
        at h
      rw [if_neg fun heq : closing = .comma => hends (heq ▸ rfl)] at h
      exact (Option.some.inj h).symm
    | semi =>
      obtain ⟨heq, -⟩ | ⟨heq, -⟩ := of_closingsPast_semi h
      · exact absurd (congrArg TokenKind.symbol heq.symm) hends
      · exact heq
    | _ => exact (Option.some.inj h).symm
  | _ => exact (Option.some.inj h).symm

/-- What may be left of a value and the token that ends it: some of the value, which closes the
brackets that are open in it, or nothing at all. -/
inductive LeftOf (value : List Token) (ending : Token) (close : Symbol) :
    List Symbol → List Token → Prop
  | nothing : LeftOf value ending close [] []
  | part {inner : List Symbol} {left : List Token} : left <:+ value → closes inner left = true →
      (∀ s ∈ inner, ∃ opening : Symbol, opening.ClosedBy s) →
      LeftOf value ending close (inner ++ [close]) (left ++ [ending])

namespace LeftOf

variable {value left : List Token} {ending t : Token} {close closing : Symbol}
  {closings inner outer all : List Symbol}

/-- Where brackets of a value are open, a token of it or the one that ends it is left. -/
theorem exists_of_cons (h : LeftOf value ending close (closing :: closings) left) :
    ∃ (inner : List Symbol) (tokens : List Token), closing :: closings = inner ++ [close] ∧
      left = tokens ++ [ending] ∧ tokens <:+ value ∧ closes inner tokens = true ∧
        ∀ s ∈ inner, ∃ opening : Symbol, opening.ClosedBy s := by
  generalize hclosings : closing :: closings = all at h
  cases h with
  | nothing => cases hclosings
  | part hsuffix hcloses hinner => exact ⟨_, _, rfl, rfl, hsuffix, hcloses, hinner⟩

/-- A token of a value does the same to its brackets whether it is read or only looked at. -/
theorem closingsPast_eq {kind : TokenKind} (hclose : close = .semi ∨ close = .comma)
    (hinner : ∀ s ∈ inner, ∃ opening : Symbol, opening.ClosedBy s)
    (hbehind : closingsBehind inner kind = some outer)
    (hpast : closingsPast (inner ++ [close]) kind = some all) :
    all = outer ++ [close] ∧ ∀ s ∈ outer, ∃ opening : Symbol, opening.ClosedBy s := by
  cases turn_of_closingsBehind hbehind with
  | @opens opening closing hpair hkind =>
    subst hkind
    have hall : all = closing :: (inner ++ [close]) := by
      cases inner <;> cases hpair <;> exact (Option.some.inj hpast).symm
    refine ⟨hall, fun s hs => ?_⟩
    obtain rfl | hs := List.mem_cons.1 hs
    · exact ⟨opening, hpair⟩
    · exact hinner s hs
  | closes hpair hkind hclosings =>
    subst hkind hclosings
    refine ⟨?_, fun s hs => hinner s (List.mem_cons_of_mem _ hs)⟩
    cases hpair <;> exact (Option.some.inj hpast).symm
  | stays hplain hends =>
    refine ⟨?_, hinner⟩
    cases inner with
    | nil =>
      obtain ⟨hsemi, hcomma⟩ := hends rfl
      exact eq_of_closingsPast hpast hplain (by obtain rfl | rfl := hclose <;> assumption)
    | cons first inner =>
      obtain ⟨opening, hpair⟩ := hinner first List.mem_cons_self
      exact eq_of_closingsPast hpast hplain (hplain hpair).2

/-- **A token of a value that is read** leaves what closes the brackets that are open then. -/
theorem past (hclose : close = .semi ∨ close = .comma) (hending : ending.kind = close)
    (h : LeftOf value ending close closings (t :: left))
    (hpast : closingsPast closings t.kind = some inner) :
    LeftOf value ending close inner left := by
  obtain ⟨closing, others, rfl⟩ := Parser.exists_cons_of_closingsPast hpast
  obtain ⟨open', tokens, hclosings, htokens, hsuffix, hcloses, hopen⟩ := h.exists_of_cons
  rw [hclosings] at hpast
  cases tokens with
  | nil =>
    -- the token that ends the value
    obtain ⟨rfl, rfl⟩ := List.cons.inj htokens
    obtain rfl := closes_nil.1 hcloses
    rw [hending] at hpast
    obtain rfl : inner = [] := by
      obtain rfl | rfl := hclose <;> exact (Option.some.inj hpast).symm
    exact .nothing
  | cons u tokens =>
    obtain ⟨rfl, rfl⟩ := List.cons.inj htokens
    obtain ⟨outer, hbehind, hcloses⟩ := closes_cons.1 hcloses
    obtain ⟨rfl, houter⟩ := closingsPast_eq hclose hopen hbehind hpast
    exact .part ((List.suffix_cons t tokens).trans hsuffix) hcloses houter

/-- Another token than the one that ends the value is a token of the value. -/
theorem exists_of_ne (h : LeftOf value ending close (closing :: closings) (t :: left))
    (hne : t.kind ≠ ending.kind) :
    ∃ (inner : List Symbol) (tokens : List Token), closing :: closings = inner ++ [close] ∧
      left = tokens ++ [ending] ∧ t :: tokens <:+ value ∧ closes inner (t :: tokens) = true ∧
        ∀ s ∈ inner, ∃ opening : Symbol, opening.ClosedBy s := by
  obtain ⟨inner, tokens, hclosings, htokens, hsuffix, hcloses, hinner⟩ := h.exists_of_cons
  cases tokens with
  | nil =>
    obtain ⟨rfl, -⟩ := List.cons.inj htokens
    exact absurd rfl hne
  | cons u tokens =>
    obtain ⟨rfl, rfl⟩ := List.cons.inj htokens
    exact ⟨inner, tokens, hclosings, rfl, hsuffix, hcloses, hinner⟩

/-- **Tokens of a value that are skipped** leave what closes the same brackets, if they are skipped
to where these are open. -/
theorem skip {opening end' : TokenKind} {stop : Nat} {later rest : List Token}
    (h : LeftOf value ending close (closing :: closings) (t :: left)) (hne : t.kind ≠ ending.kind)
    (hskip : Parser.afterClosing opening end' 1 (left ++ later) = some (stop, rest))
    (hkeeps : ∀ {inner : List Symbol} {tokens : List Token}, t :: tokens <:+ value →
      closes inner (t :: tokens) = true → left = tokens ++ [ending] →
        ∃ left', closes inner left' = true ∧ rest = left' ++ ending :: later) :
    ∃ left', rest = left' ++ later ∧ LeftOf value ending close (closing :: closings) left' := by
  obtain ⟨inner, tokens, hclosings, rfl, hsuffix, hcloses, hinner⟩ := h.exists_of_ne hne
  obtain ⟨left', hcloses', rfl⟩ := hkeeps hsuffix hcloses rfl
  obtain ⟨skipped, hskipped, -, -⟩ := Parser.exists_of_afterClosing hskip
  have htokens : tokens = skipped ++ left' := by
    have hrest : tokens ++ ending :: later = skipped ++ left' ++ ending :: later := by
      simpa using hskipped
    exact List.append_cancel_right hrest
  refine ⟨left' ++ [ending], by simp, ?_⟩
  rw [hclosings]
  refine .part ((List.suffix_append skipped left').trans ?_) hcloses' hinner
  exact htokens ▸ (List.suffix_cons t tokens).trans hsuffix

end LeftOf

/-- **The value of a field as a region**, with the token that ends it. -/
def valueRegion (value : List Token) (ending : Token) (later : List Token) (close : Symbol)
    (hclose : close = .semi ∨ close = .comma) (hending : ending.kind = close) : Region where
  after := later
  after' := later
  inside := LeftOf value ending close
  loose := False
  past := LeftOf.past hclose hending
  ends _ _ _ h := by
    obtain ⟨-, tokens, -, hnil, -⟩ := h.exists_of_cons
    exact absurd hnil.symm (by simp)
  seals _ := .inl rfl
  looks := False.elim

namespace Parser

variable {value later : List Token} {ending : Token} {close : Symbol}
  {hclose : close = .semi ∨ close = .comma} {hending : ending.kind = close} {c c' : Cursor}
  {closing : Symbol} {closings : List Symbol}

/-- Tokens are skipped in a value, if they are skipped to where the same brackets are open. -/
theorem leadsAt_skipBalanced_of_keeps {opening close' : TokenKind}
    (hc : (valueRegion value ending later close hclose hending).At (closing :: closings) c c')
    (hne : opening ≠ close)
    (hkeeps : ∀ {t : Token} {inner : List Symbol} {tokens rest : List Token} {stop : Nat},
      t.kind = opening → t :: tokens <:+ value → closes inner (t :: tokens) = true →
      afterClosing opening close' 1 (tokens ++ ending :: later) = some (stop, rest) →
        ∃ left, closes inner left = true ∧ rest = left ++ ending :: later) :
    LeadsAt (valueRegion value ending later close hclose hending) c c' (closing :: closings)
      (skipBalanced opening close') := by
  have hskip : ∀ {t : Token} {left : List Token} {stop : Nat} {rest : List Token},
      LeftOf value ending close (closing :: closings) (t :: left) → t.kind = opening →
      afterClosing opening close' 1 (left ++ later) = some (stop, rest) →
        ∃ left', rest = left' ++ later ∧
          LeftOf value ending close (closing :: closings) left' := by
    intro t left stop rest hleft hkind hclosing
    refine hleft.skip ?_ hclosing fun hsuffix hcloses hleft => ?_
    · rwa [hkind, hending]
    · rw [hleft, List.append_assoc] at hclosing
      exact hkeeps hkind hsuffix hcloses hclosing
  refine leadsAt_skipBalanced hc (fun _ hinside hkind hclosing => ?_)
    fun _ _ _ _ _ _ hinside hkind hclosing => ?_
  · exact .inl (hskip hinside hkind hclosing)
  · obtain ⟨left', hrest, -⟩ := hskip hinside hkind hclosing
    exact ⟨left', hrest⟩

/-- Brackets of a value are skipped in the brackets that they are in. -/
theorem leadsAt_skipBalanced_of_closedBy {opening close' : Symbol}
    (hpair : opening.ClosedBy close')
    (hc : (valueRegion value ending later close hclose hending).At (closing :: closings) c c') :
    LeadsAt (valueRegion value ending later close hclose hending) c c' (closing :: closings)
      (skipBalanced opening close') := by
  refine leadsAt_skipBalanced_of_keeps hc ?_ fun hkind _ hcloses hclosing => ?_
  · obtain rfl | rfl := hclose <;> cases hpair <;> decide
  · obtain ⟨outer, hbehind, hcloses⟩ := closes_cons.1 hcloses
    rw [hkind, closingsBehind_opening hpair] at hbehind
    obtain rfl := Option.some.inj hbehind
    obtain ⟨stop', left, hcloses', hclosing'⟩ :=
      afterClosing_of_closes hpair [] hcloses (ending :: later)
    cases hclosing'.symm.trans hclosing
    exact ⟨left, hcloses', rfl⟩

/-- What is left of a value behind its sign is skipped to the end of a declarator. -/
theorem leadsAt_skipToDeclaratorEnd_of_closes
    (hc : (valueRegion value ending later close hclose hending).At (closing :: closings) c c')
    (hnext : c.kind? = some Symbol.eq ∨ c.kind? = some Modifier.defaultMod)
    (hclosing : closing = .rBrace ∨ closing :: closings = [.semi]) :
    LeadsAt (valueRegion value ending later close hclose hending) c.advance c'.advance
      (closing :: closings) skipToDeclaratorEnd := by
  have hat : (valueRegion value ending later close hclose hending).At (closing :: closings)
      c.advance c'.advance := by
    obtain hnext | hnext := hnext <;> exact hc.advance_of_kind? id hnext rfl
  obtain ⟨left, hrest, hrest', hend, htext, hinside⟩ := hat
  refine leadsAt_skipToDeclaratorEnd hrest hrest' hend htext fun {stop rest} hstops => ?_
  obtain ⟨inner, tokens, hclosings, rfl, hsuffix, hcloses, hinner⟩ := hinside.exists_of_cons
  have houter : inner = [] ∨ inner.head? = some .rBrace := by
    cases inner with
    | nil => exact .inl rfl
    | cons first inner =>
      obtain rfl | hsemi := hclosing
      · exact .inr (congrArg some (List.cons.inj hclosings).1.symm)
      · rw [hsemi] at hclosings
        exact absurd (List.cons.inj hclosings).2 (by simp)
  have hends : ending.kind = Symbol.semi ∨ ending.kind = Symbol.comma :=
    hclose.imp (hending.trans <| congrArg _ ·) (hending.trans <| congrArg _ ·)
  obtain ⟨stop', left', hcloses', -, hstops'⟩ :=
    declaratorEnd_of_closes hends houter [] hcloses c.advance.lastEnd later
  have hsame : declaratorEnd c.advance.lastEnd 0 (tokens ++ ending :: later) = (stop, rest) := by
    rw [← hstops, List.append_assoc]
    rfl
  cases hstops'.symm.trans hsame
  obtain ⟨skipped, hskipped, -⟩ := exists_of_declaratorEnd hsame
  have htokens : tokens = skipped ++ left' := by
    rw [← List.append_assoc] at hskipped
    exact List.append_cancel_right hskipped
  refine .inl ⟨left' ++ [ending], by simp [valueRegion], ?_, .inl rfl⟩
  rw [hclosings]
  exact .part (((List.suffix_append skipped left').trans (htokens ▸ List.suffix_rfl)).trans hsuffix)
    hcloses' hinner

/-- **Readers that skip tokens keep to the brackets of a value**, if its angle brackets do. -/
theorem valueRegion_skips (hangles : AnglesWithin value (ending :: later)) :
    (valueRegion value ending later close hclose hending).Skips where
  typeArguments := by
    refine .of_settled id fun {c c'} hc => .nextIs_bind hc (.ite (fun _ => ?_) fun _ =>
      (Leads.pure _).at_cursor hc)
    refine leadsAt_skipBalanced_of_keeps hc ?_ fun {t inner tokens rest stop} hkind hsuffix hcloses
      hclosing => ?_
    · obtain rfl | rfl := hclose <;> decide
    · obtain ⟨before, hvalue⟩ := hsuffix
      obtain ⟨left, hrest, hkeeps⟩ := hangles before tokens rest t stop hvalue.symm hkind hclosing
      obtain ⟨outer, hbehind, hcloses⟩ := closes_cons.1 hcloses
      rw [hkind] at hbehind
      obtain rfl := Option.some.inj hbehind
      exact ⟨left, hkeeps _ hcloses, hrest⟩
  arguments _ hd _ _ := leadsAt_skipBalanced_of_closedBy .paren hd
  value := leadsAt_skipToDeclaratorEnd_of_closes
  body := .of_settled id fun hc => leadsAt_skipBalanced_of_closedBy .brace hc

/-- **A value that parses is left outside of its brackets**, and not behind its end: let its
brackets be balanced, and let no angle bracket in it be closed in other brackets than its own. -/
theorem initializer_within {value later : List Token} {ending : Token} {start : Cursor}
    (hrest : start.rest = value ++ ending :: later)
    (hending : ending.kind = Symbol.semi ∨ ending.kind = Symbol.comma)
    (hvalue : closes [] value = true) (hangles : AnglesWithin value (ending :: later))
    {init : Expr} {d : Cursor} (h : Grammar.unbounded.initializer start = .ok (init, d)) :
    Within value start [] d := by
  obtain ⟨close, hclose, hkind⟩ : ∃ close : Symbol,
      (close = .semi ∨ close = .comma) ∧ ending.kind = close := by
    obtain hkind | hkind := hending
    · exact ⟨_, .inl rfl, hkind⟩
    · exact ⟨_, .inr rfl, hkind⟩
  have hkeeps := Grammar.keepsTo_unbounded (v := valueRegion value ending later close hclose hkind)
    id (valueRegion_skips hangles)
  have hstart : (valueRegion value ending later close hclose hkind).At [close] start start :=
    ⟨value ++ [ending], by simp [hrest, valueRegion], by simp [hrest, valueRegion], rfl, rfl,
      LeftOf.part List.suffix_rfl hvalue nofun⟩
  obtain ⟨d', -, left, hleft, -, -, -, hinside⟩ :=
    (hkeeps.initializer.at_cursor hstart).meets.exists_of_ok id h
  obtain ⟨inner, tokens, hclosings, rfl, -, hcloses, -⟩ := hinside.exists_of_cons
  obtain rfl : inner = [] := (List.append_eq_singleton_iff.1 hclosings.symm).elim And.left
    fun hone => absurd hone.2 (by simp)
  have honward := ((Grammar.readsOn_unbounded.initializer (n := start.rest.length + 1)).at_cursor
    (Nat.lt_succ_self _)).onward h
  refine (Within.at_start hvalue).of_skip hrest (List.cons_ne_nil _ _) honward ?_ hcloses
  rw [hleft, List.append_assoc]
  rfl

end Parser

end SourceSearch
