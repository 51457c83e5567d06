import SourceSearch.Proofs.BraceRegions

/-!
# Texts with a common start

Two texts start with the same tokens up to a place where they part. If the reading of the first one
comes to some place before, the reading of the second one comes to the same place, with the same
declarations open (`Parser.ComesTo.of_commonStart`).

A reader that is given a second try may have gone past the place where the texts part before it
failed. So what is read with a second try has to end before it in the first text, whether it parses
or is skipped, and then it stands in braces that are closed there.
-/

set_option autoImplicit false

namespace SourceSearch

/-- **The tokens before the place where two texts part**, in both of which readers that skip tokens
keep to braces. Behind it both texts go on with the same token, and a reader of declarations cannot
tell them apart from there. -/
def commonStart {after after' : List Token} {t : Token} {later later' : List Token}
    (h : Alike after after' t later later') : Region where
  after := after
  after' := after'
  inside _ left := skipsKeepBraces (left ++ after) = true ∧ skipsKeepBraces (left ++ after') = true
  loose := True
  past h _ := ⟨(Bool.and_eq_true_iff.1 h.1).2, (Bool.and_eq_true_iff.1 h.2).2⟩
  ends hv := absurd trivial hv
  seals hv := absurd trivial hv
  looks _ := ⟨t, later, later', h⟩

/-- Tokens that are skipped end before a place or behind it. -/
theorem exists_left_or_length_lt {left after skipped rest : List Token}
    (h : left ++ after = skipped ++ rest) :
    (∃ left', left = skipped ++ left' ∧ rest = left' ++ after) ∨ rest.length < after.length := by
  obtain ⟨left', hleft, hrest⟩ | ⟨more, rfl, rfl⟩ := List.append_eq_append_iff.1 h.symm
  · exact .inl ⟨left', hleft, hrest⟩
  · cases more with
    | nil => exact .inl ⟨[], by simp, rfl⟩
    | cons t more =>
      refine .inr ?_
      rw [List.length_append, List.length_cons]
      omega

namespace Parser

open Grammar (unbounded)

variable {α : Type} {after after' : List Token} {t : Token} {later later' : List Token}
  {halike : Alike after after' t later later'} {c c' d : Cursor} {closing : Symbol}
  {closings inner outer outer' : List Symbol} {g : Grammar}

/-- Which brackets are open does not matter before the place. -/
theorem Leads.of_commonStart {p : Parser α} (h : Leads (commonStart halike) closings outer p) :
    Leads (commonStart halike) inner outer' p := by
  refine ⟨fun {c c'} hc => ⟨?_⟩, h.onward⟩
  have hmeets := (h.at_cursor hc).meets
  generalize p c = r, p c' = r' at hmeets
  cases hmeets with
  | inside hat => exact .inside hat
  | fails => exact .fails
  | leaves hloose hout => exact .leaves hloose hout

/-! ## Tokens that are skipped -/

theorem leadsAt_skipBalanced_of_commonStart {opening close : TokenKind}
    (hc : (commonStart halike).At (closing :: closings) c c') :
    LeadsAt (commonStart halike) c c' (closing :: closings) (skipBalanced opening close) := by
  refine leadsAt_skipBalanced hc (fun _ hinside _ hclosing => ?_) fun hv => absurd trivial hv
  obtain ⟨skipped, hskipped, -, -⟩ := exists_of_afterClosing hclosing
  obtain ⟨left', rfl, rfl⟩ | hout := exists_left_or_length_lt hskipped
  · refine .inl ⟨left', rfl, ?_⟩
    have hkeeps := hinside.1
    have hkeeps' := hinside.2
    rw [← List.cons_append, List.append_assoc] at hkeeps hkeeps'
    exact ⟨skipsKeepBraces_of_suffix hkeeps, skipsKeepBraces_of_suffix hkeeps'⟩
  · exact .inr ⟨trivial, hout⟩

theorem leadsAt_value_of_commonStart
    (hc : (commonStart halike).At (closing :: closings) c c')
    (hnext : c.kind? = some Symbol.eq ∨ c.kind? = some Modifier.defaultMod) :
    LeadsAt (commonStart halike) c.advance c'.advance (closing :: closings)
      skipToDeclaratorEnd := by
  have hstep : (commonStart halike).At (closing :: closings) c.advance c'.advance ∨
      (commonStart halike).loose ∧ (commonStart halike).Outside c.advance := by
    obtain hnext | hnext := hnext <;> exact hc.advance hnext rfl
  obtain ⟨left, hrest, hrest', hend, htext, hinside⟩ | ⟨-, hout⟩ := hstep
  · refine leadsAt_skipToDeclaratorEnd hrest hrest' hend htext fun hstops => ?_
    obtain ⟨skipped, hskipped, -⟩ := exists_of_declaratorEnd hstops
    obtain ⟨left', rfl, rfl⟩ | hout := exists_left_or_length_lt hskipped
    · refine .inl ⟨left', rfl, ?_, .inr ?_⟩
      · have hkeeps := hinside.1
        have hkeeps' := hinside.2
        rw [List.append_assoc] at hkeeps hkeeps'
        exact ⟨skipsKeepBraces_of_suffix hkeeps, skipsKeepBraces_of_suffix hkeeps'⟩
      · cases left' with
        | nil => exact ⟨t, later, later', halike.eq, halike.eq'⟩
        | cons u left' => exact ⟨u, _, _, rfl, rfl⟩
    · exact .inr ⟨trivial, hout⟩
  · refine ⟨.leaves trivial fun hok => Nat.lt_of_le_of_lt ?_ hout⟩
    exact Nat.le_of_lt_succ
      ((leaves_skipToDeclaratorEnd.at_cursor (Nat.lt_succ_self _)).lt_of_ok hok)

theorem commonStart_skips : (commonStart halike).Skips where
  typeArguments := .of_leaves (fun _ => leaves_typeArguments) fun hc => .nextIs_bind hc
    (.ite (fun _ => leadsAt_skipBalanced_of_commonStart hc) fun _ => (Leads.pure _).at_cursor hc)
  arguments _ hd _ _ := leadsAt_skipBalanced_of_commonStart hd
  value hc hnext _ := leadsAt_value_of_commonStart hc hnext
  body := .of_leaves (fun _ => (leaves_skipBalanced _ _).of_read)
    fun hc => leadsAt_skipBalanced_of_commonStart hc

/-! ## What stands in braces -/

section Closed

variable {final : List Symbol} {p : Parser α} {a : α} {close : Symbol} (hclose : close.EndsBraces)

include hclose

theorem braces_singleton : braces [close] = [close] := braces_cons_of_endsBraces hclose

/-- A place from where on braces are closed. -/
theorem braceRegion_at {final : List Symbol} {behind behind' closed : List Token}
    {hfinal : final = [] ∨ behind = [] ∧ behind' = []} (hrest : c.rest = closed ++ behind)
    (hrest' : c'.rest = closed ++ behind') (hend : c'.lastEnd = c.lastEnd)
    (htext : c'.textEnd = c.textEnd) (hclosed : braceTurns [close] closed = some final)
    (hkeeps : skipsKeepBraces c.rest = true) (hkeeps' : skipsKeepBraces c'.rest = true) :
    (braceRegion behind behind' final hfinal).At [close] c c' := by
  refine ⟨closed, hrest, hrest', hend, htext, ?_, ?_, hrest ▸ hkeeps, hrest' ▸ hkeeps'⟩
  · rintro last ⟨⟩
    exact hclose
  · rwa [braces_singleton hclose]

/-- **Where one run ends** that keeps to braces: where those are closed in which it starts, or
before. -/
theorem exists_left_of_eq_ok
    (hp : ∀ {behind behind' final hfinal},
      Leads (braceRegion behind behind' final hfinal) [close] outer p)
    (hkeeps : skipsKeepBraces c.rest = true) (hok : p c = .ok (a, d)) :
    ∃ left rest final, d.rest = left ++ rest ∧ braceTurns (braces outer) left = some final ∧
      (final = [] ∧ (∃ closed, c.rest = closed ++ rest ∧
        braceTurns [close] closed = some []) ∨ final ≠ [] ∧ rest = []) := by
  obtain ⟨closed, rest, hrest, hclosed⟩ | ⟨final, hfinal, hturns⟩ :=
    exists_closed_or_open (List.cons_ne_nil close []) c.rest
  · have hat : (braceRegion rest rest [] (.inl rfl)).At [close] c c :=
      braceRegion_at hclose hrest hrest rfl rfl hclosed hkeeps hkeeps
    obtain ⟨d', -, left, hleft, -, -, -, hinside⟩ :=
      (hp.at_cursor hat).meets.exists_of_ok id hok
    exact ⟨left, rest, [], hleft, LeftInBraces.turns hinside, .inl ⟨rfl, closed, hrest, hclosed⟩⟩
  · have hat : (braceRegion [] [] final (.inr ⟨rfl, rfl⟩)).At [close] c c :=
      braceRegion_at hclose (List.append_nil _).symm (List.append_nil _).symm rfl rfl hturns hkeeps
        hkeeps
    obtain ⟨d', -, left, hleft, -, -, -, hinside⟩ :=
      (hp.at_cursor hat).meets.exists_of_ok id hok
    exact ⟨left, [], final, hleft, LeftInBraces.turns hinside, .inr ⟨hfinal, rfl⟩⟩

/-- **A reader that closes the braces that it starts in** ends behind what closes them. -/
theorem exists_closed_of_eq_ok
    (hp : ∀ {behind behind' final hfinal},
      Leads (braceRegion behind behind' final hfinal) [close] [] p)
    (hkeeps : skipsKeepBraces c.rest = true) (hok : p c = .ok (a, d)) :
    ∃ closed, c.rest = closed ++ d.rest ∧ braceTurns [close] closed = some [] := by
  obtain ⟨left, rest, final, hleft, hturns, hends⟩ := exists_left_of_eq_ok hclose hp hkeeps hok
  obtain ⟨rfl, rfl⟩ := braceTurns_nil_eq_some_iff.1 hturns
  obtain ⟨-, closed, hrest, hclosed⟩ | ⟨hne, -⟩ := hends
  · exact ⟨closed, hleft ▸ hrest, hclosed⟩
  · exact absurd rfl hne

/-- **Two runs before the place where the texts part** that keep to braces do the same, if the first
one comes to no place before unless the braces are closed before. -/
theorem leads_of_braceRegion (hleaves : ∀ n, Leaves n n p)
    (hp : ∀ {behind behind' final hfinal},
      Leads (braceRegion behind behind' final hfinal) [close] outer p)
    (hends : ∀ {c d : Cursor} {a : α} {left : List Token}, c.rest = left ++ after →
      skipsKeepBraces c.rest = true → p c = .ok (a, d) →
        d.rest.length < after.length ∨ ∃ closed left', left = closed ++ left' ∧
          braceTurns [close] closed = some []) :
    Leads (commonStart halike) inner outer' p := by
  refine .of_leaves hleaves fun {c c'} hc => ⟨?_⟩
  obtain ⟨left, hrest, hrest', hend, htext, hkeeps, hkeeps'⟩ := hc
  change c.rest = left ++ after at hrest
  change c'.rest = left ++ after' at hrest'
  rw [← hrest] at hkeeps
  rw [← hrest'] at hkeeps'
  by_cases hclosed : ∃ closed left', left = closed ++ left' ∧ braceTurns [close] closed = some []
  · obtain ⟨closed, left', rfl, hclosed⟩ := hclosed
    rw [List.append_assoc] at hrest hrest'
    have hat : (braceRegion (left' ++ after) (left' ++ after') [] (.inl rfl)).At [close] c c' :=
      braceRegion_at hclose hrest hrest' hend htext hclosed hkeeps hkeeps'
    have hmeets := (hp.at_cursor hat).meets
    generalize p c = r, p c' = r' at hmeets
    cases hmeets with
    | inside hat =>
      obtain ⟨behind, hbehind, hbehind', hend, htext, hinside⟩ := hat
      refine .inside ⟨behind ++ left', ?_, ?_, hend, htext, ?_, ?_⟩
      · rw [hbehind, List.append_assoc]
        rfl
      · rw [hbehind', List.append_assoc]
        rfl
      · rw [List.append_assoc]
        exact LeftInBraces.keeps hinside
      · rw [List.append_assoc]
        exact LeftInBraces.keeps' hinside
    | fails => exact .fails
    | leaves hloose _ => exact hloose.elim
  · refine .leaves trivial fun hok => ?_
    exact (hends hrest hkeeps hok).resolve_right hclosed

/-- A reader that closes the braces that it starts in does the same in both texts. -/
theorem leads_of_closed (hleaves : ∀ n, Leaves n n p)
    (hp : ∀ {behind behind' final hfinal},
      Leads (braceRegion behind behind' final hfinal) [close] [] p) :
    Leads (commonStart halike) inner outer' p := by
  refine leads_of_braceRegion hclose hleaves hp fun hrest hkeeps hok => ?_
  obtain ⟨closed, hclosed, hturns⟩ := exists_closed_of_eq_ok hclose hp hkeeps hok
  obtain ⟨left', hleft, -⟩ | hout := exists_left_or_length_lt (hrest.symm.trans hclosed)
  · exact .inr ⟨closed, left', hleft, hturns⟩
  · exact .inl hout

end Closed

/-! ## Parts of declarations -/

/-- Reads the body of a method in braces, or skips it. -/
def bracedBody (g : Grammar) : Parser MethodBody :=
  orElse (.block <$> block g) do
    let start ← offset
    skipBalanced Symbol.lBrace Symbol.rBrace
    return .unparsed (← rangeFrom start)

theorem methodBody_eq : methodBody g = (do
    if ← eat Symbol.semi then return .absent
    else if ← eat Modifier.defaultMod then
      skipToDeclaratorEnd
      let _ ← expect Symbol.semi
      return .absent
    else bracedBody g) := rfl

/-- Reads the body of a method from behind its opening brace, or skips to the brace that closes
it. -/
def bodyRest (g : Grammar) (start : Nat) : Parser MethodBody :=
  orElse (.block <$> blockRest g start) do
    skipToClosing Symbol.lBrace Symbol.rBrace
    return .unparsed (← rangeFrom start)

/-- A body in braces is read from behind its opening brace. -/
theorem bracedBody_of_nextIs (hnext : c.nextIs Symbol.lBrace = true) :
    bracedBody g c = bodyRest g c.offset c.advance := by
  obtain ⟨t, hexpect⟩ := exists_expect_eq_ok hnext
  have hblock : (MethodBody.block <$> block g) c =
      (MethodBody.block <$> blockRest g c.offset) c.advance := by
    rw [map_eq_pure_bind, map_eq_pure_bind, block_eq, bind_assoc, bind_of_ok (p := offset) rfl,
      bind_assoc, bind_of_ok hexpect]
  have hskip : ∀ f : Nat → Parser MethodBody, (do
      let start ← offset
      skipBalanced Symbol.lBrace Symbol.rBrace
      f start) c = (do
        skipToClosing Symbol.lBrace Symbol.rBrace
        f c.offset : Parser MethodBody) c.advance := by
    intro f
    rw [bind_of_ok (p := offset) rfl, skipBalanced_eq, bind_assoc, bind_of_ok hexpect]
  unfold bracedBody bodyRest orElse
  rw [hblock, hskip]

/-- Nothing else is read as a body in braces. -/
theorem bracedBody_of_not (hnext : c.nextIs Symbol.lBrace = false) :
    ∃ e, bracedBody g c = .error e := by
  obtain ⟨e, hblock⟩ : ∃ e, (MethodBody.block <$> block g) c = .error e := by
    rw [map_eq_pure_bind, block_eq, bind_assoc, bind_of_ok (p := offset) rfl, bind_assoc]
    exact ⟨_, bind_of_error (expect_of_not hnext) _⟩
  unfold bracedBody orElse
  rw [hblock]
  dsimp only
  rw [bind_of_ok (p := offset) rfl]
  exact ⟨_, bind_of_error (bind_of_error (expect_of_not hnext) _) _⟩

section Parts

variable (hreads : g.ReadsOn)

include hreads

theorem leaves_blockRest {n : Nat} (start : Nat) : Leaves n n (blockRest g start) :=
  (agree_manyUntil hreads.stmt.of_read).bind fun _ => leaves_ranged _ _

theorem leaves_bodyRest {n : Nat} (start : Nat) : Leaves n n (bodyRest g start) :=
  agree_orElse ((leaves_blockRest hreads start).map _)
    (leaves_skipToClosing.bind fun _ => leaves_ranged _ _)

theorem leaves_constants {n : Nat} (enumName : String) :
    Leaves n n (many (constant? g enumName)) := by
  refine agree_many ((leaves_nextIs _).bind fun _ => (leaves_nextIs _).bind fun _ => .ite .done ?_)
  refine (agree_enumConstant (hreads n) (Nat.le_refl n) enumName).pass fun _ =>
    (leaves_eat _).bind fun _ => (leaves_nextIs _).bind fun _ => (leaves_nextIs _).bind fun _ => ?_
  exact .ite ((leaves_expect _).pass fun _ => .done) .done

variable (hg : ∀ {behind behind' : List Token} {final : List Symbol}
  {hfinal : final = [] ∨ behind = [] ∧ behind' = []},
  g.KeepsTo (braceRegion behind behind' final hfinal))

include hg

omit hreads in
theorem leads_bodyRest {behind behind' : List Token} {final : List Symbol}
    {hfinal : final = [] ∨ behind = [] ∧ behind' = []} (start : Nat) :
    Leads (braceRegion behind behind' final hfinal) [.rBrace] [] (bodyRest g start) :=
  .of_settled id fun hc => .orElse id (((leads_blockRest hg start).map _).at_cursor hc)
    ((leads_skipToClosing.bind fun _ => leads_ranged _ _).at_cursor hc)

theorem leads_block_of_commonStart :
    Leads (commonStart halike) (.rBrace :: closings) (.rBrace :: closings) (block g) :=
  leads_offset.bind fun start => (leads_expect rfl).bind fun _ =>
    leads_of_closed (.inl rfl) (fun _ => leaves_blockRest hreads start) (leads_blockRest hg start)

theorem leads_methodBody_of_commonStart :
    Leads (commonStart halike) (.rBrace :: closings) (.rBrace :: closings) (methodBody g) := by
  rw [methodBody_eq]
  refine (leads_eat rfl).bind fun _ => .ite (.pure _) (.of_leaves (fun n => ?_) fun {c c'} hc => ?_)
  · refine (leaves_eat _).bind fun _ => .ite ?_ ?_
    · exact leaves_skipToDeclaratorEnd.bind fun _ => (leaves_expect _).pass fun _ => .done
    · refine agree_orElse ((agree_block (hreads n) (Nat.le_refl n)).of_read.map _) ?_
      exact leaves_offset.bind fun _ => (leaves_skipBalanced _ _).pass fun _ => leaves_ranged _ _
  cases hnext : c.nextIs Modifier.defaultMod with
  | true =>
    have hvalue := leadsAt_value_of_commonStart hc (.inr (eq_of_beq hnext))
    exact (hvalue.bind fun _ => (leads_expect rfl).bind fun _ => .pure MethodBody.absent).of_eq
      (eat_bind_of_next hnext _) (eat_bind_of_next (hc.nextIs_eq Modifier.defaultMod ▸ hnext) _)
  | false =>
    refine LeadsAt.of_eq ?_ (eat_bind_of_not hnext _)
      (eat_bind_of_not (hc.nextIs_eq Modifier.defaultMod ▸ hnext) _)
    cases hbrace : c.nextIs Symbol.lBrace with
    | true =>
      have hbody : Leads (commonStart halike) (.rBrace :: .rBrace :: closings)
          (.rBrace :: closings) (bodyRest g c.offset) :=
        leads_of_closed (.inl rfl) (fun _ => leaves_bodyRest hreads _) (leads_bodyRest hg _)
      refine .of_advance hc (eq_of_beq hbrace) rfl hbody (bracedBody_of_nextIs hbrace) ?_
      rw [← hc.offset_eq]
      exact bracedBody_of_nextIs (hc.nextIs_eq Symbol.lBrace ▸ hbrace)
    | false =>
      obtain ⟨e, hfails⟩ := bracedBody_of_not hbrace
      obtain ⟨e', hfails'⟩ := bracedBody_of_not (hc.nextIs_eq Symbol.lBrace ▸ hbrace)
      exact .of_error hfails hfails'

theorem leads_fieldsRest_of_commonStart (mods : Modifiers) (type : TypeRef) (start : Nat)
    (name : Ident) : Leads (commonStart halike) (.rBrace :: closings) (.rBrace :: closings)
      (fieldsRest g mods type start name) :=
  leads_of_closed (.inr rfl)
    (fun n => agree_fieldsRest (hreads n) (Nat.le_refl n) mods type start name)
    (leads_fieldsRest hg (.inr rfl) rfl rfl mods type start name)

/-- Constants of an enum end before a semicolon or a brace, which the texts do not part at. -/
theorem leads_enumConstants_of_commonStart (hsemi : t.kind ≠ Symbol.semi)
    (hbrace : t.kind ≠ Symbol.rBrace) (enumName : String) :
    Leads (commonStart halike) (.rBrace :: closings) (.rBrace :: closings)
      (enumConstants g enumName) := by
  have hclose : Symbol.EndsBraces .semi := .inr rfl
  rw [enumConstants_eq]
  have hconstants : Leads (commonStart halike) (.rBrace :: closings) (.rBrace :: closings)
      (many (constant? g enumName)) := by
    refine leads_of_braceRegion hclose (fun _ => leaves_constants hreads enumName)
      (leads_constants hg enumName rfl) fun {c d constants left} hrest hkeeps hok => ?_
    have hadvances : Advances (constant? g enumName) := advances_constant? hreads enumName
    obtain ⟨mid, hlast⟩ := hadvances.exists_last hok
    obtain ⟨rfl, hnext⟩ := nextIs_of_constant?_eq_none hlast
    obtain ⟨behind, rest, final, hbehind, hturns, hends⟩ :=
      exists_left_of_eq_ok hclose (leads_constants hg enumName rfl) hkeeps hok
    have hnext' : d.kind? = some Symbol.semi ∨ d.kind? = some Symbol.rBrace :=
      hnext.imp eq_of_beq eq_of_beq
    obtain ⟨u, more, rfl⟩ : ∃ u more, behind = u :: more := by
      refine List.exists_cons_of_ne_nil ?_
      rintro rfl
      obtain ⟨rfl, -⟩ | ⟨-, rfl⟩ := hends
      · cases hturns
      · rw [Cursor.kind?, hbehind] at hnext'
        obtain h | h := hnext' <;> cases h
    rw [List.cons_append] at hbehind
    have hkind : u.kind = Symbol.semi ∨ u.kind = Symbol.rBrace := by
      rw [Cursor.kind?, hbehind] at hnext'
      exact hnext'.imp Option.some.inj Option.some.inj
    -- this token is the last one of the region
    have hturn : braceTurn [.semi] u.kind = some [] := by
      obtain hkind | hkind := hkind <;> rw [hkind] <;> rfl
    rw [braces_singleton hclose, braceTurns_cons, hturn] at hturns
    obtain ⟨rfl, rfl⟩ := braceTurns_nil_eq_some_iff.1 hturns
    obtain ⟨-, closed, hclosed, hcloses⟩ | ⟨hne, -⟩ := hends
    · obtain ⟨left', rfl, rfl⟩ | hout := exists_left_or_length_lt (hrest.symm.trans hclosed)
      · exact .inr ⟨closed, left', rfl, hcloses⟩
      · refine .inl (Nat.lt_of_le_of_ne (by rw [hbehind]; exact hout) fun hlength => ?_)
        -- the texts would part at this token
        obtain ⟨read, hread⟩ := ((leaves_constants hreads enumName).at_cursor
          (Nat.lt_succ_self _)).onward hok |>.exists_rest_eq
        obtain ⟨-, hafter⟩ := List.append_inj' (hrest.symm.trans hread) hlength.symm
        rw [halike.eq, hbehind] at hafter
        obtain ⟨rfl, -⟩ := List.cons.inj hafter
        exact hkind.elim hsemi hbrace
    · exact absurd rfl hne
  exact hconstants.bind fun _ => (leads_eat rfl).bind fun _ => .pure _

end Parts

/-! ## Declarations -/

section Declarations

variable (hsemi : t.kind ≠ Symbol.semi) (hbrace : t.kind ≠ Symbol.rBrace)

include hsemi hbrace

theorem Grammar.ReadsOn.declares (hreads : g.ReadsOn)
    (hg : ∀ {behind behind' : List Token} {final : List Symbol}
      {hfinal : final = [] ∨ behind = [] ∧ behind' = []},
      g.KeepsTo (braceRegion behind behind' final hfinal))
    (hmember : ∀ {closings} typeName,
      Leads (commonStart halike) (.rBrace :: closings) (.rBrace :: closings) (g.member typeName)) :
    g.Declares (commonStart halike) where
  skips := commonStart_skips
  readsOn := hreads
  block := leads_block_of_commonStart hreads hg
  methodBody := leads_methodBody_of_commonStart hreads hg
  fieldsRest := leads_fieldsRest_of_commonStart hreads hg
  enumConstants := leads_enumConstants_of_commonStart hreads hg hsemi hbrace
  member := hmember

theorem Grammar.declares_ofDepth (depth : Nat) :
    (Grammar.ofDepth depth).Declares (commonStart halike) := by
  have hkeeps : ∀ {behind behind' : List Token} {final : List Symbol}
      {hfinal : final = [] ∨ behind = [] ∧ behind' = []} (depth : Nat),
      (Grammar.ofDepth depth).KeepsTo (braceRegion behind behind' final hfinal) :=
    Grammar.keepsTo_ofDepth id braceRegion_skips
  induction depth with
  | zero => exact (readsOn_ofDepth 0).declares hsemi hbrace (hkeeps 0) fun _ => .fail _
  | succ depth ih =>
    exact (readsOn_ofDepth _).declares hsemi hbrace (hkeeps _) (leads_member ih)

theorem Grammar.declares_unbounded : unbounded.Declares (commonStart halike) :=
  readsOn_unbounded.declares hsemi hbrace (keepsTo_unbounded id braceRegion_skips) fun typeName =>
    .of_agree fun n => ⟨_, (agreesUpTo_unbounded (n + 1)).member typeName (Nat.le_refl n),
      (declares_ofDepth hsemi hbrace (n + 1)).member typeName⟩

end Declarations

/-! ## Heads of declarations -/

theorem leads_importDecl? {v : Region} :
    Leads v (.rBrace :: closings) (.rBrace :: closings) importDecl? := by
  refine (leads_eat rfl).bind fun _ => .ite ((leads_eat rfl).bind fun _ => ?_) (.pure _)
  refine leads_offset.bind fun start => leads_qualifiedName.bind fun _ => ?_
  have hrest : ∀ f : TextRange → ImportDecl, Leads v (.rBrace :: closings) (.rBrace :: closings) (do
      let range ← rangeFrom start
      let _ ← expect Symbol.semi
      return some (f range)) := fun _ =>
    (leads_rangeFrom start).bind fun _ => (leads_expect rfl).bind fun _ => .pure _
  refine leads_nextAre_bind (by decide) (fun _ => nofun) (fun _ => ?_)
    (fun hc hfirst hsecond => .skip_two_bind hc hfirst rfl hsecond rfl (hrest _)) (hrest _)
  refine (leaves_nextAre _ _).bind fun _ => .ite ((leaves_skip 2).bind fun _ => ?_) ?_ <;>
  · exact (leaves_rangeFrom _).bind fun _ => (leaves_expect _).pass fun _ => .done

section Heads

variable (hg : g.Declares (commonStart halike))

include hg

theorem leads_openType_of_commonStart (mods : Modifiers) (start : Nat) :
    Leads (commonStart halike) (.rBrace :: closings) (.rBrace :: closings)
      (openType g mods start) := by
  have hopen : Leads (commonStart halike) (.rBrace :: closings) (.rBrace :: .rBrace :: closings)
      (openType g mods start) := leads_openType hg mods start
  exact hopen.of_commonStart

theorem leads_memberHead (typeName : String) :
    Leads (commonStart halike) (.rBrace :: closings) (.rBrace :: closings)
      (memberHead g typeName) := by
  refine (leads_eat rfl).bind fun _ => .ite (.pure _) (leads_offset.bind fun start => ?_)
  refine (leads_nextIs _).bind fun _ => (leads_nextAre (by decide) fun _ h => by cases h).bind
    fun _ => .ite ?_ ?_
  · exact (leads_eat rfl).bind fun _ => hg.block.bind fun _ => leads_ranged _ _
  · refine (leads_modifiers hg.skips).bind fun mods => leads_nextIsTypeDecl.bind fun _ => .ite ?_ ?_
    · exact (leads_openType_of_commonStart hg mods start).bind fun _ => .pure _
    · refine hg.skips.typeArguments.bind fun _ =>
        (leads_nextIsConstructor typeName).bind fun _ => ?_
      refine .ite (leads_ident.bind fun name => ?_) ((leads_typeRef hg.skips).bind fun type => ?_)
      · exact (leads_openMethod hg mods none name start).bind fun _ => .pure _
      · refine leads_ident.bind fun name => (leads_nextIs _).bind fun _ => .ite ?_ ?_
        · exact (leads_openMethod hg mods (some type) name start).bind fun _ => .pure _
        · exact (hg.fieldsRest mods type start name).bind fun _ => .pure _

theorem leads_topHead? :
    Leads (commonStart halike) (.rBrace :: closings) (.rBrace :: closings) (topHead? g) := by
  refine .isEmpty_bind (.pure _) ((leads_eat rfl).bind fun _ => .ite (.pure _) ?_)
  refine leads_offset.bind fun start => (leads_modifiers hg.skips).bind fun mods => ?_
  exact (leads_openType_of_commonStart hg mods start).bind fun _ => .pure _

theorem leads_topLevel? :
    Leads (commonStart halike) (.rBrace :: closings) (.rBrace :: closings) (topLevel? g) := by
  refine .isEmpty_bind (.pure _) ((leads_eat rfl).bind fun _ => .ite (.pure _) ?_)
  refine leads_offset.bind fun start => (leads_modifiers hg.skips).bind fun mods => ?_
  exact (leads_typeDecl hg mods start).bind fun _ => .pure _

omit hg in
theorem leads_inBody {item : Parser α}
    (h : Leads (commonStart halike) (.rBrace :: closings) (.rBrace :: closings) item) :
    Leads (commonStart halike) (.rBrace :: closings) (.rBrace :: closings) (inBody item) := by
  have hcloses : closingsPast (.rBrace :: closings) Symbol.rBrace = some closings := rfl
  have hnone : Leads (commonStart halike) closings closings (pure (none : Option α)) := .pure _
  exact .eat_bind hcloses hnone.of_commonStart
    (.isEmpty_bind (.fail _) (h.bind fun _ => .pure _))

end Heads

/-! ## The start of a unit -/

section Modifiers

variable {mods : Modifiers} {e mid : Cursor} {package : Option PackageDecl}
  {imports : List ImportDecl}

/-- Where no modifier comes next none is read. -/
theorem modifiers_of_none (hnone : modifier? {} c = .ok (none, c)) :
    modifiers c = .ok ({}, c) := by
  rw [modifiers, grow_eq advances_modifier?, onceMore, bind_of_ok hnone]
  rfl

/-- What is read at the start of a unit before its types is behind the modifiers, or nothing is
read. -/
theorem length_le_of_start (hmods : modifiers c = .ok (mods, e))
    (hpackage : packageDecl? c = .ok (package, mid))
    (himports : many importDecl? mid = .ok (imports, d)) :
    d.rest.length ≤ e.rest.length ∨ d = c := by
  have hd := length_le_of_leaves (fun _ => agree_many leaves_importDecl?) himports
  rw [packageDecl?, get_bind_eq, bind_of_ok hmods] at hpackage
  obtain ⟨eaten, next, heat, hpackage⟩ := of_bind_eq_ok hpackage
  split at hpackage
  next =>
    -- a package declaration is behind the modifiers
    have hnext := length_le_of_leaves (fun _ => leaves_eat _) heat
    have hmid : mid.rest.length ≤ next.rest.length := by
      refine length_le_of_leaves (fun _ => ?_) hpackage
      refine leaves_offset.bind fun _ => leaves_qualifiedName.pass fun _ => ?_
      exact (leaves_rangeFrom _).bind fun _ => (leaves_expect _).pass fun _ => .done
    exact .inl (Nat.le_trans hd (Nat.le_trans hmid hnext))
  next =>
    cases hpackage
    cases hnext : c.nextIs Keyword.importKw with
    | true =>
      have hnone : modifier? {} c = .ok (none, c) := by
        unfold modifier?
        rw [get_bind_eq, eq_of_beq hnext]
        rfl
      cases hmods.symm.trans (modifiers_of_none hnone)
      exact .inl hd
    | false =>
      have hnone : importDecl? c = .ok (none, c) := eat_bind_of_not hnext _
      cases himports.symm.trans (many_of_none hnone)
      exact .inr rfl

/-- The head of a type at the top of a unit is behind its modifiers. -/
theorem length_le_of_topHead? {head : Option OpenType} (hmods : modifiers c = .ok (mods, e))
    (hhead : topHead? unbounded c = .ok (some head, d)) : d.rest.length ≤ e.rest.length := by
  rw [topHead?, get_bind_eq] at hhead
  split at hhead
  next => cases hhead
  next =>
    cases hnext : c.nextIs Symbol.semi with
    | true =>
      have hnone : modifier? {} c = .ok (none, c) := by
        unfold modifier?
        rw [get_bind_eq, eq_of_beq hnext]
        rfl
      cases hmods.symm.trans (modifiers_of_none hnone)
      rw [eat_bind_of_next hnext] at hhead
      cases hhead
      exact c.length_advance_le
    | false =>
      rw [eat_bind_of_not hnext, if_neg Bool.false_ne_true, bind_of_ok (p := offset) rfl,
        bind_of_ok hmods] at hhead
      refine length_le_of_leaves (fun _ => ?_) hhead
      exact (leaves_openType Grammar.readsOn_unbounded mods _).bind fun _ => .done

/-- A type at the top of a unit is behind its modifiers. -/
theorem length_le_of_topLevel? {decls : List TypeDecl} (hmods : modifiers c = .ok (mods, e))
    (htype : topLevel? unbounded c = .ok (some decls, d)) : d.rest.length ≤ e.rest.length := by
  rw [topLevel?_eq] at htype
  obtain ⟨head, mid, hhead, htype⟩ := of_bind_eq_ok htype
  cases head with
  | none => cases htype
  | some head =>
    refine Nat.le_trans ?_ (length_le_of_topHead? hmods hhead)
    exact length_le_of_leaves (fun _ => (leaves_topEnd Grammar.readsOn_unbounded head).map _) htype

/-- **Wherever the reading of a unit comes to** is behind the modifiers at the start of the text,
unless nothing is read. -/
theorem ComesTo.length_le {unit : OpenUnit} {types : List OpenType}
    (h : ComesTo unbounded c unit types d) (hmods : modifiers c = .ok (mods, e)) :
    d.rest.length ≤ e.rest.length ∨ types = [] ∧ d = c := by
  have hreads := Grammar.readsOn_unbounded
  -- a step behind the modifiers
  have hstep : ∀ {β : Type} {p : Parser β} {b : β} {mid next : Cursor}, (∀ n, Leaves n n p) →
      p mid = .ok (b, next) → mid.rest.length ≤ e.rest.length →
        next.rest.length ≤ e.rest.length :=
    fun hp hok hle => Nat.le_trans (length_le_of_leaves hp hok) hle
  induction h with
  | start hpackage himports =>
    exact (length_le_of_start hmods hpackage himports).imp_right fun heq => ⟨rfl, heq⟩
  | topLevel _ htype ih =>
    obtain hle | ⟨-, rfl⟩ := ih
    · exact .inl (hstep (fun _ => leaves_topLevel? hreads) htype hle)
    · exact .inl (length_le_of_topLevel? hmods htype)
  | openTop _ hhead ih =>
    obtain hle | ⟨-, rfl⟩ := ih
    · exact .inl (hstep (fun _ => leaves_topHead? hreads) hhead hle)
    · exact .inl (length_le_of_topHead? hmods hhead)
  | member _ hmember ih =>
    obtain hle | ⟨hnil, -⟩ := ih
    · exact .inl (hstep (fun _ => leaves_inBody (hreads.member _).of_read) hmember hle)
    · cases hnil
  | openInner _ hhead ih =>
    obtain hle | ⟨hnil, -⟩ := ih
    · exact .inl (hstep (fun _ => leaves_inBody (leaves_memberHead hreads _)) hhead hle)
    · cases hnil

end Modifiers

/-! ## The reading of a unit -/

section Units

/-- What the first run reads before the place where the texts part, the second one reads too. -/
theorem LeadsAt.exists_of_ok {p : Parser α} {a : α}
    (hp : LeadsAt (commonStart halike) c c' outer p) (hok : p c = .ok (a, d))
    (hin : after.length ≤ d.rest.length) :
    ∃ d', p c' = .ok (a, d') ∧ (commonStart halike).At outer d d' := by
  have hmeets := hp.meets
  rw [hok] at hmeets
  generalize hrun : p c' = r' at hmeets
  cases hmeets with
  | inside hat => exact ⟨_, rfl, hat⟩
  | leaves _ hout => exact absurd (hout rfl) (Nat.not_lt.2 hin)

variable (hg : unbounded.Declares (commonStart halike)) {unit : OpenUnit} {types : List OpenType}

include hg

/-- The package declaration is the same in both texts, if the modifiers before it are. -/
theorem exists_packageDecl?_eq {package : Option PackageDecl}
    (hc : (commonStart halike).At [.rBrace] c c')
    (hmods : ∀ {mods e}, modifiers c = .ok (mods, e) → after.length ≤ e.rest.length)
    (hpackage : packageDecl? c = .ok (package, d)) (hin : after.length ≤ d.rest.length) :
    ∃ d', packageDecl? c' = .ok (package, d') ∧ (commonStart halike).At [.rBrace] d d' := by
  rw [packageDecl?, get_bind_eq] at hpackage
  obtain ⟨mods, mid, hread, hpackage⟩ := of_bind_eq_ok hpackage
  obtain ⟨mid', hread', hmid⟩ :=
    ((leads_modifiers hg.skips).at_cursor hc).exists_of_ok hread (hmods hread)
  rw [packageDecl?, get_bind_eq, bind_of_ok hread']
  cases hnext : mid.nextIs Keyword.packageKw with
  | true =>
    have hnext' : mid'.nextIs Keyword.packageKw = true := hmid.nextIs_eq _ ▸ hnext
    rw [eat_bind_of_next hnext, if_pos rfl] at hpackage
    rw [eat_bind_of_next hnext', if_pos rfl]
    have hrest : LeadsAt (commonStart halike) mid mid' [.rBrace] (skip 1 >>= fun _ => do
        let start ← offset
        let segments ← qualifiedName
        let range ← rangeFrom start
        let _ ← expect Symbol.semi
        return some (⟨segments, range⟩ : PackageDecl)) := by
      refine .skip_bind hmid (eq_of_beq hnext) rfl (leads_offset.bind fun start => ?_)
      refine leads_qualifiedName.bind fun _ => (leads_rangeFrom start).bind fun _ => ?_
      exact (leads_expect rfl).bind fun _ => .pure _
    exact hrest.exists_of_ok hpackage hin
  | false =>
    have hnext' : mid'.nextIs Keyword.packageKw = false := hmid.nextIs_eq _ ▸ hnext
    rw [eat_bind_of_not hnext] at hpackage
    rw [eat_bind_of_not hnext']
    cases hpackage
    exact ⟨c', rfl, hc⟩

/-- **The reading of both texts comes to the same places** before the place where they part, with
the same declarations open. -/
theorem ComesTo.of_commonStart (h : ComesTo unbounded c unit types d)
    (hc : (commonStart halike).At [.rBrace] c c') (hin : after.length ≤ d.rest.length)
    (hmods : ∀ {mods e}, modifiers c = .ok (mods, e) → after.length ≤ e.rest.length) :
    ∃ d', ComesTo unbounded c' unit types d' ∧ (commonStart halike).At [.rBrace] d d' := by
  -- one step from a place that both runs have come to
  have hstep : ∀ {β : Type} {p : Parser β} {b : β} {mid next : Cursor},
      Leads (commonStart halike) [.rBrace] [.rBrace] p → p mid = .ok (b, next) →
      after.length ≤ next.rest.length → after.length ≤ mid.rest.length ∧
        ∀ {mid'}, (commonStart halike).At [.rBrace] mid mid' →
          ∃ next', p mid' = .ok (b, next') ∧ (commonStart halike).At [.rBrace] next next' :=
    fun hp hok hnext => ⟨Nat.le_trans hnext (hp.onward trivial hok), fun hat =>
      (hp.at_cursor hat).exists_of_ok hok hnext⟩
  induction h with
  | start hpackage himports =>
    obtain ⟨hmid, hstep⟩ := hstep (leads_many advances_importDecl? leads_importDecl?) himports hin
    obtain ⟨mid', hpackage', hat⟩ := exists_packageDecl?_eq hg hc hmods hpackage hmid
    obtain ⟨d', himports', hat'⟩ := hstep hat
    exact ⟨d', .start hpackage' himports', hat'⟩
  | topLevel _ htype ih =>
    obtain ⟨hmid, hstep⟩ := hstep (leads_topLevel? hg) htype hin
    obtain ⟨mid', hcomes, hat⟩ := ih hmid
    obtain ⟨d', htype', hat'⟩ := hstep hat
    exact ⟨d', .topLevel hcomes htype', hat'⟩
  | openTop _ hhead ih =>
    obtain ⟨hmid, hstep⟩ := hstep (leads_topHead? hg) hhead hin
    obtain ⟨mid', hcomes, hat⟩ := ih hmid
    obtain ⟨d', hhead', hat'⟩ := hstep hat
    exact ⟨d', .openTop hcomes hhead', hat'⟩
  | member _ hmember ih =>
    obtain ⟨hmid, hstep⟩ := hstep (leads_inBody (hg.member _)) hmember hin
    obtain ⟨mid', hcomes, hat⟩ := ih hmid
    obtain ⟨d', hmember', hat'⟩ := hstep hat
    exact ⟨d', .member hcomes hmember', hat'⟩
  | openInner _ hhead ih =>
    obtain ⟨hmid, hstep⟩ := hstep (leads_inBody (leads_memberHead hg _)) hhead hin
    obtain ⟨mid', hcomes, hat⟩ := ih hmid
    obtain ⟨d', hhead', hat'⟩ := hstep hat
    exact ⟨d', .openInner hcomes hhead', hat'⟩

end Units

/-- **Two texts with a common start** in which readers that skip tokens keep to braces: wherever the
reading of the first text comes to before they part, and has opened a type, the reading of the
second text comes to with the same declarations open. -/
theorem ComesTo.exists_of_skipsKeepBraces {before : List Token} {textEnd : Nat} {unit : OpenUnit}
    {types : List OpenType} (halike : Alike after after' t later later')
    (hsemi : t.kind ≠ Symbol.semi) (hbrace : t.kind ≠ Symbol.rBrace)
    (hkeeps : skipsKeepBraces (before ++ after) = true)
    (hkeeps' : skipsKeepBraces (before ++ after') = true)
    (h : ComesTo unbounded ⟨before ++ after, 0, textEnd⟩ unit types d) (htypes : types ≠ [])
    (hin : after.length ≤ d.rest.length) :
    ∃ d', ComesTo unbounded ⟨before ++ after', 0, textEnd⟩ unit types d' ∧
      (commonStart halike).At [.rBrace] d d' := by
  have hg : unbounded.Declares (commonStart halike) := Grammar.declares_unbounded hsemi hbrace
  refine h.of_commonStart hg ⟨before, rfl, rfl, rfl, rfl, hkeeps, hkeeps'⟩ hin fun hmods => ?_
  obtain hle | ⟨hnil, -⟩ := h.length_le hmods
  · exact Nat.le_trans hin hle
  · exact absurd hnil htypes

end Parser

end SourceSearch
