import SourceSearch.Proofs.Brackets
import SourceSearch.Proofs.CommonStarts

/-!
# Bodies of methods that are blanked out

A body that does not parse is skipped to the brace that closes it, and a body that parses should end
there too. Then what the reading of a unit comes to behind a body does not depend on the tokens in
it, and to blank them out changes neither whether the unit parses nor any declaration but the body
itself (`parse_blank_body`).

Two things have to be asked for, since some parts of a text are skipped without a look at braces:
type arguments from one angle bracket to the other, the arguments of annotations from one
parenthesis to the other, and the value of a field by a count of brackets of any kind. The reading
has to come to the body with the same declarations open in both texts, so that no comparison in an
earlier body was taken for type arguments which end in this one; and a body which parses has to end
with its own brace, so that no comparison in it was taken for type arguments which end behind it.

Both are so in all texts in which what can be skipped has balanced braces
(`parse_blank_body_of_skipsKeepBraces`): what is read before the body does not depend on it
(`ComesTo.exists_of_skipsKeepBraces`), and a block ends with its own brace (`eq_of_block_eq_ok`).
-/

set_option autoImplicit false

namespace SourceSearch

/-- Whether braces are balanced, of which so many were opened before. -/
def bracesBalanced : (depth : Nat) → List Token → Bool
  | depth, [] => depth == 0
  | depth, t :: rest =>
    if t.kind = Symbol.lBrace then bracesBalanced (depth + 1) rest
    else if t.kind = Symbol.rBrace then depth != 0 && bracesBalanced (depth - 1) rest
    else bracesBalanced depth rest

/-- The declarations that are open at the body of a method. -/
structure OpenBody where
  unit : OpenUnit
  type : OpenType
  outer : List OpenType
  method : OpenMethod

namespace Parser

open Grammar (unbounded)

variable {c d : Cursor} {opening closing : Token} {body after : List Token}

/-- Braces are skipped to the one that closes them. -/
theorem afterClosing_of_bracesBalanced {depth : Nat} (hbody : bracesBalanced depth body = true)
    (hclosing : closing.kind = Symbol.rBrace) :
    afterClosing Symbol.lBrace Symbol.rBrace (depth + 1) (body ++ closing :: after) =
      some (closing.range.stop, after) := by
  induction body generalizing depth with
  | nil =>
    obtain rfl : depth = 0 := by simpa [bracesBalanced] using hbody
    rw [List.nil_append, afterClosing, hclosing, if_neg (by decide), if_pos rfl, if_pos (by decide)]
  | cons t body ih =>
    rw [bracesBalanced] at hbody
    rw [List.cons_append, afterClosing]
    split at hbody
    next hopens => rw [if_pos hopens, ih hbody]
    next hopens =>
      rw [if_neg hopens]
      split at hbody
      next hcloses =>
        simp only [Bool.and_eq_true, bne_iff_ne] at hbody
        obtain ⟨depth, rfl⟩ := Nat.exists_eq_succ_of_ne_zero hbody.1
        rw [if_pos hcloses, if_neg (by omega)]
        exact ih hbody.2
      next hcloses => rw [if_neg hcloses, ih hbody]

/-- **The reading of a unit comes to the body of a method**: to the types around the method, and
from there past the head of the method. -/
def ReachesBody (c : Cursor) (o : OpenBody) (d : Cursor) : Prop :=
  ∃ mid, ComesTo unbounded c o.unit (o.type :: o.outer) mid ∧
    inBody (memberHead unbounded o.type.name.text) mid = .ok (some (.method o.method), d)

/-- From the body of a method on, the unit is read as the body and what stands around the method. -/
theorem ReachesBody.compilationUnit_eq {o : OpenBody} (h : ReachesBody c o d) :
    compilationUnit unbounded c = (do
      let member ← methodEnd unbounded o.method
      let place ← memberPlace unbounded o.unit o.type o.outer
      return place.fill member) d := by
  obtain ⟨mid, hcomes, hhead⟩ := h
  refine hcomes.compilationUnit_eq.trans ?_
  rw [rest, typeRest_eq, bind_assoc]
  refine (bind_of_run_eq (inBody_member_of_head hhead) _).trans ?_
  simp only [memberEnd, map_eq_pure_bind, bind_assoc, pure_bind]
  refine congrFun (bind_congr fun member => ?_) d
  exact (rest_add o.unit o.type o.outer member).trans (map_eq_pure_bind _ _)

variable {lastEnd textEnd : Nat}

/-- A body in braces is a block, or it is skipped. -/
theorem methodBody_of_lBrace {tokens : List Token} (hopening : opening.kind = Symbol.lBrace) :
    methodBody unbounded ⟨opening :: tokens, lastEnd, textEnd⟩ =
      orElse (.block <$> block unbounded) (do
        let start ← offset
        skipBalanced Symbol.lBrace Symbol.rBrace
        return .unparsed (← rangeFrom start)) ⟨opening :: tokens, lastEnd, textEnd⟩ := by
  have hnot : ∀ kind, TokenKind.symbol .lBrace ≠ kind →
      Cursor.nextIs ⟨opening :: tokens, lastEnd, textEnd⟩ kind = false := by
    intro kind hne
    refine beq_eq_false_iff_ne.2 fun heq => hne ?_
    exact hopening.symm.trans (Option.some.inj heq)
  rw [methodBody, eat_bind_of_not (hnot _ (by decide)), if_neg Bool.false_ne_true,
    eat_bind_of_not (hnot _ (by decide)), if_neg Bool.false_ne_true]

/-- **A body is left at the brace that closes it**, if it is left there when it parses. -/
theorem methodBody_of_bracesBalanced (hopening : opening.kind = Symbol.lBrace)
    (hclosing : closing.kind = Symbol.rBrace) (hbody : bracesBalanced 0 body = true)
    (hends : ∀ b d, block unbounded ⟨opening :: (body ++ closing :: after), lastEnd, textEnd⟩ =
      .ok (b, d) → d = ⟨after, closing.range.stop, textEnd⟩) :
    ∃ b, methodBody unbounded ⟨opening :: (body ++ closing :: after), lastEnd, textEnd⟩ =
      .ok (b, ⟨after, closing.range.stop, textEnd⟩) := by
  rw [methodBody_of_lBrace hopening, orElse]
  cases hblock : block unbounded ⟨opening :: (body ++ closing :: after), lastEnd, textEnd⟩ with
  | ok pair =>
    obtain ⟨b, d⟩ := pair
    obtain rfl := hends b d hblock
    rw [map_eq_pure_bind, bind_of_ok hblock]
    exact ⟨_, rfl⟩
  | error e =>
    have hskip : skipBalanced Symbol.lBrace Symbol.rBrace
        ⟨opening :: (body ++ closing :: after), lastEnd, textEnd⟩ =
          .ok ((), ⟨after, closing.range.stop, textEnd⟩) := by
      rw [skipBalanced, bind_of_ok (expect_of_kind hopening),
        get_bind_eq]
      dsimp only
      rw [afterClosing_of_bracesBalanced hbody hclosing]
      rfl
    rw [map_eq_pure_bind, bind_of_error hblock]
    dsimp only
    rw [bind_of_ok (p := offset) rfl, bind_of_ok hskip]
    exact ⟨_, rfl⟩

/-- A body without tokens in it is an empty block. -/
theorem methodBody_of_empty (hopening : opening.kind = Symbol.lBrace)
    (hclosing : closing.kind = Symbol.rBrace) :
    methodBody unbounded ⟨opening :: closing :: after, lastEnd, textEnd⟩ =
      .ok (.block ⟨[], .upTo opening.range.start closing.range.stop⟩,
        ⟨after, closing.range.stop, textEnd⟩) := by
  have hblock : block unbounded ⟨opening :: closing :: after, lastEnd, textEnd⟩ =
      .ok (⟨[], .upTo opening.range.start closing.range.stop⟩,
        ⟨after, closing.range.stop, textEnd⟩) := by
    have hclosed : Cursor.nextIs ⟨closing :: after, opening.range.stop, textEnd⟩
        Symbol.rBrace = true :=
      beq_iff_eq.2 (congrArg some hclosing)
    have hstmts : manyUntil Symbol.rBrace "unterminated block" unbounded.stmt
        ⟨closing :: after, opening.range.stop, textEnd⟩ =
          .ok ([], ⟨after, closing.range.stop, textEnd⟩) :=
      many_of_none (eat_bind_of_next hclosed _)
    rw [block, bind_of_ok (p := offset) rfl, bind_of_ok (expect_of_kind hopening),
      bind_of_ok hstmts]
    rfl
  rw [methodBody_of_lBrace hopening, orElse, map_eq_pure_bind, bind_of_ok hblock]
  rfl

/-- **What the reading comes to behind a body** does not depend on the body: two texts that have the
same open declarations at a body, and the same tokens behind it, have the same trees but for the
body, or none of them has a tree. -/
theorem parse_other_body {text other : String} {tokens tokens' : List Token} {o : OpenBody}
    {d d' e : Cursor} {b b' : MethodBody}
    (htext : tokenize text = .ok tokens) (hother : tokenize other = .ok tokens')
    (hreaches : ReachesBody ⟨tokens, 0, text.utf8ByteSize⟩ o d)
    (hreaches' : ReachesBody ⟨tokens', 0, other.utf8ByteSize⟩ o d')
    (hread : methodBody unbounded d = .ok (b, e)) (hread' : methodBody unbounded d' = .ok (b', e)) :
    (∃ error, parse text = .error error ∧ parse other = .error error) ∨
      ∃ place : MemberPlace,
        parse text = .ok (place.fill (o.method.close (e.rangeFrom o.method.start) b)) ∧
        parse other = .ok (place.fill (o.method.close (e.rangeFrom o.method.start) b')) := by
  -- what is read behind a body, whatever the body is
  have hrest : ∀ {c d : Cursor} {b : MethodBody}, ReachesBody c o d →
      methodBody unbounded d = .ok (b, e) → compilationUnit unbounded c = (do
        let place ← memberPlace unbounded o.unit o.type o.outer
        return place.fill (o.method.close (e.rangeFrom o.method.start) b)) e := by
    intro c d b hreaches hread
    rw [hreaches.compilationUnit_eq, methodEnd, bind_assoc, bind_of_ok hread]
    rfl
  rw [parse_eq_unbounded htext, parse_eq_unbounded hother, StateT.run'_eq, StateT.run'_eq,
    StateT.run, StateT.run, hrest hreaches hread, hrest hreaches' hread']
  cases hplace : memberPlace unbounded o.unit o.type o.outer e with
  | error error =>
    rw [bind_of_error hplace, bind_of_error hplace]
    exact .inl ⟨error, rfl, rfl⟩
  | ok pair =>
    rw [bind_of_ok hplace, bind_of_ok hplace]
    exact .inr ⟨pair.1, rfl, rfl⟩

/-- **A body that is blanked out changes nothing but itself.** Let the braces between those of a
method's body be balanced, let the reading come to this body with the same open declarations whether
the body is blanked out or not, and let the body end with its own brace if it parses. Then neither
text parses, for the same reason, or both do, and their trees are the same but for the body of this
method. -/
theorem parse_blank_body {text blank : String} {before body after : List Token}
    {opening closing : Token} {o : OpenBody} {lastEnd lastEnd' : Nat}
    (htext : tokenize text = .ok (before ++ opening :: (body ++ closing :: after)))
    (hblank : tokenize blank = .ok (before ++ opening :: closing :: after))
    (hsize : blank.utf8ByteSize = text.utf8ByteSize)
    (hopening : opening.kind = Symbol.lBrace) (hclosing : closing.kind = Symbol.rBrace)
    (hbody : bracesBalanced 0 body = true)
    (hreaches : ReachesBody ⟨before ++ opening :: (body ++ closing :: after), 0,
      text.utf8ByteSize⟩ o ⟨opening :: (body ++ closing :: after), lastEnd, text.utf8ByteSize⟩)
    (hreaches' : ReachesBody ⟨before ++ opening :: closing :: after, 0, text.utf8ByteSize⟩ o
      ⟨opening :: closing :: after, lastEnd', text.utf8ByteSize⟩)
    (hends : ∀ b d, block unbounded
      ⟨opening :: (body ++ closing :: after), lastEnd, text.utf8ByteSize⟩ = .ok (b, d) →
        d = ⟨after, closing.range.stop, text.utf8ByteSize⟩) :
    (∃ e, parse text = .error e ∧ parse blank = .error e) ∨
      ∃ (place : MemberPlace) (b : MethodBody),
        parse text = .ok (place.fill
          (o.method.close (.upTo o.method.start closing.range.stop) b)) ∧
        parse blank = .ok (place.fill
          (o.method.close (.upTo o.method.start closing.range.stop)
            (.block ⟨[], .upTo opening.range.start closing.range.stop⟩))) := by
  obtain ⟨b, hread⟩ := methodBody_of_bracesBalanced hopening hclosing hbody hends
  have hread' : methodBody unbounded ⟨opening :: closing :: after, lastEnd', text.utf8ByteSize⟩ =
      .ok (.block ⟨[], .upTo opening.range.start closing.range.stop⟩,
        ⟨after, closing.range.stop, text.utf8ByteSize⟩) :=
    methodBody_of_empty hopening hclosing
  obtain hfails | ⟨place, hparse, hparse'⟩ :=
    parse_other_body htext hblank hreaches (hsize ▸ hreaches') hread hread'
  · exact .inl hfails
  · exact .inr ⟨place, b, hparse, hparse'⟩

/-! ## Bodies in texts whose skips keep to braces -/

/-- Balanced braces leave the brace around them to be closed. -/
theorem braceTurns_of_bracesBalanced {depth : Nat} (h : bracesBalanced depth body = true) :
    braceTurns (List.replicate depth .rBrace ++ [.rBrace]) body = some [.rBrace] := by
  induction body generalizing depth with
  | nil =>
    obtain rfl : depth = 0 := by simpa [bracesBalanced] using h
    rfl
  | cons t body ih =>
    obtain ⟨others, hclosings⟩ : ∃ others,
        List.replicate depth Symbol.rBrace ++ [.rBrace] = .rBrace :: others := by
      cases depth <;> exact ⟨_, rfl⟩
    rw [bracesBalanced] at h
    rw [braceTurns_cons]
    split at h
    next hopens =>
      rw [hclosings, braceTurn, if_pos hopens, ← hclosings]
      exact ih h
    next hopens =>
      split at h
      next hcloses =>
        simp only [Bool.and_eq_true, bne_iff_ne] at h
        obtain ⟨depth, rfl⟩ := Nat.exists_eq_succ_of_ne_zero h.1
        rw [List.replicate_succ, List.cons_append, braceTurn, if_neg hopens, if_pos hcloses]
        exact ih h.2
      next hcloses =>
        rw [hclosings, braceTurn_of_ne hopens hcloses fun _ => (by decide : Symbol.rBrace ≠ .semi),
          ← hclosings]
        exact ih h

/-- Braces are closed at one place only. -/
theorem eq_of_braceTurns_eq_nil {closings : List Symbol} {closed closed' rest rest' : List Token}
    (h : closed ++ rest = closed' ++ rest') (hclosed : braceTurns closings closed = some [])
    (hclosed' : braceTurns closings closed' = some []) : rest = rest' := by
  obtain ⟨more, rfl, rfl⟩ | ⟨more, rfl, rfl⟩ := List.append_eq_append_iff.1 h
  · rw [braceTurns_append, hclosed] at hclosed'
    obtain ⟨rfl, -⟩ := braceTurns_nil_eq_some_iff.1 hclosed'
    rfl
  · rw [braceTurns_append, hclosed'] at hclosed
    obtain ⟨rfl, -⟩ := braceTurns_nil_eq_some_iff.1 hclosed
    rfl

/-- Where no token is gone past the cursor stays. -/
theorem skip_eq_self {n : Nat} (h : (c.skip n).rest = c.rest) : c.skip n = c := by
  cases hrest : c.rest with
  | nil =>
    clear h
    have hadvance : c.advance = c := by rw [Cursor.advance, hrest]
    induction n with
    | zero => rfl
    | succ n ih => rw [Cursor.skip, hadvance, ih]
  | cons t rest =>
    cases n with
    | zero => rfl
    | succ n =>
      have hlength := congrArg List.length h
      rw [Cursor.rest_skip, List.length_drop, hrest, List.length_cons] at hlength
      omega

/-- Where the tokens behind a token are left, the reading has gone past this one last. -/
theorem eq_of_onward {tokens : List Token} {last : Token} (hrest : c.rest = tokens ++ last :: after)
    (honward : c.Onward d) (hd : d.rest = after) : d = ⟨after, last.range.stop, c.textEnd⟩ := by
  obtain ⟨n, rfl⟩ := honward
  have hlength := congrArg List.length hd
  rw [Cursor.rest_skip, List.length_drop, hrest, List.length_append, List.length_cons] at hlength
  obtain ⟨m, rfl⟩ : ∃ m, n = tokens.length + 1 + m := ⟨n - (tokens.length + 1), by omega⟩
  have hlast : c.skip (tokens.length + 1) = ⟨after, last.range.stop, c.textEnd⟩ := by
    rw [← Cursor.skip_skip, Cursor.skip_length hrest]
    rfl
  rw [← Cursor.skip_skip, hlast] at hd ⊢
  exact skip_eq_self hd

/-- **A body that parses ends with its own brace**, if the readers that skip tokens keep to
braces. -/
theorem eq_of_block_eq_ok {lastEnd textEnd : Nat} {b : Block}
    (hopening : opening.kind = Symbol.lBrace) (hclosing : closing.kind = Symbol.rBrace)
    (hbody : bracesBalanced 0 body = true)
    (hkeeps : skipsKeepBraces (body ++ closing :: after) = true)
    (hok : block unbounded ⟨opening :: (body ++ closing :: after), lastEnd, textEnd⟩ =
      .ok (b, d)) : d = ⟨after, closing.range.stop, textEnd⟩ := by
  rw [block_eq, bind_of_ok (p := offset) rfl, bind_of_ok (expect_of_kind hopening)] at hok
  have hleads : ∀ {behind behind' : List Token} {final : List Symbol}
      {hfinal : final = [] ∨ behind = [] ∧ behind' = []} (start : Nat),
      Leads (braceRegion behind behind' final hfinal) [.rBrace] [] (blockRest unbounded start) :=
    leads_blockRest (Grammar.keepsTo_unbounded id braceRegion_skips)
  obtain ⟨closed, hrest, hclosed⟩ := exists_closed_of_eq_ok (.inl rfl) (hleads _) hkeeps hok
  have hown : braceTurns [.rBrace] (body ++ [closing]) = some [] := by
    have hturns := braceTurns_of_bracesBalanced hbody
    rw [List.replicate_zero, List.nil_append] at hturns
    rw [braceTurns_append, hturns, Option.bind_some, braceTurns_cons, hclosing]
    rfl
  have hafter : after = d.rest :=
    eq_of_braceTurns_eq_nil (by rw [← hrest, List.append_assoc]; rfl) hown hclosed
  have honward := ((leaves_blockRest Grammar.readsOn_unbounded _).at_cursor
    (Nat.lt_succ_self _)).onward hok
  exact eq_of_onward rfl honward hafter.symm

/-- **A body that is blanked out changes nothing but itself**, in texts in which readers that skip
tokens keep to braces: let the braces between those of a method's body be balanced, and let the
reading of the text come to this body. Then the text and the one with the body blanked out both fail
to parse, for the same reason, or both parse, and their trees are the same but for the body of this
method. -/
theorem parse_blank_body_of_skipsKeepBraces {text blank : String} {before body after : List Token}
    {opening closing : Token} {o : OpenBody} {lastEnd : Nat}
    (htext : tokenize text = .ok (before ++ opening :: (body ++ closing :: after)))
    (hblank : tokenize blank = .ok (before ++ opening :: closing :: after))
    (hsize : blank.utf8ByteSize = text.utf8ByteSize)
    (hopening : opening.kind = Symbol.lBrace) (hclosing : closing.kind = Symbol.rBrace)
    (hbody : bracesBalanced 0 body = true)
    (hkeeps : skipsKeepBraces (before ++ opening :: (body ++ closing :: after)) = true)
    (hkeeps' : skipsKeepBraces (before ++ opening :: closing :: after) = true)
    (hreaches : ReachesBody ⟨before ++ opening :: (body ++ closing :: after), 0,
      text.utf8ByteSize⟩ o ⟨opening :: (body ++ closing :: after), lastEnd, text.utf8ByteSize⟩) :
    (∃ e, parse text = .error e ∧ parse blank = .error e) ∨
      ∃ (place : MemberPlace) (b : MethodBody),
        parse text = .ok (place.fill
          (o.method.close (.upTo o.method.start closing.range.stop) b)) ∧
        parse blank = .ok (place.fill
          (o.method.close (.upTo o.method.start closing.range.stop)
            (.block ⟨[], .upTo opening.range.start closing.range.stop⟩))) := by
  obtain ⟨mid, hcomes, hhead⟩ := hreaches
  have halike : Alike (opening :: (body ++ closing :: after)) (opening :: closing :: after) opening
      (body ++ closing :: after) (closing :: after) := ⟨rfl, rfl, .inl (.inl hopening)⟩
  have hsemi : opening.kind ≠ Symbol.semi := by rw [hopening]; decide
  have hbrace : opening.kind ≠ Symbol.rBrace := by rw [hopening]; decide
  have hleads : Leads (commonStart halike) [.rBrace] [.rBrace]
      (inBody (memberHead unbounded o.type.name.text)) :=
    leads_inBody (leads_memberHead (Grammar.declares_unbounded hsemi hbrace) _)
  obtain ⟨mid', hcomes', hat⟩ := hcomes.exists_of_skipsKeepBraces halike hsemi hbrace hkeeps hkeeps'
    (List.cons_ne_nil _ _) (hleads.onward trivial hhead)
  obtain ⟨d', hhead', left, hleft, hrest', hend, htextEnd, -⟩ :=
    (hleads.at_cursor hat).exists_of_ok hhead (Nat.le_refl _)
  obtain rfl : left = [] := List.append_left_eq_self.1 hleft.symm
  have hd' : d' = ⟨opening :: closing :: after, lastEnd, text.utf8ByteSize⟩ := by
    obtain ⟨rest, end', textEnd⟩ := d'
    obtain rfl : rest = opening :: closing :: after := hrest'
    obtain rfl : end' = lastEnd := hend
    obtain rfl : textEnd = text.utf8ByteSize := htextEnd
    rfl
  have hbody' : skipsKeepBraces (body ++ closing :: after) = true := by
    rw [← List.singleton_append, ← List.append_assoc] at hkeeps
    exact skipsKeepBraces_of_suffix hkeeps
  exact parse_blank_body htext hblank hsize hopening hclosing hbody ⟨mid, hcomes, hhead⟩
    ⟨mid', hcomes', hd' ▸ hhead'⟩ fun _ _ => eq_of_block_eq_ok hopening hclosing hbody hbody'

/-! ## A body out of the grammar -/

/-- A class with a method whose body does not parse. -/
def brokenText : String := "class A \x7b void m() \x7b if \x7b ) \x7d \x7d int g; \x7d"

/-- The same class, the body blanked out. -/
def blankText : String := "class A \x7b void m() \x7b          \x7d int g; \x7d"

/-- The tokens before the body. -/
def brokenHead : List Token :=
  [tokenAt Keyword.classKw "class" 0, tokenAt .ident "A" 6, tokenAt Symbol.lBrace "\x7b" 8,
    tokenAt (.primitive .void) "void" 10, tokenAt .ident "m" 15, tokenAt Symbol.lParen "(" 16,
    tokenAt Symbol.rParen ")" 17]

/-- The tokens of the body. -/
def brokenBody : List Token :=
  [tokenAt Keyword.ifKw "if" 21, tokenAt Symbol.lBrace "\x7b" 24, tokenAt Symbol.rParen ")" 26,
    tokenAt Symbol.rBrace "\x7d" 28]

/-- The tokens behind the body. -/
def brokenTail : List Token :=
  [tokenAt (.primitive .int) "int" 32, tokenAt .ident "g" 36, tokenAt Symbol.semi ";" 37,
    tokenAt Symbol.rBrace "\x7d" 39]

/-- What is open at the body. -/
def brokenOpen : OpenBody where
  unit := ⟨none, [], []⟩
  type := ⟨.classDecl, {}, ⟨"A", .upTo 6 7⟩, none, [], 0, []⟩
  outer := []
  method := ⟨{}, some ⟨["void"], 0, .upTo 10 14⟩, ⟨"m", .upTo 15 16⟩, [], [], 10⟩

/-- The body is reached whatever stands in it. -/
theorem reachesBody_brokenOpen (tokens : List Token) :
    ReachesBody ⟨brokenHead ++ tokenAt Symbol.lBrace "\x7b" 19 :: tokens, 0, 40⟩ brokenOpen
      ⟨tokenAt Symbol.lBrace "\x7b" 19 :: tokens, 18, 40⟩ := by
  have hstart : ComesTo unbounded ⟨brokenHead ++ tokenAt Symbol.lBrace "\x7b" 19 :: tokens, 0, 40⟩
      brokenOpen.unit [] ⟨brokenHead ++ tokenAt Symbol.lBrace "\x7b" 19 :: tokens, 0, 40⟩ :=
    .start rfl rfl
  have htype : ComesTo unbounded ⟨brokenHead ++ tokenAt Symbol.lBrace "\x7b" 19 :: tokens, 0, 40⟩
      brokenOpen.unit [brokenOpen.type]
      ⟨brokenHead.drop 3 ++ tokenAt Symbol.lBrace "\x7b" 19 :: tokens, 9, 40⟩ :=
    .openTop hstart rfl
  exact ⟨_, htype, rfl⟩

/-- **A body that does not parse**, blanked out: the method stays what it is, and so does the field
behind it. -/
theorem parse_brokenText_and_blankText : ∃ (place : MemberPlace) (b : MethodBody),
    parse brokenText = .ok (place.fill (brokenOpen.method.close (.upTo 10 31) b)) ∧
      parse blankText = .ok (place.fill
        (brokenOpen.method.close (.upTo 10 31) (.block ⟨[], .upTo 19 31⟩))) := by
  have htext : tokenize brokenText = .ok (brokenHead ++ tokenAt Symbol.lBrace "\x7b" 19 ::
      (brokenBody ++ tokenAt Symbol.rBrace "\x7d" 30 :: brokenTail)) := by
    decide +kernel
  have hblank : tokenize blankText = .ok (brokenHead ++ tokenAt Symbol.lBrace "\x7b" 19 ::
      tokenAt Symbol.rBrace "\x7d" 30 :: brokenTail) := by
    decide +kernel
  have hparses : (parse brokenText).toOption.isSome = true := by decide +kernel
  obtain ⟨e, hfails, -⟩ | hok := parse_blank_body_of_skipsKeepBraces htext hblank rfl rfl rfl
    (by decide) (by decide) (by decide) (reachesBody_brokenOpen _)
  · rw [hfails] at hparses
    cases hparses
  · exact hok

end Parser

end SourceSearch
