import SourceSearch.Proofs.LoopRounds

/-!
# Regions of a text

Two texts may have some tokens in common and differ in what stands behind these. Here two runs of a
reader are compared which start at the same of the common tokens, the `Region`: they answer the same
and come to the same token of the region, or both of them fail (`Parser.Leads`). What has to be
known of a place for this are the brackets that are to be closed there; a region says by `inside`
which tokens may be left where some brackets are open.

A region that is left where its last bracket closes keeps every run inside, since no reader goes
past a bracket that it has not opened. In a region that is `loose` this cannot be said. There the
first run may leave the region, and then nothing is said about the second.

With both texts the same, this is a statement about one run: where it comes to.

There is one rule for every combinator, and a rule about a reader follows its text from one line to
the next.
-/

set_option autoImplicit false

namespace SourceSearch

/-- What is still to be closed behind a token that a reader goes past, the innermost bracket first.
A semicolon or a comma closes what is to end with it, and has to stand in brackets otherwise. -/
def closingsPast : List Symbol → TokenKind → Option (List Symbol)
  | [] => fun _ => none
  | closing :: closings => fun
    | .symbol .lParen => some (.rParen :: closing :: closings)
    | .symbol .lBracket => some (.rBracket :: closing :: closings)
    | .symbol .lBrace => some (.rBrace :: closing :: closings)
    | .symbol .rParen => if closing = .rParen then some closings else none
    | .symbol .rBracket => if closing = .rBracket then some closings else none
    | .symbol .rBrace => if closing = .rBrace then some closings else none
    | .symbol .comma => if closing = .comma then some closings else some (closing :: closings)
    | .symbol .semi =>
      match closing :: closings with
      | .semi :: _ => some closings
      | .rBrace :: _ | .rParen :: .rBrace :: _ => some (closing :: closings)
      | _ => none
    | _ => some (closing :: closings)

/-- A semicolon ends what is to end with it, or it stands in braces, or in the parentheses of a loop
in them. -/
theorem of_closingsPast_semi {closing : Symbol} {closings inner : List Symbol}
    (h : closingsPast (closing :: closings) Symbol.semi = some inner) :
    (closing = .semi ∧ inner = closings) ∨ inner = closing :: closings ∧
      (closing = .rBrace ∨ closing = .rParen ∧ ∃ outer, closings = .rBrace :: outer) := by
  change (match closing :: closings with
    | .semi :: _ => some closings
    | .rBrace :: _ | .rParen :: .rBrace :: _ => some (closing :: closings)
    | _ => none) = some inner at h
  split at h
  next heq =>
    cases h
    exact .inl ⟨(List.cons.inj heq).1, rfl⟩
  next heq =>
    cases h
    exact .inr ⟨rfl, .inl (List.cons.inj heq).1⟩
  next heq =>
    cases h
    exact .inr ⟨rfl, .inr ⟨(List.cons.inj heq).1, _, (List.cons.inj heq).2⟩⟩
  next => cases h

/-- Behind such a token no reader looks at the next one. -/
def TokenKind.IsBorder (kind : TokenKind) : Prop :=
  kind = Symbol.lBrace ∨ kind = Symbol.rBrace ∨ kind = Symbol.semi

instance (kind : TokenKind) : Decidable kind.IsBorder :=
  inferInstanceAs (Decidable (_ ∨ _ ∨ _))

/-- Two lists of tokens that no reader of declarations can tell apart by a look ahead: they start
with the same token, and what stands behind it is not looked at. -/
structure Alike (tokens tokens' : List Token) (t : Token) (later later' : List Token) : Prop where
  eq : tokens = t :: later
  eq' : tokens' = t :: later'
  hidden : t.kind.IsBorder ∨ t.kind = .ident ∧
    later.head?.map (·.kind) ≠ some (.symbol .lParen) ∧
      later'.head?.map (·.kind) ≠ some (.symbol .lParen)

/-- The second of two tokens that come next. -/
theorem Cursor.kind?_advance (c : Cursor) : c.advance.kind? = c.kindAt 1 := by
  cases hrest : c.rest with
  | nil => simp [Cursor.advance, Cursor.kind?, Cursor.kindAt, hrest]
  | cons t rest =>
    rw [Cursor.advance_of_rest hrest, Cursor.kindAt, hrest, List.getElem?_cons_succ,
      ← List.head?_eq_getElem?]
    rfl

/-- Tokens that two texts have in common, with what stands behind them in each text. `inside` says
which tokens of the region may be left where some brackets are to be closed. -/
structure Region where
  after : List Token
  after' : List Token
  inside : (closings : List Symbol) → (left : List Token) → Prop
  loose : Prop
  past : ∀ {closings inner : List Symbol} {t : Token} {left : List Token},
    inside closings (t :: left) → closingsPast closings t.kind = some inner → inside inner left
  ends : ¬loose → ∀ {closing : Symbol} {closings : List Symbol}, inside (closing :: closings) [] →
    after = [] ∧ after' = []
  seals : ¬loose → after' = after ∨ ∀ {closing : Symbol} {closings : List Symbol}
    {left : List Token}, inside (closing :: closings) left →
      ∃ last ∈ left.getLast?, last.kind.IsBorder
  looks : loose → ∃ t later later', Alike after after' t later later'

namespace Region

variable {v : Region} {c c' : Cursor} {closing : Symbol} {closings inner : List Symbol}
  {kind : TokenKind}

/-- The cursors stand at the same token of the region in the two texts, where the listed brackets
are to be closed. -/
def At (v : Region) (closings : List Symbol) (c c' : Cursor) : Prop :=
  ∃ left, c.rest = left ++ v.after ∧ c'.rest = left ++ v.after' ∧ c'.lastEnd = c.lastEnd ∧
    c'.textEnd = c.textEnd ∧ v.inside closings left

theorem At.lastEnd_eq (h : v.At closings c c') : c'.lastEnd = c.lastEnd := by
  obtain ⟨-, -, -, hend, -⟩ := h
  exact hend

/-! ## What is seen of the next tokens -/

/-- In both texts the same token comes next, or none, and the same token behind it, or it is not
looked at. -/
theorem At.exists_heads (h : v.At (closing :: closings) c c') :
    (c.rest = [] ∧ c'.rest = []) ∨ ∃ t later later', c.rest = t :: later ∧ c'.rest = t :: later' ∧
      (later'.head? = later.head? ∨ t.kind.IsBorder ∨ v.loose ∧ t.kind = .ident ∧
        later.head?.map (·.kind) ≠ some (.symbol .lParen) ∧
          later'.head?.map (·.kind) ≠ some (.symbol .lParen)) := by
  obtain ⟨left, hrest, hrest', -, -, hinside⟩ := h
  by_cases hloose : v.loose
  · obtain ⟨t, later, later', halike⟩ := v.looks hloose
    rw [halike.eq] at hrest
    rw [halike.eq'] at hrest'
    match left with
    | [] => exact .inr ⟨t, _, _, hrest, hrest', .inr (halike.hidden.imp_right fun h => ⟨hloose, h⟩)⟩
    | [u] => exact .inr ⟨u, _, _, hrest, hrest', .inl rfl⟩
    | u :: w :: left => exact .inr ⟨u, _, _, hrest, hrest', .inl rfl⟩
  · match left with
    | [] =>
      obtain ⟨hafter, hafter'⟩ := v.ends hloose hinside
      rw [hafter] at hrest
      rw [hafter'] at hrest'
      exact .inl ⟨hrest, hrest'⟩
    | [u] =>
      refine .inr ⟨u, _, _, hrest, hrest', ?_⟩
      obtain heq | hsealed := v.seals hloose
      · exact .inl (by rw [heq])
      · obtain ⟨last, ⟨⟩, hborder⟩ := hsealed hinside
        exact .inr (.inl hborder)
    | u :: w :: left => exact .inr ⟨u, _, _, hrest, hrest', .inl rfl⟩

theorem At.head?_eq (h : v.At (closing :: closings) c c') : c'.rest.head? = c.rest.head? := by
  obtain ⟨hrest, hrest'⟩ | ⟨t, later, later', hrest, hrest', -⟩ := h.exists_heads
  · rw [hrest, hrest']
  · rw [hrest, hrest']
    rfl

theorem At.kind?_eq (h : v.At (closing :: closings) c c') : c'.kind? = c.kind? := by
  rw [Cursor.kind?, Cursor.kind?, h.head?_eq]

theorem At.nextIs_eq (h : v.At (closing :: closings) c c') (kind : TokenKind) :
    c'.nextIs kind = c.nextIs kind := by
  rw [Cursor.nextIs, Cursor.nextIs, h.kind?_eq]

theorem At.isEmpty_eq (h : v.At (closing :: closings) c c') : c'.rest.isEmpty = c.rest.isEmpty := by
  obtain ⟨hrest, hrest'⟩ | ⟨t, later, later', hrest, hrest', -⟩ := h.exists_heads <;>
  · rw [hrest, hrest']
    try rfl

theorem At.offset_eq (h : v.At (closing :: closings) c c') : c'.offset = c.offset := by
  obtain ⟨hrest, hrest'⟩ | ⟨t, later, later', hrest, hrest', -⟩ := h.exists_heads
  · obtain ⟨-, -, -, -, htext, -⟩ := h
    rw [Cursor.offset, Cursor.offset, hrest, hrest', htext]
  · rw [Cursor.offset, Cursor.offset, hrest, hrest']

/-- Of two tokens that are looked at together both come next in both texts, or in neither. -/
theorem At.nextAre_eq (h : v.At (closing :: closings) c c') {first second : TokenKind}
    (hborder : ¬first.IsBorder) (hname : v.loose → first = .ident → second = Symbol.lParen) :
    (c'.nextIs first && c'.kindAt 1 == some second) =
      (c.nextIs first && c.kindAt 1 == some second) := by
  rw [h.nextIs_eq]
  cases hfirst : c.nextIs first with
  | false => rfl
  | true =>
    rw [Bool.true_and, Bool.true_and]
    have hkind : c.kind? = some first := eq_of_beq hfirst
    obtain ⟨hrest, -⟩ | ⟨t, later, later', hrest, hrest', hlater⟩ := h.exists_heads
    · rw [Cursor.kind?, hrest] at hkind
      cases hkind
    · rw [Cursor.kind?, hrest] at hkind
      obtain rfl : t.kind = first := Option.some.inj hkind
      have hone : ∀ {d : Cursor} {tokens}, d.rest = t :: tokens →
          d.kindAt 1 = tokens.head?.map (·.kind) := by
        intro d tokens hd
        rw [Cursor.kindAt, hd, List.getElem?_cons_succ, List.head?_eq_getElem?]
      rw [hone hrest, hone hrest']
      obtain heq | hborder' | ⟨hloose, hident, hnot, hnot'⟩ := hlater
      · rw [heq]
      · exact absurd hborder' hborder
      · rw [hname hloose hident, beq_eq_false_iff_ne.2 hnot, beq_eq_false_iff_ne.2 hnot']

/-- The token behind the next one is the same in both texts where it is looked at. -/
theorem At.kindAt_one_eq (h : v.At (closing :: closings) c c') (hkind : c.kind? = some kind)
    (hborder : ¬kind.IsBorder) (hname : v.loose → kind ≠ .ident) : c'.kindAt 1 = c.kindAt 1 := by
  have hsame : ∀ second, (c'.kindAt 1 == some second) = (c.kindAt 1 == some second) := by
    intro second
    have hnext : c.nextIs kind = true := beq_iff_eq.2 hkind
    have hboth : (c'.nextIs kind && c'.kindAt 1 == some second) =
        (c.nextIs kind && c.kindAt 1 == some second) :=
      h.nextAre_eq hborder fun hl hident => absurd hident (hname hl)
    rwa [h.nextIs_eq, hnext, Bool.true_and, Bool.true_and] at hboth
  cases hone : c.kindAt 1 with
  | some second => exact eq_of_beq ((hsame second).trans (by rw [hone, beq_self_eq_true]))
  | none =>
    cases hone' : c'.kindAt 1 with
    | none => rfl
    | some second =>
      have := hsame second
      rw [hone, hone', beq_self_eq_true] at this
      cases this

/-- Where the texts are the same behind the region both runs are. -/
theorem At.eq_of_after_eq (h : v.At closings c c') (hafter : v.after' = v.after) : c' = c := by
  obtain ⟨left, hrest, hrest', hend, htext, -⟩ := h
  rw [hafter, ← hrest] at hrest'
  cases c
  cases c'
  simp_all

/-- In a region that is not loose the texts are the same, or they differ behind a token that nothing
is looked at behind. -/
theorem At.eq_or_sealed (hv : ¬v.loose) (h : v.At (closing :: closings) c c') :
    c' = c ∨ ∃ left, c.rest = left ++ v.after ∧ c'.rest = left ++ v.after' ∧
      ∃ last ∈ left.getLast?, last.kind.IsBorder := by
  obtain heq | hsealed := v.seals hv
  · exact .inl (h.eq_of_after_eq heq)
  · obtain ⟨left, hrest, hrest', -, -, hinside⟩ := h
    exact .inr ⟨left, hrest, hrest', hsealed hinside⟩

/-- The token behind the next one. -/
theorem At.getElem?_one_eq (hv : ¬v.loose) (h : v.At (closing :: closings) c c')
    (hkind : c.kind? = some kind) (hborder : ¬kind.IsBorder) : c'.rest[1]? = c.rest[1]? := by
  obtain rfl | ⟨left, hrest, hrest', last, hlast, hlast'⟩ := h.eq_or_sealed hv
  · rfl
  · rw [Cursor.kind?, hrest] at hkind
    obtain _ | ⟨t, _ | ⟨u, left⟩⟩ := left
    · cases hlast
    · cases hlast
      cases hkind
      exact absurd hlast' hborder
    · rw [hrest, hrest']
      rfl

/-- The token behind the next two. -/
theorem At.getElem?_two_eq (hv : ¬v.loose) (h : v.At (closing :: closings) c c')
    (hkind : c.kind? = some kind) (hborder : ¬kind.IsBorder) {second : TokenKind}
    (hsecond : c.kindAt 1 = some second) (hborder' : ¬second.IsBorder) :
    c'.rest[2]? = c.rest[2]? := by
  obtain rfl | ⟨left, hrest, hrest', last, hlast, hlast'⟩ := h.eq_or_sealed hv
  · rfl
  · rw [Cursor.kind?, hrest] at hkind
    rw [Cursor.kindAt, hrest] at hsecond
    obtain _ | ⟨t, _ | ⟨u, _ | ⟨w, left⟩⟩⟩ := left
    · cases hlast
    · cases hlast
      cases hkind
      exact absurd hlast' hborder
    · cases hlast
      cases hsecond
      exact absurd hlast' hborder'
    · rw [hrest, hrest']
      rfl

/-! ## Tokens that are read -/

/-- The first run has left the region. -/
def Outside (v : Region) (c : Cursor) : Prop := c.rest.length < v.after.length

/-- **To read a token** opens a bracket, closes one, or neither, and the runs stay at the same
token. Only a region that is loose can be left. -/
theorem At.advance (h : v.At closings c c') (hnext : c.kind? = some kind)
    (hkind : closingsPast closings kind = some inner) :
    v.At inner c.advance c'.advance ∨ v.loose ∧ v.Outside c.advance := by
  obtain ⟨left, hrest, hrest', hend, htext, hinside⟩ := h
  cases left with
  | cons t left =>
    have ht : t.kind = kind := by
      rw [Cursor.kind?, hrest] at hnext
      exact Option.some.inj hnext
    rw [Cursor.advance_of_rest hrest, Cursor.advance_of_rest hrest']
    exact .inl ⟨left, rfl, rfl, rfl, htext, v.past hinside (ht ▸ hkind)⟩
  | nil =>
    obtain ⟨closing, closings, rfl⟩ : ∃ first others, closings = first :: others := by
      cases closings with
      | nil => cases hkind
      | cons first others => exact ⟨_, _, rfl⟩
    have hne := Cursor.rest_ne_nil_of_kind? hnext
    by_cases hloose : v.loose
    · refine .inr ⟨hloose, ?_⟩
      have hlt := Cursor.length_advance_lt hne
      rwa [hrest] at hlt
    · rw [hrest, (v.ends hloose hinside).1] at hne
      exact absurd rfl hne

/-- A region that is not loose is not left. -/
theorem At.advance_of_kind? (hv : ¬v.loose) (h : v.At closings c c') (hnext : c.kind? = some kind)
    (hkind : closingsPast closings kind = some inner) : v.At inner c.advance c'.advance :=
  (h.advance hnext hkind).resolve_right fun hout => hv hout.1

theorem At.advance_of_nextIs (hv : ¬v.loose) (h : v.At closings c c')
    (hnext : c.nextIs kind = true) (hkind : closingsPast closings kind = some inner) :
    v.At inner c.advance c'.advance :=
  h.advance_of_kind? hv (eq_of_beq hnext) hkind

/-- One token more is read. -/
theorem At.skip_succ {n : Nat} (hv : ¬v.loose) (h : v.At closings (c.skip n) (c'.skip n))
    (hnext : c.kindAt n = some kind) (hkind : closingsPast closings kind = some inner) :
    v.At inner (c.skip (n + 1)) (c'.skip (n + 1)) := by
  have hnext' : (c.skip n).kind? = some kind := by
    rw [Cursor.kind?, Cursor.rest_skip, List.head?_drop]
    exact hnext
  rw [← Cursor.skip_skip, ← Cursor.skip_skip]
  exact h.advance_of_kind? hv hnext' hkind

end Region

namespace Parser

variable {α β : Type} {v : Region} {c c' : Cursor} {closing : Symbol}
  {closings inner mid outer : List Symbol} {kind : TokenKind}

/-- To come back to a cursor is to read from there. -/
theorem set_bind_eq (back : Cursor) (p : Parser α) (c : Cursor) :
    (set back >>= fun _ => p) c = p back := rfl

/-! ## Two runs -/

/-- Two runs answer the same and come to the same token of the region, where the listed brackets are
to be closed, depending on the answer; or both fail; or the first one leaves a region that is
loose. -/
inductive Meets (v : Region) (outer : α → List Symbol) :
    Except ParseError (α × Cursor) → Except ParseError (α × Cursor) → Prop
  | inside {a : α} {d d' : Cursor} : v.At (outer a) d d' → Meets v outer (.ok (a, d)) (.ok (a, d'))
  | fails {e e' : ParseError} : Meets v outer (.error e) (.error e')
  | leaves {r r' : Except ParseError (α × Cursor)} : v.loose →
      (∀ {a d}, r = .ok (a, d) → v.Outside d) → Meets v outer r r'

namespace Meets

variable {p p' : Parser α} {f f' : α → Parser β} {outer : β → List Symbol}

/-- **Two runs go on** from where the runs before them have come to. -/
theorem bind {mid : α → List Symbol} (h : Meets v mid (p c) (p' c'))
    (hf : ∀ {a d d'}, p c = .ok (a, d) → v.At (mid a) d d' → Meets v outer (f a d) (f' a d'))
    (honward : v.loose → ∀ {a d b e}, p c = .ok (a, d) → f a d = .ok (b, e) →
      e.rest.length ≤ d.rest.length) :
    Meets v outer ((p >>= f) c) ((p' >>= f') c') := by
  generalize hr : p c = r at h
  generalize hr' : p' c' = r' at h
  cases h with
  | inside hat =>
    rw [bind_of_ok hr, bind_of_ok hr']
    exact hf hr hat
  | fails =>
    rw [bind_of_error hr, bind_of_error hr']
    exact .fails
  | leaves hloose hout =>
    refine .leaves hloose fun hok => ?_
    obtain ⟨a, d, hp, hfa⟩ := of_bind_eq_ok hok
    exact Nat.lt_of_le_of_lt (honward hloose hp hfa) (hout (hr ▸ hp))

/-- In a region that is not loose two runs meet. -/
theorem exists_of_ok (hv : ¬v.loose) {outer : α → List Symbol} (h : Meets v outer (p c) (p' c'))
    {a : α} {d : Cursor} (hok : p c = .ok (a, d)) :
    ∃ d', p' c' = .ok (a, d') ∧ v.At (outer a) d d' := by
  rw [hok] at h
  generalize hr' : p' c' = r' at h
  cases h with
  | inside hat => exact ⟨_, rfl, hat⟩
  | leaves hloose _ => exact absurd hloose hv

end Meets

/-- From these cursors on the runs of `p` meet where the listed brackets are to be closed. -/
structure LeadsAt (v : Region) (c c' : Cursor) (outer : List Symbol) (p : Parser α) : Prop where
  meets : Meets v (fun _ => outer) (p c) (p c')

/-- From wherever some brackets are to be closed the runs of `p` meet where others are. Where a
region can be left the reader goes onward. -/
structure Leads (v : Region) (closings outer : List Symbol) (p : Parser α) : Prop where
  at_cursor : ∀ {c c'}, v.At closings c c' → LeadsAt v c c' outer p
  onward : v.loose → ∀ {c a d}, p c = .ok (a, d) → d.rest.length ≤ c.rest.length

/-! ## Rules for two cursors -/

namespace LeadsAt

variable {p q : Parser α} {f : α → Parser β}

theorem of_error {e e' : ParseError} (h : p c = .error e) (h' : p c' = .error e') :
    LeadsAt v c c' outer p := by
  refine ⟨?_⟩
  rw [h, h']
  exact .fails

theorem fail (message : String) : LeadsAt v c c' outer (fail (α := α) message) :=
  .of_error rfl rfl

theorem bind (h : LeadsAt v c c' mid p) (hf : ∀ a, Leads v mid outer (f a)) :
    LeadsAt v c c' outer (p >>= f) :=
  ⟨h.meets.bind (fun _ hat => ((hf _).at_cursor hat).meets) fun hloose _ _ _ _ _ hok =>
    (hf _).onward hloose hok⟩

/-- Runs that come down to runs of another reader. -/
theorem of_eq {d d' : Cursor} (h : LeadsAt v d d' outer q) (hrun : p c = q d)
    (hrun' : p c' = q d') : LeadsAt v c c' outer p := by
  refine ⟨?_⟩
  rw [hrun, hrun']
  exact h.meets

theorem ite {b : Prop} [Decidable b] (hp : b → LeadsAt v c c' outer p)
    (hq : ¬b → LeadsAt v c c' outer q) : LeadsAt v c c' outer (if b then p else q) := by
  split
  next h => exact hp h
  next h => exact hq h

/-- A reader that looks at the next tokens goes on alike where it sees the same of them. -/
theorem get_bind {f : Cursor → Parser β} (hsame : f c' = f c) (h : LeadsAt v c c' outer (f c)) :
    LeadsAt v c c' outer (get >>= f) :=
  h.of_eq rfl (congrFun hsame c')

theorem offset_bind (hc : v.At (closing :: closings) c c') {f : Nat → Parser β}
    (h : LeadsAt v c c' outer (f c.offset)) : LeadsAt v c c' outer (offset >>= f) :=
  h.of_eq rfl (congrFun (congrArg f hc.offset_eq) c')

theorem nextIs_bind (hc : v.At (closing :: closings) c c') {f : Bool → Parser β}
    (h : LeadsAt v c c' outer (f (c.nextIs kind))) : LeadsAt v c c' outer (nextIs kind >>= f) :=
  h.of_eq rfl (congrFun (congrArg f (hc.nextIs_eq kind)) c')

/-- Runs that go on behind the next token. -/
theorem of_advance (hc : v.At closings c c') (hnext : c.kind? = some kind)
    (hkind : closingsPast closings kind = some mid) (h : Leads v mid outer q)
    (hrun : p c = q c.advance) (hrun' : p c' = q c'.advance) : LeadsAt v c c' outer p := by
  obtain hat | ⟨hloose, hout⟩ := hc.advance hnext hkind
  · exact (h.at_cursor hat).of_eq hrun hrun'
  · exact ⟨.leaves hloose fun hok => Nat.lt_of_le_of_lt (h.onward hloose (hrun ▸ hok)) hout⟩

/-- A token that comes next is gone past. -/
theorem skip_bind (hc : v.At closings c c') (hnext : c.kind? = some kind)
    (hkind : closingsPast closings kind = some mid) {p : Parser β} (h : Leads v mid outer p) :
    LeadsAt v c c' outer (skip 1 >>= fun _ => p) :=
  .of_advance hc hnext hkind h rfl rfl

/-- Two tokens that come next are gone past. -/
theorem skip_two_bind {second : TokenKind} {mid' : List Symbol} (hc : v.At closings c c')
    (hnext : c.kind? = some kind) (hkind : closingsPast closings kind = some mid)
    (hsecond : c.kindAt 1 = some second) (hkind' : closingsPast mid second = some mid')
    {p : Parser β} (h : Leads v mid' outer p) :
    LeadsAt v c c' outer (skip 2 >>= fun _ => p) := by
  obtain hat | ⟨hloose, hout⟩ := hc.advance hnext hkind
  · exact (skip_bind hat (c.kind?_advance.trans hsecond) hkind' h).of_eq rfl rfl
  · refine ⟨.leaves hloose fun hok => Nat.lt_of_le_of_lt ?_ hout⟩
    exact Nat.le_trans (h.onward hloose hok) c.advance.length_advance_le

/-- Tokens that lead from one place of the region to another are gone past. -/
theorem skip_bind_of_at {n : Nat} (hat : v.At mid (c.skip n) (c'.skip n)) {p : Parser β}
    (h : Leads v mid outer p) : LeadsAt v c c' outer (skip n >>= fun _ => p) :=
  (h.at_cursor hat).of_eq rfl rfl

end LeadsAt

/-! ## Rules -/

namespace Leads

variable {p q : Parser α} {f : α → Parser β}

/-- A reader that goes onward. -/
theorem of_leaves (hleaves : ∀ n, Leaves n n p)
    (h : ∀ {c c'}, v.At closings c c' → LeadsAt v c c' outer p) : Leads v closings outer p :=
  ⟨h, fun _ _ _ _ hok =>
    Nat.le_of_lt_succ (((hleaves _).at_cursor (Nat.lt_succ_self _)).lt_of_ok hok)⟩

/-- A reader in a region that is not loose. -/
theorem of_settled (hv : ¬v.loose) (h : ∀ {c c'}, v.At closings c c' → LeadsAt v c c' outer p) :
    Leads v closings outer p :=
  ⟨h, fun hloose => absurd hloose hv⟩

theorem pure (a : α) : Leads v closings closings (pure a) :=
  .of_leaves (fun _ => .done) fun h => ⟨.inside h⟩

theorem fail (message : String) : Leads v closings outer (fail (α := α) message) :=
  .of_leaves (fun _ => .fail _) fun _ => .fail message

theorem bind (h : Leads v closings mid p) (hf : ∀ a, Leads v mid outer (f a)) :
    Leads v closings outer (p >>= f) := by
  refine ⟨fun hc => (h.at_cursor hc).bind hf, fun hloose _ _ _ hok => ?_⟩
  obtain ⟨a, d, hp, hfa⟩ := of_bind_eq_ok hok
  exact Nat.le_trans ((hf a).onward hloose hfa) (h.onward hloose hp)

theorem map (h : Leads v closings outer p) (f : α → β) : Leads v closings outer (f <$> p) := by
  rw [map_eq_pure_bind]
  exact h.bind fun _ => .pure _

theorem ite {b : Prop} [Decidable b] (hp : Leads v closings outer p)
    (hq : Leads v closings outer q) : Leads v closings outer (if b then p else q) := by
  split <;> assumption

theorem ite_bind {b : Prop} [Decidable b] (hp : Leads v closings mid p)
    (hq : Leads v closings mid q) (hf : ∀ a, Leads v mid outer (f a)) :
    Leads v closings outer (if b then p >>= f else q >>= f) :=
  ite (hp.bind hf) (hq.bind hf)

/-- Both runs see whether the text ends. -/
theorem isEmpty_bind (hp : Leads v (closing :: closings) outer p)
    (hq : Leads v (closing :: closings) outer q) :
    Leads v (closing :: closings) outer (do if (← get).rest.isEmpty then p else q) := by
  refine ⟨fun {c c'} hc => .get_bind ?_ (.ite (fun _ => hp.at_cursor hc) fun _ =>
    hq.at_cursor hc), fun hloose c a d hok => ?_⟩
  · rw [hc.isEmpty_eq]
  · rw [get_bind_eq] at hok
    split at hok
    · exact hp.onward hloose hok
    · exact hq.onward hloose hok

end Leads

/-! ## Tokens -/

section Tokens

theorem exists_cons_of_closingsPast (h : closingsPast closings kind = some inner) :
    ∃ first others, closings = first :: others := by
  cases closings with
  | nil => cases h
  | cons first others => exact ⟨first, others, rfl⟩

theorem leads_offset : Leads v (closing :: closings) (closing :: closings) offset :=
  .of_leaves (fun _ => leaves_offset) fun hc => .offset_bind hc ((Leads.pure _).at_cursor hc)

theorem leads_rangeFrom (start : Nat) : Leads v closings closings (rangeFrom start) := by
  refine .of_leaves (fun _ => leaves_rangeFrom start) fun hc => .get_bind ?_
    ((Leads.pure _).at_cursor hc)
  rw [Cursor.rangeFrom, Cursor.rangeFrom, hc.lastEnd_eq]

/-- What is answered with the range of what was read. -/
theorem leads_ranged (start : Nat) (f : TextRange → α) :
    Leads v closings closings (do return f (← rangeFrom start)) :=
  (leads_rangeFrom start).bind fun _ => .pure _

theorem leads_nextIs (kind : TokenKind) :
    Leads v (closing :: closings) (closing :: closings) (nextIs kind) :=
  .of_leaves (fun _ => leaves_nextIs kind) fun hc => .nextIs_bind hc ((Leads.pure _).at_cursor hc)

theorem leads_nextAre {first second : TokenKind} (hborder : ¬first.IsBorder)
    (hname : v.loose → first = .ident → second = Symbol.lParen) :
    Leads v (closing :: closings) (closing :: closings) (nextAre first second) := by
  refine .of_leaves (fun _ => leaves_nextAre first second) fun hc => .get_bind ?_
    ((Leads.pure _).at_cursor hc)
  rw [hc.nextAre_eq hborder hname]

/-- A token that is asked for where it comes next. -/
theorem expect_of_rest {t : Token} {later : List Token} (h : c.rest = t :: later) :
    expect t.kind c = .ok (t, c.advance) := by
  obtain ⟨rest, lastEnd, textEnd⟩ := c
  obtain rfl : rest = t :: later := h
  exact expect_of_kind rfl

/-- **A token that is asked for** is read with what it opens or closes, or it is not there. -/
theorem leads_expect (hkind : closingsPast closings kind = some outer) :
    Leads v closings outer (expect kind) := by
  obtain ⟨closing, closings, rfl⟩ := exists_cons_of_closingsPast hkind
  refine .of_leaves (fun _ => (leaves_expect kind).of_read) fun {c c'} hc => ?_
  cases hnext : c.nextIs kind with
  | false => exact .of_error (expect_of_not hnext) (expect_of_not (hc.nextIs_eq kind ▸ hnext))
  | true =>
    have hkind' : c.kind? = some kind := eq_of_beq hnext
    obtain ⟨hrest, -⟩ | ⟨t, later, later', hrest, hrest', -⟩ := hc.exists_heads
    · exact absurd hrest (Cursor.rest_ne_nil_of_kind? hkind')
    · obtain rfl : t.kind = kind := by
        rw [Cursor.kind?, hrest] at hkind'
        exact Option.some.inj hkind'
      refine ⟨?_⟩
      rw [expect_of_rest hrest, expect_of_rest hrest']
      obtain hat | ⟨hloose, hout⟩ := hc.advance hkind' hkind
      · exact .inside hat
      · refine .leaves hloose fun hok => ?_
        cases hok
        exact hout

theorem leads_ident : Leads v (closing :: closings) (closing :: closings) ident :=
  (leads_expect rfl).bind fun _ => .pure _

/-- **A token that may come next** is read with what it opens or closes, or it is not there. -/
theorem Leads.eat_bind {f : Bool → Parser β} (hkind : closingsPast closings kind = some mid)
    (htrue : Leads v mid outer (f true)) (hfalse : Leads v closings outer (f false)) :
    Leads v closings outer (eat kind >>= f) := by
  obtain ⟨closing, closings, rfl⟩ := exists_cons_of_closingsPast hkind
  refine ⟨fun {c c'} hc => ?_, fun hloose c b d hok => ?_⟩
  · cases hnext : c.nextIs kind with
    | false =>
      exact (hfalse.at_cursor hc).of_eq (eat_bind_of_not hnext f)
        (eat_bind_of_not (hc.nextIs_eq kind ▸ hnext) f)
    | true =>
      have hnext' : c'.nextIs kind = true := hc.nextIs_eq kind ▸ hnext
      refine ⟨?_⟩
      rw [eat_bind_of_next hnext, eat_bind_of_next hnext']
      obtain hat | ⟨hloose, hout⟩ := hc.advance (eq_of_beq hnext) hkind
      · exact (htrue.at_cursor hat).meets
      · exact .leaves hloose fun hok => Nat.lt_of_le_of_lt (htrue.onward hloose hok) hout
  · cases hnext : c.nextIs kind with
    | false =>
      rw [eat_bind_of_not hnext] at hok
      exact hfalse.onward hloose hok
    | true =>
      rw [eat_bind_of_next hnext] at hok
      exact Nat.le_trans (htrue.onward hloose hok) c.length_advance_le

theorem leads_eat (hkind : closingsPast closings kind = some closings) :
    Leads v closings closings (eat kind) := by
  rw [← bind_pure (eat kind)]
  exact .eat_bind hkind (.pure _) (.pure _)

/-- To look ahead moves nothing. -/
theorem leads_succeeds (hv : ¬v.loose) {p : Parser α} (h : Leads v closings outer p) :
    Leads v closings closings (succeeds p) := by
  refine .of_settled hv fun {c c'} hc => ⟨?_⟩
  have hmeets := (h.at_cursor hc).meets
  unfold succeeds
  generalize p c = r, p c' = r' at hmeets
  cases hmeets with
  | inside _ => exact .inside hc
  | fails => exact .inside hc
  | leaves hloose _ => exact absurd hloose hv

/-- **A reader with another one in case it fails** starts both from the same place. -/
theorem LeadsAt.orElse (hv : ¬v.loose) {p recover : Parser α} (h : LeadsAt v c c' outer p)
    (hrecover : LeadsAt v c c' outer recover) : LeadsAt v c c' outer (orElse p recover) := by
  have hmeets := h.meets
  refine ⟨?_⟩
  unfold Parser.orElse
  generalize p c = r, p c' = r' at hmeets
  cases hmeets with
  | inside hat => exact .inside hat
  | fails => exact hrecover.meets
  | leaves hloose _ => exact absurd hloose hv

/-- A separator is left out before a closing bracket only, and in front of anything else the bracket
is asked for in vain. -/
theorem leads_separator {separator close : TokenKind} {a : α}
    (hseparator : closingsPast (closing :: closings) separator = some (closing :: closings)) :
    Leads v (closing :: closings) (closing :: closings) (do
      if !(← eat separator) && !(← nextIs close) then
        let _ ← expect close
      return a) := by
  refine (leads_eat hseparator).bind fun eaten => .of_leaves (fun _ => ?_) fun {c c'} hc => ?_
  · refine (leaves_nextIs close).bind fun _ => .ite ?_ .done
    exact (leaves_expect close).of_read.bind fun _ => .done
  · refine .nextIs_bind hc (.ite (fun hnot => ?_) fun _ => (Leads.pure a).at_cursor hc)
    have hnext : c.nextIs close = false := by simp_all
    exact .of_error (bind_of_error (expect_of_not hnext) _)
      (bind_of_error (expect_of_not (hc.nextIs_eq close ▸ hnext)) _)

end Tokens

/-! ## Loops -/

/-- A round of a loop that ends with a closing bracket: it reads tokens in the brackets, or it reads
the closing bracket and answers nothing. -/
structure LeadsOut (v : Region) (closings outer : List Symbol) (p : Parser (Option α)) : Prop where
  at_cursor : ∀ {c c'}, v.At closings c c' →
    Meets v (fun o => o.elim outer fun _ => closings) (p c) (p c')
  onward : v.loose → ∀ {c o d}, p c = .ok (o, d) → d.rest.length ≤ c.rest.length

/-- A round that keeps to its brackets. -/
theorem Leads.toLeadsOut {p : Parser (Option α)} (h : Leads v closings closings p) :
    LeadsOut v closings closings p := by
  refine ⟨fun hc => ?_, h.onward⟩
  have hsame : (fun _ : Option α => closings) = fun o => o.elim closings fun _ => closings := by
    funext o
    cases o <;> rfl
  exact hsame ▸ (h.at_cursor hc).meets

/-- **A loop** ends where its last round does, and every round before it has read a token. -/
theorem leads_many_of_leadsOut {p : Parser (Option α)} (hadvances : Advances p)
    (h : LeadsOut v closings outer p) : Leads v closings outer (many p) := by
  have honward : v.loose → ∀ {c as d}, many p c = .ok (as, d) →
      d.rest.length ≤ c.rest.length := by
    intro hloose c as
    induction as generalizing c with
    | nil => exact fun hok => h.onward hloose (hadvances.many_eq_nil_iff.1 hok)
    | cons a as ih =>
      intro d hok
      obtain ⟨mid, hround, hrest⟩ := hadvances.many_eq_cons_iff.1 hok
      exact Nat.le_trans (ih hrest) (h.onward hloose hround)
  refine ⟨fun {c c'} hc => ⟨?_⟩, honward⟩
  -- the induction is on the tokens that are left in the first text
  induction hn : c.rest.length using Nat.strong_induction_on generalizing c c' with
  | h n ih =>
    subst hn
    rw [hadvances.many_eq]
    refine (h.at_cursor hc).bind (fun {o d d'} hround hat => ?_) fun hloose o d _ _ _ hok => ?_
    · cases o with
      | none => exact .inside hat
      | some a =>
        have hrest := ih _ (hadvances hround) hat rfl
        exact hrest.bind (fun _ hat => .inside hat) fun _ _ _ _ _ _ hok => by
          cases hok
          exact Nat.le_refl _
    · cases o with
      | none =>
        cases hok
        exact Nat.le_refl _
      | some a =>
        obtain ⟨as, e, hrest, hok⟩ := of_bind_eq_ok hok
        cases hok
        exact honward hloose hrest

theorem leads_many {p : Parser (Option α)} (hadvances : Advances p)
    (h : Leads v closings closings p) : Leads v closings closings (many p) :=
  leads_many_of_leadsOut hadvances h.toLeadsOut

/-- A loop is its first round and what the loop does behind it. -/
theorem grow_eq {step : α → Parser (Option α)} (hadvances : ∀ a, Advances (step a)) :
    grow step = onceMore step (grow step) :=
  (eq_onceMore_iff hadvances).2 rfl

/-- **A loop that replaces its answer** ends where its last round does. -/
theorem leads_grow_of_leadsOut {step : α → Parser (Option α)}
    (hadvances : ∀ a, Advances (step a)) (h : ∀ a, LeadsOut v closings outer (step a)) (a : α) :
    Leads v closings outer (grow step a) := by
  have honward : v.loose → ∀ {c a b d}, grow step a c = .ok (b, d) →
      d.rest.length ≤ c.rest.length := by
    intro hloose c a b d hok
    obtain ⟨mid, hmid, hlast⟩ := grow_keeps hadvances
      (P := fun _ mid => mid.rest.length ≤ c.rest.length)
      (fun hle hround => Nat.le_trans (Nat.le_of_lt (hadvances _ hround)) hle) (Nat.le_refl _) hok
    exact Nat.le_trans ((h b).onward hloose hlast) hmid
  refine ⟨fun {c c'} hc => ⟨?_⟩, fun hloose _ _ _ hok => honward hloose hok⟩
  induction hn : c.rest.length using Nat.strong_induction_on generalizing a c c' with
  | h n ih =>
    subst hn
    rw [grow_eq hadvances, onceMore]
    refine ((h a).at_cursor hc).bind (fun {o d d'} hround hat => ?_) fun hloose o d _ _ _ hok => ?_
    · cases o with
      | none => exact .inside hat
      | some b => exact ih _ (hadvances a hround) b hat rfl
    · cases o with
      | none =>
        cases hok
        exact Nat.le_refl _
      | some b => exact honward hloose hok

theorem leads_grow {step : α → Parser (Option α)} (hadvances : ∀ a, Advances (step a))
    (h : ∀ a, Leads v closings closings (step a)) (a : α) :
    Leads v closings closings (grow step a) :=
  leads_grow_of_leadsOut hadvances (fun a => (h a).toLeadsOut) a

/-- A round that reads the closing bracket, or else an item. -/
theorem leadsOut_of_item {close : TokenKind} {item : Parser α}
    (hclose : closingsPast closings close = some outer) (h : Leads v closings closings item) :
    LeadsOut v closings outer (do
      if ← eat close then return none
      else some <$> item) := by
  obtain ⟨closing, closings, rfl⟩ := exists_cons_of_closingsPast hclose
  refine ⟨fun {c c'} hc => ?_, fun hloose c o d hok => ?_⟩
  · cases hnext : c.nextIs close with
    | true =>
      rw [eat_bind_of_next hnext, eat_bind_of_next (hc.nextIs_eq close ▸ hnext)]
      obtain hat | ⟨hloose, hout⟩ := hc.advance (eq_of_beq hnext) hclose
      · exact .inside hat
      · refine .leaves hloose fun hok => ?_
        cases hok
        exact hout
    | false =>
      rw [eat_bind_of_not hnext, eat_bind_of_not (hc.nextIs_eq close ▸ hnext),
        if_neg Bool.false_ne_true, map_eq_pure_bind]
      exact (h.at_cursor hc).meets.bind (fun _ hat => .inside hat) fun _ _ _ _ _ _ hok => by
        cases hok
        exact Nat.le_refl _
  · cases hnext : c.nextIs close with
    | true =>
      rw [eat_bind_of_next hnext] at hok
      cases hok
      exact c.length_advance_le
    | false =>
      rw [eat_bind_of_not hnext, if_neg Bool.false_ne_true] at hok
      exact (h.map some).onward hloose hok

/-- **Items up to a closing bracket** are read in brackets, the bracket with them. -/
theorem leads_manyUntil {close : TokenKind} {message : String} {item : Parser α}
    (hclose : closingsPast closings close = some outer) (hless : ∀ n, Leaves n (n - 1) item)
    (h : Leads v closings closings item) :
    Leads v closings outer (manyUntil close message item) := by
  have hround : untilClosed close message item = (do
      if ← eat close then return none
      else some <$> (do if (← get).rest.isEmpty then Parser.fail message else item)) := by
    refine bind_congr fun closed => ?_
    split
    · rfl
    · rw [map_bind]
      refine bind_congr fun c => ?_
      split
      · rfl
      · exact (map_eq_pure_bind _ _).symm
  obtain ⟨closing, closings, rfl⟩ := exists_cons_of_closingsPast hclose
  rw [manyUntil_eq]
  refine leads_many_of_leadsOut (advances_untilClosed hless) ?_
  rw [hround]
  exact leadsOut_of_item hclose (.isEmpty_bind (.fail _) h)

/-- Items behind separators. -/
theorem leads_itemAfter? {separator : TokenKind} {item : Parser α}
    (hseparator : closingsPast closings separator = some closings)
    (h : Leads v closings closings item) :
    Leads v closings closings (itemAfter? separator item) :=
  (leads_eat hseparator).bind fun _ => .ite (h.bind fun _ => .pure _) (.pure _)

theorem leads_sepByComma {item : Parser α}
    (hcomma : closingsPast closings Symbol.comma = some closings) (hleaves : ∀ n, Leaves n n item)
    (h : Leads v closings closings item) : Leads v closings closings (sepByComma item) := by
  rw [sepByComma_eq]
  exact h.bind fun _ => (leads_many (advances_itemAfter? hleaves) (leads_itemAfter? hcomma h)).bind
    fun _ => .pure _

theorem leads_parenthesized {item : Parser α} (hleaves : ∀ n, Leaves n n item)
    (h : Leads v (.rParen :: closing :: closings) (.rParen :: closing :: closings) item) :
    Leads v (closing :: closings) (closing :: closings) (parenthesized item) := by
  refine (leads_expect rfl).bind fun _ => .eat_bind rfl (.pure _) ?_
  exact (leads_sepByComma rfl hleaves h).bind fun _ => (leads_expect rfl).bind fun _ => .pure _

end Parser

end SourceSearch
