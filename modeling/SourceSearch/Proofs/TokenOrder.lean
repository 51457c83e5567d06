import SourceSearch.Parser.Cursor
import SourceSearch.Proofs.TokenSlices

/-!
# Tokens in order

The tokens of a text stand one behind the other and none of them is empty (`tokenize_between`). So
whatever is left to a reader starts behind the last token that it has read (`Cursor.Sound`), and
this stays so however many tokens it goes past (`Cursor.Sound.skip`). A range from where a reader
started to the end of the last token read goes from token to token (`Cursor.Sound.onTokens`).
-/

set_option autoImplicit false

namespace SourceSearch

/-- A range that is not empty lies between two offsets. -/
structure TextRange.LiesIn (lo hi : Nat) (range : TextRange) : Prop where
  start_le : lo ≤ range.start
  pos : range.start < range.stop
  le_stop : range.stop ≤ hi

namespace TextRange.LiesIn

variable {lo lo' hi hi' : Nat} {range : TextRange}

theorem lt (h : range.LiesIn lo hi) : lo < hi :=
  Nat.lt_of_le_of_lt h.start_le (Nat.lt_of_lt_of_le h.pos h.le_stop)

theorem widen (h : range.LiesIn lo hi) (hlo : lo' ≤ lo) (hhi : hi ≤ hi') : range.LiesIn lo' hi' :=
  ⟨Nat.le_trans hlo h.start_le, h.pos, Nat.le_trans h.le_stop hhi⟩

end TextRange.LiesIn

/-- A range goes from an offset to one behind it. -/
structure TextRange.Spans (start stop : Nat) (range : TextRange) : Prop where
  start_eq : range.start = start
  stop_eq : range.stop = stop
  lt : start < stop

namespace TextRange.Spans

variable {start stop : Nat} {range : TextRange}

theorem upTo (h : start < stop) : (TextRange.upTo start stop).Spans start stop :=
  ⟨rfl, Nat.max_eq_left (Nat.le_of_lt h), h⟩

theorem liesIn (h : range.Spans start stop) : range.LiesIn start stop :=
  ⟨Nat.le_of_eq h.start_eq.symm, by rw [h.start_eq, h.stop_eq]; exact h.lt,
    Nat.le_of_eq h.stop_eq⟩

end TextRange.Spans

/-- Tokens stand one behind the other between two offsets, and none of them is empty. -/
def TokensBetween (lo hi : Nat) : List Token → Prop
  | [] => lo ≤ hi
  | t :: ts => lo ≤ t.range.start ∧ t.range.start < t.range.stop ∧ TokensBetween t.range.stop hi ts

namespace TokensBetween

variable {lo lo' hi : Nat} {tokens : List Token}

theorem from_le (h : TokensBetween lo hi tokens) (hle : lo' ≤ lo) :
    TokensBetween lo' hi tokens := by
  cases tokens with
  | nil => exact Nat.le_trans hle h
  | cons t ts => exact ⟨Nat.le_trans hle h.1, h.2⟩

theorem le (h : TokensBetween lo hi tokens) : lo ≤ hi := by
  induction tokens generalizing lo with
  | nil => exact h
  | cons t ts ih => exact Nat.le_trans (Nat.le_trans h.1 (Nat.le_of_lt h.2.1)) (ih h.2.2)

theorem liesIn (h : TokensBetween lo hi tokens) :
    ∀ token ∈ tokens, token.range.LiesIn lo hi := by
  induction tokens generalizing lo with
  | nil => simp
  | cons t ts ih =>
    obtain ⟨hstart, hpos, hrest⟩ := h
    refine List.forall_mem_cons.2 ⟨⟨hstart, hpos, hrest.le⟩, fun token htoken => ?_⟩
    exact (ih hrest token htoken).widen (Nat.le_trans hstart (Nat.le_of_lt hpos)) (Nat.le_refl hi)

/-- No token reaches into one that stands behind it. -/
theorem pairwise (h : TokensBetween lo hi tokens) :
    tokens.Pairwise fun t t' => t.range.stop ≤ t'.range.start := by
  induction tokens generalizing lo with
  | nil => exact .nil
  | cons t ts ih =>
    exact List.pairwise_cons.2 ⟨fun t' ht' => (liesIn h.2.2 t' ht').start_le, ih h.2.2⟩

end TokensBetween

/-! ## Texts -/

/-- Tokens are behind the characters that belong to a lexeme which is already read. -/
theorem tokenizeFrom_between {offset skip : Nat} {cs : List Char} {tokens : List Token}
    (h : tokenizeFrom offset skip cs = .ok tokens) :
    TokensBetween (offset + byteLength (cs.take skip)) (offset + byteLength cs) tokens := by
  induction cs generalizing offset skip tokens with
  | nil =>
    cases h
    exact Nat.le_of_eq (by simp)
  | cons c cs ih =>
    have hsize : offset + byteLength (c :: cs) = offset + c.utf8Size + byteLength cs := by
      rw [byteLength_cons, Nat.add_assoc]
    rw [hsize]
    cases skip with
    | succ skip =>
      have hrest := ih h
      rw [List.take_succ_cons, byteLength_cons, ← Nat.add_assoc]
      exact hrest
    | zero =>
      rw [tokenizeFrom] at h
      split at h
      next => cases h
      next => exact (ih h).from_le (by simp; omega)
      next kind n hread =>
        cases hrest : tokenizeFrom (offset + c.utf8Size) n cs with
        | error e => simp [hrest, bind, Except.bind] at h
        | ok rest =>
          simp only [hrest, bind, Except.bind, pure, Except.pure, Except.ok.injEq] at h
          subst h
          refine ⟨Nat.le_refl offset, ?_, ?_⟩
          · exact Nat.lt_add_of_pos_right (byteLength_pos (List.cons_ne_nil c (cs.take n)))
          · have hbetween := ih hrest
            rw [Nat.add_assoc, ← byteLength_cons] at hbetween
            exact hbetween

/-- **The tokens of a text** stand in order in the text. -/
theorem tokenize_between {text : String} {tokens : List Token} (h : tokenize text = .ok tokens) :
    TokensBetween 0 text.utf8ByteSize tokens := by
  have hbetween := tokenizeFrom_between h
  rw [byteLength_toList] at hbetween
  simpa using hbetween

/-- **A token that lies in another one** of its text is that token. -/
theorem Token.IsOf.eq_of_liesIn {text : String} {token other : Token} (h : token.IsOf text)
    (h' : other.IsOf text) (hlies : token.range.LiesIn other.range.start other.range.stop) :
    token = other := by
  obtain ⟨tokens, htokens, hmem⟩ := h
  obtain ⟨others, hothers, hmem'⟩ := h'
  obtain rfl := Except.ok.inj (htokens.symm.trans hothers)
  have hbetween := tokenize_between htokens
  have hpos : ∀ t ∈ tokens, t.range.start < t.range.stop := fun t ht => (hbetween.liesIn t ht).pos
  -- two tokens one behind the other are not empty, so neither of them lies in the other one
  refine List.Pairwise.forall_of_forall_of_flip
    (R := fun t t' => t.range.LiesIn t'.range.start t'.range.stop → t = t') (fun _ _ _ => rfl)
    (hbetween.pairwise.imp_of_mem fun _ _ hle hin => ?_)
    (hbetween.pairwise.imp_of_mem fun _ ht' hle hin => ?_) hmem hmem' hlies
  · exact absurd hin.start_le (Nat.not_le.2 (Nat.lt_of_lt_of_le hin.pos hle))
  · exact absurd hin.le_stop (Nat.not_le.2 (Nat.lt_of_le_of_lt hle (hpos _ ht')))

/-! ## Cursors -/

/-- A reader that starts at the offset and reads a token starts where a token does. -/
def MayStart (text : String) (start : Nat) : Prop :=
  start < text.utf8ByteSize → StartsAt text start

namespace Cursor

variable {text : String} {start : Nat} {c next : Cursor}

/-- The tokens that are left are tokens of the text, in order behind the last one read. -/
structure Sound (text : String) (c : Cursor) : Prop where
  between : TokensBetween c.lastEnd c.textEnd c.rest
  tokens : ∀ token ∈ c.rest, token.IsOf text
  ends : 0 < c.lastEnd → EndsAt text c.lastEnd
  textEnd_eq : c.textEnd = text.utf8ByteSize

/-- A cursor is not further on than another one. -/
structure Before (c next : Cursor) : Prop where
  offset_le : c.offset ≤ next.offset
  lastEnd_le : c.lastEnd ≤ next.lastEnd

theorem Before.refl (c : Cursor) : c.Before c := ⟨Nat.le_refl _, Nat.le_refl _⟩

theorem Before.trans {mid : Cursor} (h : c.Before mid) (h' : mid.Before next) : c.Before next :=
  ⟨Nat.le_trans h.offset_le h'.offset_le, Nat.le_trans h.lastEnd_le h'.lastEnd_le⟩

/-- The next token starts behind the last one read. -/
theorem Sound.lastEnd_le_offset (h : c.Sound text) : c.lastEnd ≤ c.offset := by
  have hbetween := h.between
  unfold offset
  split
  next t rest hrest =>
    rw [hrest] at hbetween
    exact hbetween.1
  next hrest =>
    rw [hrest] at hbetween
    exact hbetween

theorem advance_of_rest {t : Token} {rest : List Token} (h : c.rest = t :: rest) :
    c.advance = { c with rest := rest, lastEnd := t.range.stop } := by
  rw [advance, h]

/-- **To go past a token** keeps the tokens that are left in order, behind that token. -/
theorem Sound.advance (h : c.Sound text) : c.advance.Sound text ∧ c.Before c.advance := by
  cases hrest : c.rest with
  | nil =>
    have heq : c.advance = c := by rw [Cursor.advance, hrest]
    rw [heq]
    exact ⟨h, .refl c⟩
  | cons t rest =>
    obtain ⟨hbetween, htokens, hends, htextEnd⟩ := h
    rw [hrest] at hbetween htokens
    have hadvanced : c.advance.Sound text := by
      rw [advance_of_rest hrest]
      exact ⟨hbetween.2.2, fun token hmem => htokens token (List.mem_cons_of_mem _ hmem),
        fun _ => ⟨t, htokens t List.mem_cons_self, rfl⟩, htextEnd⟩
    refine ⟨hadvanced, ?_, ?_⟩
    · have hoffset := hadvanced.lastEnd_le_offset
      rw [advance_of_rest hrest] at hoffset ⊢
      rw [offset, hrest]
      exact Nat.le_trans (Nat.le_of_lt hbetween.2.1) hoffset
    · rw [advance_of_rest hrest]
      exact Nat.le_trans hbetween.1 (Nat.le_of_lt hbetween.2.1)

theorem Sound.skip (h : c.Sound text) (n : Nat) :
    (c.skip n).Sound text ∧ c.Before (c.skip n) := by
  induction n generalizing c with
  | zero => exact ⟨h, .refl c⟩
  | succ n ih =>
    obtain ⟨hadvanced, hbefore⟩ := h.advance
    obtain ⟨hskipped, hlater⟩ := ih hadvanced
    exact ⟨hskipped, hbefore.trans hlater⟩

/-- A reader starts where the next token does. -/
theorem Sound.mayStart (h : c.Sound text) : MayStart text c.offset := by
  intro hlt
  unfold offset at hlt ⊢
  split
  next t rest hrest => exact ⟨t, h.tokens t (hrest ▸ List.mem_cons_self), rfl⟩
  next hrest =>
    rw [hrest] at hlt
    exact absurd hlt (Nat.not_lt.2 (Nat.le_of_eq h.textEnd_eq.symm))

/-- **A range that was read** goes from token to token. -/
theorem Sound.onTokens (h : c.Sound text) (hstart : MayStart text start) (hlt : start < c.lastEnd) :
    (c.rangeFrom start).OnTokens text := by
  have hstop : (c.rangeFrom start).stop = c.lastEnd := Nat.max_eq_left (Nat.le_of_lt hlt)
  have hle : c.lastEnd ≤ text.utf8ByteSize := h.textEnd_eq ▸ h.between.le
  refine ⟨hstart (Nat.lt_of_lt_of_le hlt hle), ?_, ?_⟩
  · rw [hstop]
    exact h.ends (Nat.lt_of_le_of_lt (Nat.zero_le start) hlt)
  · rw [hstop]
    exact hlt

/-- Before anything of a text is read, all of its tokens are left. -/
theorem sound_start {tokens : List Token} (h : tokenize text = .ok tokens) :
    Sound text ⟨tokens, 0, text.utf8ByteSize⟩ :=
  ⟨tokenize_between h, fun _ hmem => ⟨tokens, h, hmem⟩, fun hpos => absurd hpos (Nat.lt_irrefl 0),
    rfl⟩

end Cursor

namespace Parser

/-- To go past the token that closes the open brackets is to go past some tokens. -/
theorem exists_skip_of_afterClosing {opening closing : TokenKind} {depth lastEnd : Nat}
    {c : Cursor} {rest : List Token}
    (h : afterClosing opening closing depth c.rest = some (lastEnd, rest)) :
    ∃ n, { c with rest := rest, lastEnd := lastEnd } = c.skip n := by
  obtain ⟨tokens, before, textEnd⟩ := c
  induction tokens generalizing depth before with
  | nil => simp [afterClosing] at h
  | cons t tokens ih =>
    have hmore : ∀ {depth}, afterClosing opening closing depth tokens = some (lastEnd, rest) →
        ∃ n, (⟨rest, lastEnd, textEnd⟩ : Cursor) =
          Cursor.skip n ⟨t :: tokens, before, textEnd⟩ := by
      intro depth hrest
      obtain ⟨n, hn⟩ := ih t.range.stop hrest
      exact ⟨n + 1, hn⟩
    dsimp only at h
    rw [afterClosing] at h
    split at h
    · exact hmore h
    · split at h
      · split at h
        · cases h
          exact ⟨1, rfl⟩
        · exact hmore h
      · exact hmore h

/-- To go to the end of a declarator is to go past some tokens. -/
theorem exists_skip_declaratorEnd (lastEnd depth textEnd : Nat) (tokens : List Token) :
    ∃ n, (⟨(declaratorEnd lastEnd depth tokens).2, (declaratorEnd lastEnd depth tokens).1,
      textEnd⟩ : Cursor) = Cursor.skip n ⟨tokens, lastEnd, textEnd⟩ := by
  induction tokens generalizing lastEnd depth with
  | nil => exact ⟨0, rfl⟩
  | cons t tokens ih =>
    have hmore : ∀ depth, ∃ n, (⟨(declaratorEnd t.range.stop depth tokens).2,
        (declaratorEnd t.range.stop depth tokens).1, textEnd⟩ : Cursor) =
          Cursor.skip n ⟨t :: tokens, lastEnd, textEnd⟩ := by
      intro depth
      obtain ⟨n, hn⟩ := ih t.range.stop depth
      exact ⟨n + 1, hn⟩
    unfold declaratorEnd
    split <;> first | exact ⟨0, rfl⟩ | exact hmore _

end Parser

end SourceSearch
