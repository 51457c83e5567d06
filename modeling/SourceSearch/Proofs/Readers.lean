import SourceSearch.Parser.Grammar
import SourceSearch.Proofs.TokenOrder

/-!
# What readers give

`Parser.Gives text lo m p P` is about the runs of `p` that start at tokens of the text, at `lo`
or behind it, when the last token read ends at `m` or behind it. A run that succeeds leaves the
tokens that are left in order, goes no way back, and answers with something that satisfies `P`,
where `P` is told the end `e` of the last token read by then. So `P` can say that an answer was read
between `lo` and `e`, and that something was read at all.

There is one rule for every combinator of readers; a rule about a reader is proved by following its
text from one line to the next, with `Gives.bind` where the answer has a place and `Gives.pass`
where it has none. `GivesAt` is about the run from one cursor, for readers that look at it or come
back to it.
-/

set_option autoImplicit false

namespace SourceSearch

/-- Between two offsets the text has the word as one of its identifiers. -/
def Writes (text : String) (lo hi : Nat) (word : String) : Prop :=
  ∃ token : Token, token.IsOf text ∧ token.kind = .ident ∧ token.text = word ∧
    token.range.LiesIn lo hi

/-- An identifier is a token of the text, or stands for the keyword that makes objects. -/
def Ident.IsTokenOf (text : String) (name : Ident) : Prop :=
  ∃ token : Token, token.IsOf text ∧ token.text = name.text ∧ token.range = name.range ∧
    (token.kind = .ident ∨ name.text = "new")

/-- An identifier is spelled in the text where it stands, and stands between two offsets. -/
structure Ident.SpelledIn (text : String) (lo hi : Nat) (name : Ident) : Prop where
  slice_eq : slice text name.range = some name.text
  onTokens : name.range.OnTokens text
  lies : name.range.LiesIn lo hi
  isToken : name.IsTokenOf text

/-- An identifier is one of the words of the text, and was read between two offsets. -/
structure Ident.ReadIn (text : String) (lo hi : Nat) (name : Ident) : Prop
    extends Ident.SpelledIn text lo hi name where
  written : WordOf text name.text

section Idents

variable {text : String} {lo lo' hi hi' : Nat}

theorem Writes.widen {word : String} (h : Writes text lo hi word) (hlo : lo' ≤ lo)
    (hhi : hi ≤ hi') : Writes text lo' hi' word :=
  h.imp fun _ ⟨htoken, hkind, htext, hlies⟩ => ⟨htoken, hkind, htext, hlies.widen hlo hhi⟩

theorem Writes.wordOf {word : String} (h : Writes text lo hi word) : WordOf text word := by
  obtain ⟨token, htoken, hkind, rfl, -⟩ := h
  exact htoken.from.ident hkind

theorem Ident.SpelledIn.widen {name : Ident} (h : name.SpelledIn text lo hi) (hlo : lo' ≤ lo)
    (hhi : hi ≤ hi') : name.SpelledIn text lo' hi' :=
  ⟨h.slice_eq, h.onTokens, h.lies.widen hlo hhi, h.isToken⟩

/-- A word that is spelled as an identifier is written where the identifier stands. -/
theorem Ident.SpelledIn.writes {name : Ident} (h : name.SpelledIn text lo hi)
    (hword : WordOf text name.text) :
    Writes text name.range.start name.range.stop name.text := by
  obtain ⟨token, htoken, htext, hrange, hkind⟩ := h.isToken
  refine ⟨token, htoken, hkind.resolve_right fun hnew => ?_, htext, ?_⟩
  · have hreserved := (isWord_of_mem_wordsOfText hword).not_reserved
    rw [hnew] at hreserved
    exact absurd hreserved (by decide)
  · rw [hrange]
    exact ⟨Nat.le_refl _, h.lies.pos, Nat.le_refl _⟩

/-- **Where an identifier stands**, no other word is written. -/
theorem Ident.SpelledIn.writes_iff {name : Ident} (h : name.SpelledIn text lo hi)
    (hname : WordOf text name.text) {word : String} :
    Writes text name.range.start name.range.stop word ↔ word = name.text := by
  refine ⟨?_, fun heq => heq ▸ h.writes hname⟩
  rintro ⟨other, hother, -, rfl, hlies⟩
  obtain ⟨token, htoken, htext, hrange, -⟩ := h.isToken
  rw [← hrange] at hlies
  rw [hother.eq_of_liesIn htoken hlies, htext]

theorem Ident.ReadIn.widen {name : Ident} (h : name.ReadIn text lo hi) (hlo : lo' ≤ lo)
    (hhi : hi ≤ hi') : name.ReadIn text lo' hi' :=
  ⟨h.toSpelledIn.widen hlo hhi, h.written⟩

theorem Ident.ReadIn.upTo {name : Ident} (h : name.ReadIn text lo hi) (hhi : hi ≤ hi') :
    name.ReadIn text lo hi' :=
  h.widen (Nat.le_refl _) hhi

theorem Ident.ReadIn.writes {name : Ident} (h : name.ReadIn text lo hi) :
    Writes text lo hi name.text :=
  (h.toSpelledIn.writes h.written).widen h.lies.start_le h.lies.le_stop

/-- A token that stands between two offsets spells an identifier there. -/
theorem Token.IsOf.spelledIn {token : Token} (h : token.IsOf text)
    (hlies : token.range.LiesIn lo hi) (hkind : token.kind = .ident ∨ token.text = "new") :
    Ident.SpelledIn text lo hi ⟨token.text, token.range⟩ :=
  ⟨h.slice, h.onTokens hlies.pos, hlies, token, h, rfl, rfl, hkind⟩

theorem Token.IsOf.readIn {token : Token} (h : token.IsOf text) (hkind : token.kind = .ident)
    (hlies : token.range.LiesIn lo hi) : Ident.ReadIn text lo hi ⟨token.text, token.range⟩ :=
  ⟨h.spelledIn hlies (Or.inl hkind), h.from.ident hkind⟩

end Idents

namespace Parser

variable {text : String} {lo m start : Nat} {α β : Type}

/-- From this cursor `p` goes not behind another one, where the reading has been before, and `P`
holds of its answer and the end of the last token that it reads. -/
structure GivesAt (text : String) (origin c : Cursor) (p : Parser α) (P : Nat → α → Prop) :
    Prop where
  of_ok : ∀ {a next}, c.Sound text → p c = .ok (a, next) →
    next.Sound text ∧ origin.Before next ∧ P next.lastEnd a

/-- From everywhere behind `lo`, the last token read ending at `m` or later, `p` goes no way back,
and `P` holds of its answer and the end of the last token that it reads. -/
structure Gives (text : String) (lo m : Nat) (p : Parser α) (P : Nat → α → Prop) :
    Prop where
  at_cursor : ∀ {c : Cursor}, lo ≤ c.offset → m ≤ c.lastEnd → GivesAt text c c p P

/-- What holds of an answer goes on to hold when more is read. -/
structure Lasting (P : Nat → α → Prop) : Prop where
  upTo : ∀ {e e' a}, e ≤ e' → P e a → P e' a

/-! ## Rules for one cursor -/

namespace GivesAt

variable {origin c : Cursor} {p : Parser α} {P P' : Nat → α → Prop} {Q : Nat → β → Prop}

theorem imp (h : GivesAt text origin c p P) (himp : ∀ e a, P e a → P' e a) :
    GivesAt text origin c p P' := by
  refine ⟨fun hc hp => ?_⟩
  obtain ⟨hnext, hbefore, ha⟩ := h.of_ok hc hp
  exact ⟨hnext, hbefore, himp _ _ ha⟩

theorem of_before (hbefore : origin.Before c) (h : GivesAt text c c p P) :
    GivesAt text origin c p P := by
  refine ⟨fun hc hp => ?_⟩
  obtain ⟨hnext, hlater, ha⟩ := h.of_ok hc hp
  exact ⟨hnext, hbefore.trans hlater, ha⟩

/-- **A reader goes on** from where the reader before it has come to. -/
theorem bind (h : GivesAt text c c p P) {f : α → Parser β}
    (hf : ∀ a mid, c.Before mid → P mid.lastEnd a → GivesAt text origin mid (f a) Q) :
    GivesAt text origin c (p >>= f) Q := by
  refine ⟨fun {b next} hc hp => ?_⟩
  rw [show (p >>= f) c = (p c >>= fun r => f r.1 r.2) from rfl] at hp
  cases hfirst : p c with
  | error e =>
    rw [hfirst] at hp
    cases hp
  | ok pair =>
    obtain ⟨a, mid⟩ := pair
    rw [hfirst] at hp
    obtain ⟨hmid, hbefore, ha⟩ := h.of_ok hc hfirst
    exact (hf a mid hbefore ha).of_ok hmid hp

theorem get_bind {f : Cursor → Parser β} (h : c.Sound text → GivesAt text origin c (f c) Q) :
    GivesAt text origin c (get >>= f) Q :=
  ⟨fun hc hp => (h hc).of_ok hc hp⟩

theorem offset_bind {f : Nat → Parser β} (h : GivesAt text origin c (f c.offset) Q) :
    GivesAt text origin c (offset >>= f) Q :=
  ⟨fun hc hp => h.of_ok hc hp⟩

/-- **To come back** to a cursor where the reading has been before is to read from there. -/
theorem set_bind {back : Cursor} {f : Parser β} (hback : back.Sound text)
    (h : GivesAt text origin back f Q) : GivesAt text origin c (set back >>= fun _ => f) Q :=
  ⟨fun _ hp => h.of_ok hback hp⟩

/-- To go past tokens that are left. -/
theorem modify {f : Cursor → Cursor} (hf : ∃ n, f c = c.skip n) :
    GivesAt text c c (modify f) fun _ _ => True := by
  refine ⟨fun hc hp => ?_⟩
  cases hp
  obtain ⟨n, hn⟩ := hf
  rw [hn]
  exact ⟨(hc.skip n).1, (hc.skip n).2, True.intro⟩

theorem fail (message : String) : GivesAt text origin c (fail (α := α) message) P := by
  refine ⟨fun _ hp => ?_⟩
  cases hp

theorem ite {q : Parser α} {b : Prop} [Decidable b] (hp : b → GivesAt text origin c p P)
    (hq : ¬b → GivesAt text origin c q P) : GivesAt text origin c (if b then p else q) P := by
  split
  next h => exact hp h
  next h => exact hq h

/-- **The next token** is behind what was read before, and is one of the text. -/
theorem skip_bind {t : Token} {rest : List Token} (hrest : c.rest = t :: rest) {f : Parser β}
    (h : t.IsOf text → t.range.LiesIn c.offset t.range.stop →
      Gives text c.offset t.range.stop f Q) :
    GivesAt text c c (skip 1 >>= fun _ => f) Q := by
  refine ⟨fun hc hp => ?_⟩
  have hbetween := hc.between
  rw [hrest] at hbetween
  have hoffset : c.offset = t.range.start := by rw [Cursor.offset, hrest]
  have hlies : t.range.LiesIn c.offset t.range.stop :=
    ⟨Nat.le_of_eq hoffset, hbetween.2.1, Nat.le_refl _⟩
  obtain ⟨hadvanced, hbefore⟩ := hc.advance
  have hend : t.range.stop ≤ c.advance.lastEnd := by rw [Cursor.advance_of_rest hrest]
  have hgives := h (hc.tokens t (hrest ▸ List.mem_cons_self)) hlies
  obtain ⟨hnext, hlater, hb⟩ := (hgives.at_cursor hbefore.offset_le hend).of_ok hadvanced hp
  exact ⟨hnext, hbefore.trans hlater, hb⟩

end GivesAt

/-! ## Rules -/

namespace Gives

variable {p : Parser α} {P P' : Nat → α → Prop} {Q : Nat → β → Prop}

theorem imp (h : Gives text lo m p P) (himp : ∀ e a, P e a → P' e a) : Gives text lo m p P' :=
  ⟨fun hlo hm => (h.at_cursor hlo hm).imp himp⟩

/-- A reader ends where it started or behind. -/
theorem imp_of_le (h : Gives text lo m p P) (himp : ∀ e a, m ≤ e → P e a → P' e a) :
    Gives text lo m p P' := by
  refine ⟨fun hlo hm => ⟨fun hc hp => ?_⟩⟩
  obtain ⟨hnext, hbefore, ha⟩ := (h.at_cursor hlo hm).of_ok hc hp
  exact ⟨hnext, hbefore, himp _ _ (Nat.le_trans hm hbefore.lastEnd_le) ha⟩

/-- What holds from everywhere behind some offsets holds from everywhere further on. -/
theorem later {lo' m' : Nat} (h : Gives text lo m p P) (hlo : lo ≤ lo') (hm : m ≤ m') :
    Gives text lo' m' p P :=
  ⟨fun hlo' hm' => h.at_cursor (Nat.le_trans hlo hlo') (Nat.le_trans hm hm')⟩

/-- **Tokens that are left** are behind the last one read. -/
theorem behind (h : Gives text (max lo m) m p P) : Gives text lo m p P :=
  ⟨fun hlo hm => ⟨fun hc hp =>
    (h.at_cursor (max_le hlo (Nat.le_trans hm hc.lastEnd_le_offset)) hm).of_ok hc hp⟩⟩

theorem pure {a : α} (h : ∀ e, m ≤ e → P e a) : Gives text lo m (pure a) P := by
  refine ⟨fun _ hm => ⟨fun hc hp => ?_⟩⟩
  cases hp
  exact ⟨hc, .refl _, h _ hm⟩

/-- **A reader goes on** behind what the reader before it gave. -/
theorem bind (h : Gives text lo m p P) {f : α → Parser β}
    (hf : ∀ a e, m ≤ e → P e a → Gives text lo e (f a) Q) : Gives text lo m (p >>= f) Q := by
  refine ⟨fun hlo hm => (h.at_cursor hlo hm).bind fun a mid hbefore ha => .of_before hbefore ?_⟩
  exact (hf a _ (Nat.le_trans hm hbefore.lastEnd_le) ha).at_cursor
    (Nat.le_trans hlo hbefore.offset_le) (Nat.le_refl _)

/-- A reader goes on behind an answer that has no place. -/
theorem pass (h : Gives text lo m p P) {f : α → Parser β}
    (hf : ∀ a e, P e a → Gives text lo m (f a) Q) : Gives text lo m (p >>= f) Q := by
  refine ⟨fun hlo hm => (h.at_cursor hlo hm).bind fun a mid hbefore ha => .of_before hbefore ?_⟩
  exact (hf a _ ha).at_cursor (Nat.le_trans hlo hbefore.offset_le)
    (Nat.le_trans hm hbefore.lastEnd_le)

theorem map (h : Gives text lo m p P) {f : α → β} (hf : ∀ e a, P e a → Q e (f a)) :
    Gives text lo m (f <$> p) Q := by
  refine ⟨fun hlo hm => ⟨fun {b next} hc hp => ?_⟩⟩
  rw [map_eq_pure_bind] at hp
  have hlast := (h.at_cursor hlo hm).bind (f := fun a => Pure.pure (f a)) (Q := Q)
    fun a mid hbefore ha => ⟨fun hmid heq => by
      cases heq
      exact ⟨hmid, hbefore, hf _ _ ha⟩⟩
  exact hlast.of_ok hc hp

theorem get_pass {f : Cursor → Parser β} (h : ∀ c, Gives text lo m (f c) Q) :
    Gives text lo m (get >>= f) Q :=
  ⟨fun {c} hlo hm => .get_bind fun _ => (h c).at_cursor hlo hm⟩

/-- Whatever is read from here on starts where the next token does, or behind. -/
theorem offset_bind {f : Nat → Parser β}
    (h : ∀ start, lo ≤ start → MayStart text start → Gives text start m (f start) Q) :
    Gives text lo m (offset >>= f) Q :=
  ⟨fun hlo hm => .offset_bind ⟨fun hc hp =>
    ((h _ hlo hc.mayStart).at_cursor (Nat.le_refl _) hm).of_ok hc hp⟩⟩

/-- **A range** goes from its start to the end of the last token read. -/
theorem rangeFrom_bind {f : TextRange → Parser β} (hstart : MayStart text start) (hpos : start < m)
    (h : ∀ range e, m ≤ e → range.Spans start e → range.OnTokens text →
      Gives text lo e (f range) Q) :
    Gives text lo m (rangeFrom start >>= f) Q := by
  refine ⟨fun {c} hlo hm => ⟨fun hc hp => ?_⟩⟩
  have hlt : start < c.lastEnd := Nat.lt_of_lt_of_le hpos hm
  have hspans : (c.rangeFrom start).Spans start c.lastEnd := .upTo hlt
  have htokens := hc.onTokens hstart hlt
  exact ((h _ _ hm hspans htokens).at_cursor hlo (Nat.le_refl _)).of_ok hc hp

/-- A range that nobody asks for. -/
theorem rangeFrom_pass {f : TextRange → Parser β} (h : ∀ range, Gives text lo m (f range) Q) :
    Gives text lo m (rangeFrom start >>= f) Q :=
  get_pass fun c => h (c.rangeFrom start)

theorem fail (message : String) : Gives text lo m (fail (α := α) message) P :=
  ⟨fun _ _ => .fail message⟩

theorem ite {q : Parser α} {b : Prop} [Decidable b] (hp : b → Gives text lo m p P)
    (hq : ¬b → Gives text lo m q P) : Gives text lo m (if b then p else q) P := by
  split
  next h => exact hp h
  next h => exact hq h

/-- Two ways to come to the same continuation. -/
theorem ite_bind {q : Parser α} {f : α → Parser β} {b : Prop} [Decidable b]
    (hp : b → Gives text lo m p P) (hq : ¬b → Gives text lo m q P)
    (hf : ∀ a e, m ≤ e → P e a → Gives text lo e (f a) Q) :
    Gives text lo m (if b then p >>= f else q >>= f) Q :=
  ite (fun h => (hp h).bind hf) fun h => (hq h).bind hf

end Gives

/-! ## Tokens -/

section Tokens

variable {P : Nat → α → Prop}

/-- A reader whose answer has no place. -/
abbrev GivesAny (text : String) (p : Parser α) : Prop :=
  ∀ {lo m}, Gives text lo m p fun _ _ => True

theorem GivesAny.at_cursor {p : Parser α} (h : GivesAny text p) (c : Cursor) :
    GivesAt text c c p fun _ _ => True :=
  Gives.at_cursor h (Nat.zero_le _) (Nat.zero_le _)

theorem gives_nextIs (kind : TokenKind) : GivesAny text (nextIs kind) :=
  .get_pass fun _ => .pure fun _ _ => True.intro

theorem gives_nextAre (first second : TokenKind) : GivesAny text (nextAre first second) :=
  .get_pass fun _ => .pure fun _ _ => True.intro

theorem gives_skip (n : Nat) : GivesAny text (skip n) :=
  ⟨fun _ _ => .modify ⟨n, rfl⟩⟩

theorem gives_advance : GivesAny text (modify (·.advance)) :=
  ⟨fun _ _ => .modify ⟨1, rfl⟩⟩

theorem gives_eat (kind : TokenKind) : GivesAny text (eat kind) := by
  refine (gives_nextIs kind).pass fun _ _ _ => .ite (fun _ => ?_) fun _ => ?_
  · exact gives_advance.pass fun _ _ _ => .pure fun _ _ => True.intro
  · exact .pure fun _ _ => True.intro

/-- A token that was asked for is of its kind and of the text, and read between `lo` and the end. -/
theorem gives_expect (kind : TokenKind) :
    Gives text lo m (expect kind) fun e token =>
      token.kind = kind ∧ token.IsOf text ∧ token.range.LiesIn lo e := by
  refine ⟨fun {c} hlo _ => .get_bind fun _ => ?_⟩
  split
  next token rest hrest =>
    split
    next hkind =>
      exact .skip_bind hrest fun htoken hlies => .pure fun _ he =>
        ⟨hkind, htoken, hlies.widen hlo he⟩
    next => exact .fail _
  next => exact .fail _

/-- **An identifier** is one of the words, and is spelled where it stands. -/
theorem gives_ident : Gives text lo m ident (Ident.ReadIn text lo) := by
  refine (gives_expect .ident).bind fun token e _ htoken => .pure fun e' he => ?_
  obtain ⟨hkind, htoken, hlies⟩ := htoken
  exact htoken.readIn hkind (hlies.widen (Nat.le_refl _) he)

theorem gives_succeeds {p : Parser α} : GivesAny text (succeeds p) := by
  refine ⟨fun _ _ => ⟨fun hc hp => ?_⟩⟩
  unfold succeeds at hp
  split at hp <;> cases hp <;> exact ⟨hc, .refl _, True.intro⟩

theorem gives_orElse {p recover : Parser α} (hp : Gives text lo m p P)
    (hrecover : Gives text lo m recover P) : Gives text lo m (orElse p recover) P := by
  refine ⟨fun hlo hm => ⟨fun hc h => ?_⟩⟩
  unfold orElse at h
  split at h
  next hok =>
    cases h
    exact (hp.at_cursor hlo hm).of_ok hc hok
  next => exact (hrecover.at_cursor hlo hm).of_ok hc h

end Tokens

/-! ## Answers that may be missing -/

section Missing

variable {P : Nat → α → Prop}

/-- What holds of an answer, if there is one. -/
def IfAny (P : Nat → α → Prop) (e : Nat) (o : Option α) : Prop := ∀ a, o = some a → P e a

/-- An answer that is given with certainty. -/
theorem Gives.some {p : Parser α} (h : Gives text lo m p P) :
    Gives text lo m (some <$> p) (IfAny P) :=
  h.map fun e a ha b hb => by
    cases hb
    exact ha

theorem Gives.none : Gives text lo m (Pure.pure (f := Parser) (none : Option α)) (IfAny P) :=
  .pure fun _ _ => nofun

theorem Gives.pure_some {a : α} (h : ∀ e, m ≤ e → P e a) :
    Gives text lo m (Pure.pure (f := Parser) (Option.some a)) (IfAny P) :=
  .pure fun e he b hb => by
    cases hb
    exact h e he

end Missing

/-! ## Loops -/

section Loops

variable {P : Nat → α → Prop} {R : Nat → Nat → α → Prop}

/-- Answers that were read one behind the other, each between the end of the one before it and its
own end. -/
inductive Rounds (R : Nat → Nat → α → Prop) : Nat → Nat → List α → Prop
  | nil {lo hi : Nat} : Rounds R lo hi []
  | cons {lo mid hi : Nat} {a : α} {as : List α} :
      R lo mid a → mid ≤ hi → Rounds R (max lo mid) hi as → Rounds R lo hi (a :: as)

theorem Rounds.upTo {lo hi hi' : Nat} {as : List α} (h : Rounds R lo hi as) (hle : hi ≤ hi') :
    Rounds R lo hi' as := by
  induction h with
  | nil => exact .nil
  | cons ha hmid _ ih => exact .cons ha (Nat.le_trans hmid hle) (ih hle)

/-- What follows from what was read behind the start of the loop. -/
theorem Rounds.imp_of_le {R' : Nat → Nat → α → Prop} {lo hi : Nat} {as : List α}
    (h : Rounds R lo hi as) (himp : ∀ {lo' hi a}, lo ≤ lo' → R lo' hi a → R' lo' hi a) :
    Rounds R' lo hi as := by
  induction h with
  | nil => exact .nil
  | cons ha hmid _ ih =>
    exact .cons (himp (Nat.le_refl _) ha) hmid
      (ih fun hle => himp (Nat.le_trans (Nat.le_max_left _ _) hle))

theorem Rounds.imp {R' : Nat → Nat → α → Prop} {lo hi : Nat} {as : List α} (h : Rounds R lo hi as)
    (himp : ∀ {lo hi a}, R lo hi a → R' lo hi a) : Rounds R' lo hi as :=
  h.imp_of_le fun _ => himp

/-- Answers that were read one behind the other were all read between the bounds of the loop. -/
theorem Rounds.all (hR : ∀ {lo lo' hi hi' a}, lo' ≤ lo → hi ≤ hi' → R lo hi a → R lo' hi' a)
    {lo hi : Nat} {as : List α} (h : Rounds R lo hi as) : ∀ a ∈ as, R lo hi a := by
  induction h with
  | nil => simp
  | cons ha hmid _ ih =>
    refine List.forall_mem_cons.2 ⟨hR (Nat.le_refl _) hmid ha, fun a ha => ?_⟩
    exact hR (Nat.le_max_left _ _) (Nat.le_refl _) (ih a ha)

theorem Rounds.forall_mem {Q : α → Prop} {lo hi : Nat} {as : List α}
    (h : Rounds (fun _ _ a => Q a) lo hi as) : ∀ a ∈ as, Q a := by
  induction h with
  | nil => simp
  | cons ha _ _ ih => exact List.forall_mem_cons.2 ⟨ha, ih⟩

theorem Rounds.exists_map {f : α → β} {lo hi : Nat} {bs : List β}
    (h : Rounds (fun lo hi b => ∃ a, b = f a ∧ R lo hi a) lo hi bs) :
    ∃ as, bs = as.map f ∧ Rounds R lo hi as := by
  induction h with
  | nil => exact ⟨[], rfl, .nil⟩
  | cons hb hmid _ ih =>
    obtain ⟨a, rfl, ha⟩ := hb
    obtain ⟨as, rfl, has⟩ := ih
    exact ⟨a :: as, rfl, .cons ha hmid has⟩

theorem gives_manyUpTo {p : Parser (Option α)} (h : ∀ lo m, Gives text lo m p (IfAny (R lo)))
    (n : Nat) : Gives text lo m (manyUpTo p n) (Rounds R lo) := by
  induction n generalizing lo m with
  | zero => exact .pure fun _ _ => .nil
  | succ n ih =>
    refine (h lo m).bind fun o e _ ho => ?_
    split
    next => exact .pure fun _ _ => .nil
    next a =>
      refine ih.behind.bind fun as last hle has => .pure fun e' he => ?_
      exact .cons (ho a rfl) (Nat.le_trans hle he) (has.upTo he)

/-- **The rounds of a loop** are read one behind the other. -/
theorem gives_many {p : Parser (Option α)} (h : ∀ lo m, Gives text lo m p (IfAny (R lo))) :
    Gives text lo m (many p) (Rounds R lo) :=
  .get_pass fun _ => gives_manyUpTo h _

theorem gives_growUpTo {step : α → Parser (Option α)} (hP : Lasting P)
    (h : ∀ m a, P m a → Gives text lo m (step a) (IfAny P)) (n : Nat) {a : α} (ha : P m a) :
    Gives text lo m (growUpTo step n a) P := by
  induction n generalizing m a with
  | zero => exact .pure fun e he => hP.upTo he ha
  | succ n ih =>
    refine (h m a ha).bind fun o e hm ho => ?_
    split
    next => exact .pure fun e' he => hP.upTo (Nat.le_trans hm he) ha
    next b => exact ih (ho b rfl)

/-- **A value that grows** keeps what every step keeps. -/
theorem gives_grow {step : α → Parser (Option α)} (hP : Lasting P)
    (h : ∀ m a, P m a → Gives text lo m (step a) (IfAny P)) {a : α} (ha : P m a) :
    Gives text lo m (grow step a) P :=
  .get_pass fun _ => gives_growUpTo hP h _ ha

theorem gives_sepByComma {item : Parser α} (hR : ∀ lo, Lasting (R lo))
    (h : ∀ lo m, Gives text lo m item (R lo)) :
    Gives text lo m (sepByComma item) (Rounds R lo) := by
  have hnext : ∀ lo m, Gives text lo m (do
      if ← eat Symbol.comma then return some (← item) else return none) (IfAny (R lo)) := by
    intro lo m
    refine (gives_eat _).pass fun _ _ _ => .ite (fun _ => ?_) fun _ => .none
    exact (h lo m).bind fun a e _ ha => .pure_some fun e' he => (hR lo).upTo he ha
  refine (h lo m).bind fun first e _ hfirst => ?_
  refine (gives_many hnext).behind.bind fun others e' hle hothers => .pure fun last he => ?_
  exact .cons hfirst (Nat.le_trans hle he) (hothers.upTo he)

/-- **Items up to a closing token** are read one behind the other. -/
theorem gives_manyUntil {close : TokenKind} {message : String} {item : Parser α}
    (hR : ∀ lo, Lasting (R lo)) (h : ∀ lo m, Gives text lo m item (R lo)) :
    Gives text lo m (manyUntil close message item) (Rounds R lo) := by
  refine gives_many fun lo m => (gives_eat _).pass fun _ _ _ => .ite (fun _ => .none) fun _ => ?_
  refine .get_pass fun _ => .ite (fun _ => .fail _) fun _ => ?_
  exact (h lo m).bind fun a e _ ha => .pure_some fun e' he => (hR lo).upTo he ha

theorem gives_parenthesized {item : Parser α} (hR : ∀ lo, Lasting (R lo))
    (h : ∀ lo m, Gives text lo m item (R lo)) :
    Gives text lo m (parenthesized item) fun e as => lo < e ∧ Rounds R lo e as := by
  refine (gives_expect _).bind fun paren e _ hparen => (gives_eat _).pass fun _ _ _ => ?_
  have hlt : lo < e := hparen.2.2.lt
  refine .ite (fun _ => .pure fun e' he => ⟨Nat.lt_of_lt_of_le hlt he, .nil⟩) fun _ => ?_
  refine (gives_sepByComma hR h).bind fun items e' hle hitems => ?_
  refine (gives_expect _).pass fun _ _ _ => .pure fun last he => ?_
  exact ⟨Nat.lt_of_lt_of_le hlt (Nat.le_trans hle he), hitems.upTo he⟩

end Loops

/-! ## Brackets -/

theorem gives_skipBalanced (opening closing : TokenKind) :
    Gives text lo m (skipBalanced opening closing) fun e _ => lo < e := by
  refine (gives_expect _).bind fun paren e _ hparen => ?_
  have hlt : lo < e := hparen.2.2.lt
  refine ⟨fun {c} _ hm => .get_bind fun hc => ?_⟩
  split
  next lastEnd rest hrest =>
    obtain ⟨n, hn⟩ := exists_skip_of_afterClosing hrest
    refine ⟨fun _ hp => ?_⟩
    cases hp
    rw [hn]
    obtain ⟨hskipped, hbefore⟩ := hc.skip n
    exact ⟨hskipped, hbefore,
      Nat.lt_of_lt_of_le hlt (Nat.le_trans hm hbefore.lastEnd_le)⟩
  next =>
    refine ⟨fun _ hp => ?_⟩
    cases hp

theorem gives_typeArguments : GivesAny text typeArguments :=
  (gives_nextIs _).pass fun _ _ _ =>
    .ite (fun _ => (gives_skipBalanced _ _).imp fun _ _ _ => True.intro)
      fun _ => .pure fun _ _ => True.intro

theorem gives_skipToDeclaratorEnd : GivesAny text skipToDeclaratorEnd :=
  ⟨fun _ _ => .modify (exists_skip_declaratorEnd _ _ _ _)⟩

end Parser

end SourceSearch
