import SourceSearch.Parser.Declarations
import SourceSearch.Proofs.TokenOrder

/-!
# How much readers leave

`Parser.Agree n m p q` is about the runs of two readers from a place with fewer than `n` tokens
left. Both runs are the same there, and one that succeeds goes past some of these tokens and leaves
fewer than `m`. Two readers that differ only in the readers they use further inside agree when those
agree from the places that are come to, so that the bounds tell how deep a reader goes. A reader
that uses no others agrees with itself, and only the second bound says something of it
(`Parser.Leaves`).

As in the rules about what readers give, there is one rule for every combinator, and a rule about a
reader follows its text from one line to the next.
-/

set_option autoImplicit false

namespace SourceSearch

namespace Cursor

theorem length_advance_le (c : Cursor) : c.advance.rest.length ≤ c.rest.length := by
  unfold advance
  split
  next t rest hrest =>
    rw [hrest]
    exact Nat.le_succ _
  next => exact Nat.le_refl _

theorem length_advance_lt {c : Cursor} (h : c.rest ≠ []) :
    c.advance.rest.length < c.rest.length := by
  obtain ⟨t, rest, hrest⟩ := List.exists_cons_of_ne_nil h
  rw [advance_of_rest hrest, hrest]
  exact Nat.lt_succ_self _

theorem length_skip_le (n : Nat) (c : Cursor) : (c.skip n).rest.length ≤ c.rest.length := by
  induction n generalizing c with
  | zero => exact Nat.le_refl _
  | succ n ih => exact Nat.le_trans (ih _) c.length_advance_le

theorem rest_skip (c : Cursor) (n : Nat) : (c.skip n).rest = c.rest.drop n := by
  induction n generalizing c with
  | zero => rfl
  | succ n ih =>
    rw [Cursor.skip, ih]
    cases hrest : c.rest with
    | nil => simp [Cursor.advance, hrest]
    | cons t rest => rw [Cursor.advance_of_rest hrest, List.drop_succ_cons]

theorem skip_skip (c : Cursor) (n m : Nat) : (c.skip n).skip m = c.skip (n + m) := by
  induction n generalizing c with
  | zero => rw [Nat.zero_add]; rfl
  | succ n ih =>
    rw [Nat.add_right_comm]
    exact ih c.advance

/-- From the one cursor to the other the reading goes past some tokens. -/
def Onward (c next : Cursor) : Prop := ∃ n, next = c.skip n

theorem Onward.refl (c : Cursor) : c.Onward c := ⟨0, rfl⟩

theorem Onward.trans {c mid next : Cursor} (h : c.Onward mid) (h' : mid.Onward next) :
    c.Onward next := by
  obtain ⟨n, rfl⟩ := h
  obtain ⟨m, rfl⟩ := h'
  exact ⟨n + m, c.skip_skip n m⟩

/-- The tokens that the reading has gone past stand before those that are left. -/
theorem Onward.exists_rest_eq {c next : Cursor} (h : c.Onward next) :
    ∃ tokens, c.rest = tokens ++ next.rest := by
  obtain ⟨n, rfl⟩ := h
  exact ⟨c.rest.take n, by rw [rest_skip, List.take_append_drop]⟩

/-- The token of a kind that comes next. -/
theorem exists_cons_of_kind? {c : Cursor} {kind : TokenKind} (h : c.kind? = some kind) :
    ∃ text range rest, c.rest = ⟨kind, text, range⟩ :: rest := by
  cases hrest : c.rest with
  | nil =>
    rw [kind?, hrest] at h
    cases h
  | cons t rest =>
    rw [kind?, hrest] at h
    obtain rfl : t.kind = kind := Option.some.inj h
    exact ⟨t.text, t.range, rest, rfl⟩

theorem rest_ne_nil_of_kind? {c : Cursor} {kind : TokenKind} (h : c.kind? = some kind) :
    c.rest ≠ [] := by
  obtain ⟨text, range, rest, hrest⟩ := exists_cons_of_kind? h
  rw [hrest]
  exact List.cons_ne_nil _ _

theorem nextIs_of_kind {kind : TokenKind} {t : Token} {tokens : List Token} {lastEnd textEnd : Nat}
    (h : t.kind = kind) : nextIs ⟨t :: tokens, lastEnd, textEnd⟩ kind = true :=
  beq_iff_eq.2 (congrArg some h)

theorem length_advance_lt_of_nextIs {c : Cursor} {kind : TokenKind} (h : c.nextIs kind = true) :
    c.advance.rest.length < c.rest.length :=
  length_advance_lt (rest_ne_nil_of_kind? (eq_of_beq h))

end Cursor

namespace Parser

variable {α β : Type} {n m k : Nat}

/-- From this cursor two readers do the same. If they succeed, they come to a place onward from
another one, where the reading has been before, and leave fewer than `m` tokens. -/
structure AgreeFrom (origin c : Cursor) (m : Nat) (p q : Parser α) : Prop where
  run_eq : p c = q c
  lt_of_ok : ∀ {a next}, p c = .ok (a, next) → next.rest.length < m
  onward : ∀ {a next}, p c = .ok (a, next) → origin.Onward next

/-- From this cursor two readers do the same, go onward, and leave fewer than `m` tokens if they
succeed. -/
abbrev AgreeAt (c : Cursor) (m : Nat) (p q : Parser α) : Prop := AgreeFrom c c m p q

/-- From wherever fewer than `n` tokens are left, two readers do the same, go onward, and leave
fewer than `m` tokens if they succeed. -/
structure Agree (n m : Nat) (p q : Parser α) : Prop where
  at_cursor : ∀ {c : Cursor}, c.rest.length < n → AgreeAt c m p q

/-- From wherever fewer than `n` tokens are left, a reader that succeeds leaves fewer than `m`. -/
abbrev Leaves (n m : Nat) (p : Parser α) : Prop := Agree n m p p

/-! ## Runs -/

section Runs

variable {c mid : Cursor} {p : Parser α}

theorem bind_of_ok {a : α} (h : p c = .ok (a, mid)) (f : α → Parser β) :
    (p >>= f) c = f a mid := by
  rw [show (p >>= f) c = (p c >>= fun r => f r.1 r.2) from rfl, h]
  rfl

theorem bind_of_error {e : ParseError} (h : p c = .error e) (f : α → Parser β) :
    (p >>= f) c = .error e := by
  rw [show (p >>= f) c = (p c >>= fun r => f r.1 r.2) from rfl, h]
  rfl

/-- Runs that come to the same go on alike. -/
theorem bind_of_run_eq {q : Parser α} (h : p c = q mid) (f : α → Parser β) :
    (p >>= f) c = (q >>= f) mid := by
  cases hfirst : p c with
  | error e => rw [bind_of_error hfirst, bind_of_error (h.symm.trans hfirst)]
  | ok pair => rw [bind_of_ok hfirst, bind_of_ok (h.symm.trans hfirst)]

/-- A run of two readers is a run of the first and one of the second. -/
theorem of_bind_eq_ok {f : α → Parser β} {b : β} {next : Cursor} (h : (p >>= f) c = .ok (b, next)) :
    ∃ a mid, p c = .ok (a, mid) ∧ f a mid = .ok (b, next) := by
  cases hfirst : p c with
  | error e =>
    rw [bind_of_error hfirst] at h
    cases h
  | ok pair => exact ⟨pair.1, pair.2, rfl, (bind_of_ok hfirst f).symm.trans h⟩

/-- To look where the reading stands moves nothing. -/
theorem get_bind_eq (f : Cursor → Parser β) (c : Cursor) : (get >>= f) c = f c c := rfl

theorem nextIs_bind_eq (kind : TokenKind) (f : Bool → Parser β) (c : Cursor) :
    (nextIs kind >>= f) c = f (c.nextIs kind) c := rfl

theorem eat_eq (kind : TokenKind) (c : Cursor) :
    eat kind c = .ok (if c.nextIs kind then (true, c.advance) else (false, c)) := by
  rw [show eat kind c = (if c.nextIs kind = true then (do
        modify (·.advance)
        return true)
      else return false : Parser Bool) c from rfl]
  split <;> rfl

theorem eat_bind_of_next {kind : TokenKind} (h : c.nextIs kind = true) (f : Bool → Parser β) :
    (eat kind >>= f) c = f true c.advance :=
  bind_of_ok (by rw [eat_eq, h]; rfl) f

theorem eat_bind_of_not {kind : TokenKind} (h : c.nextIs kind = false) (f : Bool → Parser β) :
    (eat kind >>= f) c = f false c :=
  bind_of_ok (by rw [eat_eq, h]; rfl) f

/-- A token that comes next is read when it is asked for. -/
theorem exists_expect_eq_ok {kind : TokenKind} (h : c.nextIs kind = true) :
    ∃ t, expect kind c = .ok (t, c.advance) := by
  obtain ⟨text, range, rest, hrest⟩ := Cursor.exists_cons_of_kind? (eq_of_beq h)
  refine ⟨⟨kind, text, range⟩, ?_⟩
  rw [expect, get_bind_eq]
  simp only [hrest, if_true]
  rfl

/-- A token that was asked for was the next one. -/
theorem of_expect_eq_ok {kind : TokenKind} {t : Token} {d : Cursor}
    (h : expect kind c = .ok (t, d)) : c.nextIs kind = true ∧ d = c.advance := by
  rw [expect, get_bind_eq] at h
  cases hrest : c.rest with
  | nil =>
    rw [hrest] at h
    cases h
  | cons next rest =>
    simp only [hrest] at h
    by_cases hkind : next.kind = kind
    · rw [if_pos hkind] at h
      cases h
      refine ⟨?_, rfl⟩
      rw [Cursor.nextIs, Cursor.kind?, hrest, beq_iff_eq]
      exact congrArg some hkind
    · rw [if_neg hkind] at h
      cases h

/-- A token that was asked for comes next. -/
theorem expect_of_kind {kind : TokenKind} {t : Token} {tokens : List Token} {lastEnd textEnd : Nat}
    (h : t.kind = kind) : expect kind ⟨t :: tokens, lastEnd, textEnd⟩ =
      .ok (t, ⟨tokens, t.range.stop, textEnd⟩) := by
  show (if t.kind = kind then (do
      modify (·.advance)
      return t)
    else fail ("expected " ++ kind.name) : Parser Token) ⟨t :: tokens, lastEnd, textEnd⟩ = _
  rw [if_pos h]
  rfl

/-- A token that was asked for does not come next. -/
theorem expect_of_not {kind : TokenKind} (h : c.nextIs kind = false) :
    expect kind c = .error ⟨"expected " ++ kind.name, c.offset⟩ := by
  rw [expect, get_bind_eq]
  cases hrest : c.rest with
  | nil => rfl
  | cons t rest =>
    have hkind : t.kind ≠ kind := by
      rw [Cursor.nextIs, Cursor.kind?, hrest] at h
      exact fun heq => beq_eq_false_iff_ne.1 h (congrArg some heq)
    exact congrFun (if_neg hkind) c

end Runs

/-! ## Rules for one cursor -/

namespace AgreeFrom

variable {origin c : Cursor} {p q : Parser α} {f f' : α → Parser β}

/-- Runs that come down to runs which agree. -/
theorem of_eq {d : Cursor} {p' q' : Parser α} (h : AgreeFrom origin d m p' q') (hp : p c = p' d)
    (hq : q c = q' d) : AgreeFrom origin c m p q :=
  ⟨hp.trans (h.run_eq.trans hq.symm), fun hok => h.lt_of_ok (hp ▸ hok),
    fun hok => h.onward (hp ▸ hok)⟩

theorem of_error {e : ParseError} (hp : p c = .error e) (hq : q c = .error e) :
    AgreeFrom origin c m p q := by
  refine ⟨hp.trans hq.symm, fun hok => ?_, fun hok => ?_⟩ <;>
  · rw [hp] at hok
    cases hok

theorem of_onward {mid : Cursor} (h : AgreeFrom mid c m p q) (hmid : origin.Onward mid) :
    AgreeFrom origin c m p q :=
  ⟨h.run_eq, h.lt_of_ok, fun hok => hmid.trans (h.onward hok)⟩

/-- **A run goes on** from where the run before it has come to, and may come back. -/
theorem bind_from (h : AgreeAt c k p q)
    (hf : ∀ a mid, c.Onward mid → mid.rest.length < k → AgreeFrom origin mid m (f a) (f' a)) :
    AgreeFrom origin c m (p >>= f) (q >>= f') := by
  cases hfirst : p c with
  | error e => exact .of_error (bind_of_error hfirst f) (bind_of_error (h.run_eq ▸ hfirst) f')
  | ok pair =>
    have hnext := hf pair.1 pair.2 (h.onward hfirst) (h.lt_of_ok hfirst)
    exact hnext.of_eq (bind_of_ok hfirst f) (bind_of_ok (h.run_eq ▸ hfirst) f')

/-- A run goes on from where the run before it has come to. -/
theorem bind (h : AgreeAt c k p q) (hf : ∀ a, Agree k m (f a) (f' a)) :
    AgreeAt c m (p >>= f) (q >>= f') :=
  bind_from h fun a _ hmid hless => ((hf a).at_cursor hless).of_onward hmid

theorem get_bind {f f' : Cursor → Parser β} (h : AgreeFrom origin c m (f c) (f' c)) :
    AgreeFrom origin c m (get >>= f) (get >>= f') :=
  h.of_eq rfl rfl

theorem offset_bind {f f' : Nat → Parser β} (h : AgreeFrom origin c m (f c.offset) (f' c.offset)) :
    AgreeFrom origin c m (offset >>= f) (offset >>= f') :=
  h.of_eq rfl rfl

/-- **To come back** to a cursor is to read from there. -/
theorem set_bind {back : Cursor} (h : AgreeFrom origin back m p q) :
    AgreeFrom origin c m (set back >>= fun _ => p) (set back >>= fun _ => q) :=
  h.of_eq rfl rfl

theorem fail (message : String) : AgreeFrom origin c m (fail (α := α) message) (fail message) :=
  .of_error rfl rfl

theorem ite {b : Prop} [Decidable b] {p' q' : Parser α} (hp : b → AgreeFrom origin c m p q)
    (hq : ¬b → AgreeFrom origin c m p' q') :
    AgreeFrom origin c m (if b then p else p') (if b then q else q') := by
  split
  next h => exact hp h
  next h => exact hq h

end AgreeFrom

/-- To go past a token that is there. -/
theorem AgreeAt.skip {c : Cursor} (hc : c.rest ≠ []) (hlt : c.rest.length < n + 1) (count : Nat) :
    AgreeAt c n (Parser.skip (count + 1)) (Parser.skip (count + 1)) := by
  refine ⟨rfl, fun hok => ?_, fun hok => ?_⟩
  · cases hok
    have hskipped := Cursor.length_skip_le count c.advance
    have hadvanced := Cursor.length_advance_lt hc
    show (c.advance.skip count).rest.length < n
    omega
  · cases hok
    exact ⟨count + 1, rfl⟩

/-! ## Rules -/

namespace Agree

variable {p q : Parser α} {f f' : α → Parser β}

/-- Two readers that agree do so from fewer places, and leave no more than they leave. -/
theorem mono {n' m' : Nat} (h : Agree n m p q) (hn : n' ≤ n) (hm : m ≤ m') :
    Agree n' m' p q := by
  refine ⟨fun hlt => ?_⟩
  have hat := h.at_cursor (Nat.lt_of_lt_of_le hlt hn)
  exact ⟨hat.run_eq, fun hok => Nat.lt_of_lt_of_le (hat.lt_of_ok hok) hm, hat.onward⟩

/-- What leaves few tokens is either of two readers that agree. -/
theorem right (h : Agree n m p q) : Leaves n m q := by
  refine ⟨fun hlt => ?_⟩
  have hat := h.at_cursor hlt
  exact ⟨rfl, fun hok => hat.lt_of_ok (hat.run_eq.trans hok),
    fun hok => hat.onward (hat.run_eq.trans hok)⟩

theorem pure (h : n ≤ m) (a : α) : Leaves n m (pure a) := by
  refine ⟨fun hlt => ⟨rfl, fun hok => ?_, fun hok => ?_⟩⟩ <;> cases hok
  · exact Nat.lt_of_lt_of_le hlt h
  · exact .refl _

/-- An answer that needs no reading. -/
theorem done {a : α} : Leaves n n (Pure.pure a) := pure (Nat.le_refl _) a

/-- **A reader goes on** from where the reader before it has come to. -/
theorem bind (h : Agree n k p q) (hf : ∀ a, Agree k m (f a) (f' a)) :
    Agree n m (p >>= f) (q >>= f') :=
  ⟨fun hlt => (h.at_cursor hlt).bind hf⟩

/-- Readers that read a token when they succeed leave no more than there was. -/
theorem of_read (h : Agree n (n - 1) p q) : Agree n n p q := h.mono (Nat.le_refl _) (Nat.sub_le _ _)

/-- A reader goes on behind a token, which is not counted. -/
theorem pass (h : Agree n (n - 1) p q) (hf : ∀ a, Agree n m (f a) (f' a)) :
    Agree n m (p >>= f) (q >>= f') :=
  h.of_read.bind hf

theorem map (h : Agree n m p q) (f : α → β) : Agree n m (f <$> p) (f <$> q) := by
  rw [map_eq_pure_bind, map_eq_pure_bind]
  exact h.bind fun _ => done

theorem get_bind {f f' : Cursor → Parser β} (h : ∀ c, Agree n m (f c) (f' c)) :
    Agree n m (get >>= f) (get >>= f') :=
  ⟨fun {c} hlt => .get_bind ((h c).at_cursor hlt)⟩

theorem fail (message : String) : Leaves n m (fail (α := α) message) :=
  ⟨fun _ => .fail message⟩

theorem ite {b : Prop} [Decidable b] {p' q' : Parser α} (hp : Agree n m p q)
    (hq : Agree n m p' q') : Agree n m (if b then p else p') (if b then q else q') := by
  split
  · exact hp
  · exact hq

/-- Two ways to come to the same continuation. -/
theorem ite_bind {b : Prop} [Decidable b] {p' q' : Parser α} (hp : Agree n k p q)
    (hq : Agree n k p' q') (hf : ∀ a, Agree k m (f a) (f' a)) :
    Agree n m (if b then p >>= f else p' >>= f) (if b then q >>= f' else q' >>= f') :=
  ite (hp.bind hf) (hq.bind hf)

/-- A token that was read is left no more. -/
theorem eat_bind {kind : TokenKind} {f f' : Bool → Parser β}
    (htrue : Agree (n - 1) m (f true) (f' true)) (hfalse : Agree n m (f false) (f' false)) :
    Agree n m (eat kind >>= f) (eat kind >>= f') := by
  refine ⟨fun {c} hlt => ?_⟩
  cases hnext : c.nextIs kind with
  | false =>
    exact (hfalse.at_cursor hlt).of_eq (eat_bind_of_not hnext f) (eat_bind_of_not hnext f')
  | true =>
    have hadvanced := Cursor.length_advance_lt_of_nextIs hnext
    have hlt' : c.advance.rest.length < n - 1 := by omega
    exact ((htrue.at_cursor hlt').of_onward ⟨1, rfl⟩).of_eq (eat_bind_of_next hnext f)
      (eat_bind_of_next hnext f')

end Agree

/-! ## Tokens -/

/-- A token at an offset. -/
def tokenAt (kind : TokenKind) (text : String) (start : Nat) : Token :=
  ⟨kind, text, .upTo start (start + text.utf8ByteSize)⟩

theorem leaves_offset : Leaves n n offset := .get_bind fun _ => .done

theorem leaves_rangeFrom (start : Nat) : Leaves n n (rangeFrom start) :=
  .get_bind fun _ => .done

/-- What is answered with the range of what was read. -/
theorem leaves_ranged (start : Nat) (f : TextRange → α) :
    Leaves n n (do return f (← rangeFrom start)) :=
  (leaves_rangeFrom start).bind fun _ => .done

theorem leaves_nextIs (kind : TokenKind) : Leaves n n (nextIs kind) :=
  .get_bind fun _ => .done

theorem leaves_nextAre (first second : TokenKind) : Leaves n n (nextAre first second) :=
  .get_bind fun _ => .done

theorem leaves_skip (count : Nat) : Leaves n n (skip count) := by
  refine ⟨fun {c} hlt => ⟨rfl, fun hok => ?_, fun hok => ?_⟩⟩ <;> cases hok
  · exact Nat.lt_of_le_of_lt (c.length_skip_le count) hlt
  · exact ⟨count, rfl⟩

theorem leaves_eat (kind : TokenKind) : Leaves n n (eat kind) := by
  rw [← bind_pure (eat kind)]
  exact .eat_bind (.pure (Nat.sub_le _ _) _) .done

/-- **A token** that was asked for is read. -/
theorem leaves_expect (kind : TokenKind) : Leaves n (n - 1) (expect kind) := by
  refine ⟨fun {c} hlt => .get_bind ?_⟩
  split
  next t rest hrest =>
    refine .ite (fun _ => ?_) fun _ => .fail _
    have hadvance : AgreeAt c (n - 1) (skip 1) (skip 1) :=
      .skip (by rw [hrest]; exact List.cons_ne_nil _ _) (by omega) 0
    exact hadvance.bind fun _ => .done
  next => exact .fail _

theorem leaves_ident : Leaves n (n - 1) ident :=
  (leaves_expect _).bind fun _ => .done

/-- To look ahead moves nothing. -/
theorem leaves_succeeds {p : Parser α} : Leaves n n (succeeds p) := by
  refine ⟨fun {c} hlt => ?_⟩
  have hstays : ∀ {a next}, succeeds p c = .ok (a, next) → next = c := by
    intro a next hok
    unfold succeeds at hok
    split at hok <;> cases hok <;> rfl
  exact ⟨rfl, fun hok => hstays hok ▸ hlt, fun hok => hstays hok ▸ .refl c⟩

theorem agree_orElse {p q recover recover' : Parser α} (h : Agree n m p q)
    (hrecover : Agree n m recover recover') :
    Agree n m (orElse p recover) (orElse q recover') := by
  refine ⟨fun {c} hlt => ?_⟩
  have hat := h.at_cursor hlt
  have hat' := hrecover.at_cursor hlt
  cases hfirst : p c with
  | ok r =>
    exact hat.of_eq (by simp only [orElse, hfirst]) (by simp only [orElse, ← hat.run_eq, hfirst])
  | error e =>
    exact hat'.of_eq (by simp only [orElse, hfirst]) (by simp only [orElse, ← hat.run_eq, hfirst])

/-! ## Loops -/

theorem agree_manyUpTo {p q : Parser (Option α)} (h : Agree n n p q) (rounds : Nat) :
    Agree n n (manyUpTo p rounds) (manyUpTo q rounds) := by
  induction rounds with
  | zero => exact .done
  | succ rounds ih =>
    refine h.bind fun o => ?_
    split
    · exact .done
    · exact ih.bind fun _ => .done

theorem agree_many {p q : Parser (Option α)} (h : Agree n n p q) :
    Agree n n (many p) (many q) :=
  .get_bind fun _ => agree_manyUpTo h _

theorem agree_growUpTo {step step' : α → Parser (Option α)}
    (h : ∀ a, Agree n n (step a) (step' a)) (rounds : Nat) (a : α) :
    Agree n n (growUpTo step rounds a) (growUpTo step' rounds a) := by
  induction rounds generalizing a with
  | zero => exact .done
  | succ rounds ih =>
    refine (h a).bind fun o => ?_
    split
    · exact .done
    · exact ih _

theorem agree_grow {step step' : α → Parser (Option α)} (h : ∀ a, Agree n n (step a) (step' a))
    (a : α) : Agree n n (grow step a) (grow step' a) :=
  .get_bind fun _ => agree_growUpTo h _ a

theorem agree_sepByComma {item item' : Parser α} (h : Agree n m item item') (hle : m ≤ n) :
    Agree n m (sepByComma item) (sepByComma item') := by
  have hlater := h.mono hle (Nat.le_refl _)
  refine h.bind fun first => (agree_many ?_).bind fun _ => .done
  exact (leaves_eat _).bind fun _ =>
    .ite (hlater.bind fun _ => .done) .done

/-- A round of items up to a closing token. -/
def untilClosed (close : TokenKind) (message : String) (item : Parser α) : Parser (Option α) := do
  if ← eat close then return none
  else if (← get).rest.isEmpty then fail message
  else return some (← item)

theorem manyUntil_eq (close : TokenKind) (message : String) (item : Parser α) :
    manyUntil close message item = many (untilClosed close message item) := rfl

theorem agree_untilClosed {close : TokenKind} {message : String} {item item' : Parser α}
    (h : Agree n m item item') (hle : n - 1 ≤ m) :
    Agree n m (untilClosed close message item) (untilClosed close message item') := by
  refine .eat_bind (.pure hle _) (.get_bind fun _ => .ite (.fail _) ?_)
  exact h.bind fun _ => .done

theorem agree_manyUntil {close : TokenKind} {message : String} {item item' : Parser α}
    (h : Agree n n item item') :
    Agree n n (manyUntil close message item) (manyUntil close message item') := by
  rw [manyUntil_eq, manyUntil_eq]
  exact agree_many (agree_untilClosed h (Nat.sub_le _ _))

theorem agree_parenthesized {item item' : Parser α}
    (h : Agree (n - 1) (n - 1) item item') :
    Agree n (n - 1) (parenthesized item) (parenthesized item') := by
  refine (leaves_expect _).bind fun _ => (leaves_eat _).bind fun _ => ?_
  refine .ite .done ?_
  exact (agree_sepByComma h (Nat.le_refl _)).bind fun _ =>
    (leaves_expect _).bind fun _ => .pure (Nat.sub_le _ _) _

/-! ## Brackets -/

theorem length_afterClosing {opening closing : TokenKind} {depth lastEnd : Nat}
    {tokens rest : List Token}
    (h : afterClosing opening closing depth tokens = some (lastEnd, rest)) :
    rest.length ≤ tokens.length := by
  obtain ⟨count, hskip⟩ := exists_skip_of_afterClosing (c := ⟨tokens, 0, 0⟩) h
  have hle := Cursor.length_skip_le count ⟨tokens, 0, 0⟩
  rwa [← hskip] at hle

theorem leaves_skipBalanced (opening closing : TokenKind) :
    Leaves n (n - 1) (skipBalanced opening closing) := by
  refine (leaves_expect _).bind fun _ => ⟨fun {c} hlt => .get_bind ?_⟩
  split
  next lastEnd rest hrest =>
    refine ⟨rfl, fun hok => ?_, fun hok => ?_⟩ <;> cases hok
    · exact Nat.lt_of_le_of_lt (length_afterClosing hrest) hlt
    · exact exists_skip_of_afterClosing hrest
  next => exact .of_error rfl rfl

theorem leaves_typeArguments : Leaves n n typeArguments :=
  (leaves_nextIs _).bind fun _ =>
    .ite ((leaves_skipBalanced _ _).mono (Nat.le_refl _) (Nat.sub_le _ _)) .done

theorem leaves_skipToDeclaratorEnd : Leaves n n skipToDeclaratorEnd := by
  refine ⟨fun {c} hlt => ?_⟩
  have hskip := exists_skip_declaratorEnd c.lastEnd 0 c.textEnd c.rest
  refine ⟨rfl, fun hok => ?_, fun hok => ?_⟩ <;> cases hok
  · obtain ⟨count, hskip⟩ := hskip
    have hle := Cursor.length_skip_le count c
    rw [← hskip] at hle
    exact Nat.lt_of_le_of_lt hle hlt
  · exact hskip

end Parser

end SourceSearch
