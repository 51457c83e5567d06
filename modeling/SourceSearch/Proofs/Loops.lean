import SourceSearch.Proofs.ReaderBounds

/-!
# Loops of readers

A loop is bounded by the number of tokens that are left. The bound is never come to when every round
that answers something reads a token (`Parser.Advances`): then a loop is its first round and the
loop again (`Parser.Advances.many_eq`, `Parser.grow_of_some`), and it is the only reader that is
(`Parser.Advances.eq_again_iff`, `Parser.eq_onceMore_iff`), as a loop without a bound would be.

Whether a round reads a token is told from one cursor (`Parser.AdvancesAt`), with a rule for every
combinator. A round that answers nothing may leave all tokens.
-/

set_option autoImplicit false

namespace SourceSearch.Parser

variable {α : Type} {n m : Nat} {c d : Cursor}

/-- Every round that answers something reads a token. -/
def Advances (p : Parser (Option α)) : Prop :=
  ∀ {c next : Cursor} {a : α}, p c = .ok (some a, next) → next.rest.length < c.rest.length

/-- Two bounds on the number of rounds do the same if both are more than the number of tokens. -/
theorem Advances.manyUpTo_eq {p : Parser (Option α)} (hp : Advances p) {c : Cursor}
    (hn : c.rest.length < n) (hm : c.rest.length < m) : manyUpTo p n c = manyUpTo p m c := by
  induction n generalizing m c with
  | zero => exact absurd hn (Nat.not_lt_zero _)
  | succ n ih =>
    obtain ⟨m, rfl⟩ : ∃ k, m = k + 1 := ⟨m - 1, by omega⟩
    rw [manyUpTo, manyUpTo]
    cases hround : p c with
    | error e => rw [bind_of_error hround, bind_of_error hround]
    | ok pair =>
      obtain ⟨o, next⟩ := pair
      rw [bind_of_ok hround, bind_of_ok hround]
      cases o with
      | none => rfl
      | some a =>
        have hless := hp hround
        have hrest := ih (m := m) (c := next) (by omega) (by omega)
        exact congrArg (· >>= fun r => (pure (a :: r.1) : Parser (List α)) r.2) hrest

/-- **A loop** is its first round and the loop again. -/
theorem Advances.many_eq {p : Parser (Option α)} (hp : Advances p) :
    many p = do
      match ← p with
      | none => return []
      | some a => return a :: (← many p) := by
  funext c
  show manyUpTo p (c.rest.length + 1) c = _
  rw [manyUpTo]
  cases hround : p c with
  | error e => rw [bind_of_error hround, bind_of_error hround]
  | ok pair =>
    obtain ⟨o, next⟩ := pair
    rw [bind_of_ok hround, bind_of_ok hround]
    cases o with
    | none => rfl
    | some a =>
      have hrest := hp.manyUpTo_eq (hp hround) (Nat.lt_succ_self _)
      exact congrArg (· >>= fun r => (pure (a :: r.1) : Parser (List α)) r.2) hrest

/-- A loop that ends at once answers nothing. -/
theorem many_of_none {p : Parser (Option α)} {c d : Cursor} (h : p c = .ok (none, d)) :
    many p c = .ok ([], d) := by
  show manyUpTo p (c.rest.length + 1) c = _
  rw [manyUpTo, bind_of_ok h]
  rfl

/-- A loop that answers nothing ends at once. -/
theorem Advances.many_eq_nil_iff {p : Parser (Option α)} (hp : Advances p) {c d : Cursor} :
    many p c = .ok ([], d) ↔ p c = .ok (none, d) := by
  refine ⟨fun h => ?_, many_of_none⟩
  rw [hp.many_eq] at h
  obtain ⟨o, mid, hround, h⟩ := of_bind_eq_ok h
  cases o with
  | none =>
    cases h
    exact hround
  | some a =>
    obtain ⟨_, _, -, h⟩ := of_bind_eq_ok h
    cases h

/-- A loop answers what its first round does, and then what the loop does from there. -/
theorem Advances.many_eq_cons_iff {p : Parser (Option α)} (hp : Advances p) {c d : Cursor} {a : α}
    {as : List α} : many p c = .ok (a :: as, d) ↔
      ∃ mid, p c = .ok (some a, mid) ∧ many p mid = .ok (as, d) := by
  constructor
  · intro h
    rw [hp.many_eq] at h
    obtain ⟨o, mid, hround, h⟩ := of_bind_eq_ok h
    cases o with
    | none => cases h
    | some b =>
      obtain ⟨bs, after, hrest, h⟩ := of_bind_eq_ok h
      cases h
      exact ⟨mid, hround, hrest⟩
  · rintro ⟨mid, hround, hrest⟩
    rw [hp.many_eq, bind_of_ok hround]
    exact bind_of_ok hrest _

/-- A loop ends with a round that answers nothing. -/
theorem Advances.exists_last {p : Parser (Option α)} (hp : Advances p) {c d : Cursor} {as : List α}
    (h : many p c = .ok (as, d)) : ∃ mid, p mid = .ok (none, d) := by
  induction as generalizing c with
  | nil => exact ⟨c, hp.many_eq_nil_iff.1 h⟩
  | cons a as ih =>
    obtain ⟨mid, -, hrest⟩ := hp.many_eq_cons_iff.1 h
    exact ih hrest

/-- A round of a loop and what goes on behind it. -/
def again (p : Parser (Option α)) (loop : Parser (List α)) : Parser (List α) := do
  match ← p with
  | none => return []
  | some a => return a :: (← loop)

/-- **What a loop does** is settled by its rounds, when every round that answers something reads a
token. -/
theorem Advances.eq_again_iff {p : Parser (Option α)} (hp : Advances p) {loop : Parser (List α)} :
    loop = again p loop ↔ loop = many p := by
  constructor
  · intro hloop
    funext c
    induction hn : c.rest.length using Nat.strong_induction_on generalizing c with
    | h n ih =>
      subst hn
      rw [hloop, hp.many_eq, again]
      cases hround : p c with
      | error e => rw [bind_of_error hround, bind_of_error hround]
      | ok pair =>
        obtain ⟨o, next⟩ := pair
        rw [bind_of_ok hround, bind_of_ok hround]
        cases o with
        | none => rfl
        | some a => exact bind_of_run_eq (ih _ (hp hround) next rfl) _
  · rintro rfl
    exact hp.many_eq

/-! ## Loops that replace their answer -/

/-- Two bounds on the number of rounds do the same if both are more than the number of tokens and
every round that answers something reads a token. -/
theorem growUpTo_eq {step : α → Parser (Option α)} (hstep : ∀ a, Advances (step a)) {c : Cursor}
    {a : α} (hn : c.rest.length < n) (hm : c.rest.length < m) :
    growUpTo step n a c = growUpTo step m a c := by
  induction n generalizing m c a with
  | zero => exact absurd hn (Nat.not_lt_zero _)
  | succ n ih =>
    obtain ⟨m, rfl⟩ : ∃ k, m = k + 1 := ⟨m - 1, by omega⟩
    rw [growUpTo, growUpTo]
    cases hround : step a c with
    | error e => rw [bind_of_error hround, bind_of_error hround]
    | ok pair =>
      obtain ⟨o, next⟩ := pair
      rw [bind_of_ok hround, bind_of_ok hround]
      cases o with
      | none => rfl
      | some b =>
        have hless := hstep a hround
        exact ih (by omega) (by omega)

/-- **A loop goes on** from what its first round answers. -/
theorem grow_of_some {step : α → Parser (Option α)} (hstep : ∀ a, Advances (step a))
    {c d : Cursor} {a b : α} (h : step a c = .ok (some b, d)) : grow step a c = grow step b d := by
  show growUpTo step (c.rest.length + 1) a c = growUpTo step (d.rest.length + 1) b d
  rw [growUpTo, bind_of_ok h]
  exact growUpTo_eq hstep (hstep a h) (Nat.lt_succ_self _)

/-- **What every round keeps** holds of the answer of a loop, where its last round answers
nothing. -/
theorem grow_keeps {step : α → Parser (Option α)} (hstep : ∀ a, Advances (step a))
    {P : α → Cursor → Prop}
    (hkeeps : ∀ {a b c mid}, P a c → step a c = .ok (some b, mid) → P b mid) {a b : α}
    (ha : P a c) (hok : grow step a c = .ok (b, d)) :
    ∃ mid, P b mid ∧ step b mid = .ok (none, d) := by
  induction hn : c.rest.length using Nat.strong_induction_on generalizing a c with
  | h n ih =>
    subst hn
    obtain ⟨o, mid, hround, hrest⟩ := of_bind_eq_ok (show (growUpTo step (_ + 1) a c = _) from hok)
    cases o with
    | none =>
      cases hrest
      exact ⟨c, ha, hround⟩
    | some next =>
      rw [grow_of_some hstep hround] at hok
      exact ih _ (hstep a hround) (hkeeps ha hround) hok rfl

/-- A round of a loop that replaces its answer, and what goes on behind it. -/
def onceMore (step : α → Parser (Option α)) (loop : α → Parser α) (a : α) : Parser α := do
  match ← step a with
  | none => return a
  | some b => loop b

/-- **What a loop that replaces its answer does** is settled by its rounds too. -/
theorem eq_onceMore_iff {step : α → Parser (Option α)} (hstep : ∀ a, Advances (step a))
    {loop : α → Parser α} : loop = onceMore step loop ↔ loop = grow step := by
  -- one round of a loop whose later rounds are known
  have hround : ∀ {loop' : α → Parser α} {a : α} {c : Cursor},
      (∀ {b : α} {next : Cursor}, step a c = .ok (some b, next) →
        loop' b next = grow step b next) → onceMore step loop' a c = grow step a c := by
    intro loop' a c hnext
    cases hround : step a c with
    | error e =>
      show (step a >>= _) c = growUpTo step (c.rest.length + 1) a c
      rw [growUpTo, bind_of_error hround, bind_of_error hround]
    | ok pair =>
      obtain ⟨o, next⟩ := pair
      cases o with
      | none =>
        show (step a >>= _) c = growUpTo step (c.rest.length + 1) a c
        rw [growUpTo, bind_of_ok hround, bind_of_ok hround]
      | some b =>
        rw [grow_of_some hstep hround, ← hnext hround]
        exact bind_of_ok hround _
  constructor
  · intro hloop
    funext a c
    induction hn : c.rest.length using Nat.strong_induction_on generalizing a c with
    | h n ih =>
      subst hn
      rw [hloop]
      exact hround fun hok => ih _ (hstep a hok) _ _ rfl
  · rintro rfl
    funext a c
    exact (hround fun _ => rfl).symm

/-! ## Rounds that read a token -/

/-- A round from this cursor that answers something reads a token. -/
structure AdvancesAt (c : Cursor) (p : Parser (Option α)) : Prop where
  lt_of_some : ∀ {next : Cursor} {a : α}, p c = .ok (some a, next) →
    next.rest.length < c.rest.length

theorem advances_of_at {p : Parser (Option α)} (h : ∀ c, AdvancesAt c p) : Advances p :=
  fun hok => (h _).lt_of_some hok

namespace AdvancesAt

variable {p q : Parser (Option α)} {kind : TokenKind}

theorem none : AdvancesAt c (pure none : Parser (Option α)) := by
  refine ⟨fun hok => ?_⟩
  cases hok

/-- A reader that reads a token whenever it succeeds. -/
theorem of_leaves (h : Leaves (c.rest.length + 1) c.rest.length p) : AdvancesAt c p :=
  ⟨fun hok => (h.at_cursor (Nat.lt_succ_self _)).lt_of_ok hok⟩

theorem ite {b : Prop} [Decidable b] (hp : b → AdvancesAt c p) (hq : ¬b → AdvancesAt c q) :
    AdvancesAt c (if b then p else q) := by
  split
  next h => exact hp h
  next h => exact hq h

theorem get_bind {f : Cursor → Parser (Option α)} (h : AdvancesAt c (f c)) :
    AdvancesAt c (get >>= f) :=
  ⟨fun hok => h.lt_of_some hok⟩

theorem nextIs_bind {f : Bool → Parser (Option α)} (h : AdvancesAt c (f (c.nextIs kind))) :
    AdvancesAt c (nextIs kind >>= f) :=
  ⟨fun hok => h.lt_of_some hok⟩

/-- What follows two tokens that were looked at. -/
theorem nextAre_bind {second : TokenKind} {f : Bool → Parser (Option α)}
    (h : AdvancesAt c (f (c.nextIs kind && c.kindAt 1 == some second))) :
    AdvancesAt c (nextAre kind second >>= f) :=
  ⟨fun hok => h.lt_of_some hok⟩

/-- What follows a token that is there. -/
theorem skip_bind (hc : c.rest ≠ []) {f : Unit → Parser (Option α)}
    (h : Leaves c.rest.length c.rest.length (f ())) (count : Nat) :
    AdvancesAt c (skip (count + 1) >>= f) :=
  ⟨fun hok => ((AgreeAt.skip hc (Nat.lt_succ_self _) count).bind fun _ => h).lt_of_ok hok⟩

/-- What follows a token, or stands where there is another one. -/
theorem eat_bind {f : Bool → Parser (Option α)}
    (htrue : Leaves c.rest.length c.rest.length (f true)) (hfalse : AdvancesAt c (f false)) :
    AdvancesAt c (eat kind >>= f) := by
  refine ⟨fun hok => ?_⟩
  cases hnext : c.nextIs kind with
  | false =>
    rw [eat_bind_of_not hnext] at hok
    exact hfalse.lt_of_some hok
  | true =>
    rw [eat_bind_of_next hnext] at hok
    exact (htrue.at_cursor (Cursor.length_advance_lt_of_nextIs hnext)).lt_of_ok hok

end AdvancesAt

/-! ## Items up to a closing token -/

/-- A round that answers something is a run of the item. -/
theorem of_untilClosed_eq_ok {close : TokenKind} {message : String} {item : Parser α} {c d : Cursor}
    {a : α} (h : untilClosed close message item c = .ok (some a, d)) :
    c.nextIs close = false ∧ c.rest.isEmpty = false ∧ item c = .ok (a, d) := by
  unfold untilClosed at h
  cases hnext : c.nextIs close with
  | true =>
    rw [eat_bind_of_next hnext] at h
    cases h
  | false =>
    rw [eat_bind_of_not hnext] at h
    cases hempty : c.rest.isEmpty with
    | true =>
      rw [if_neg Bool.false_ne_true, get_bind_eq, if_pos hempty] at h
      cases h
    | false =>
      rw [if_neg Bool.false_ne_true, get_bind_eq, hempty,
        if_neg Bool.false_ne_true] at h
      obtain ⟨b, mid, hitem, hpure⟩ := of_bind_eq_ok h
      cases hpure
      exact ⟨rfl, rfl, hitem⟩

/-- Where the loop does not end, a round is the item. -/
theorem untilClosed_of_open {close : TokenKind} {message : String} {item : Parser α} {c : Cursor}
    (hnext : c.nextIs close = false) (hempty : c.rest.isEmpty = false) :
    untilClosed close message item c = (some <$> item) c := by
  rw [untilClosed, eat_bind_of_not hnext, if_neg Bool.false_ne_true,
    get_bind_eq, hempty, if_neg Bool.false_ne_true, map_eq_pure_bind]

theorem advances_untilClosed {close : TokenKind} {message : String} {item : Parser α}
    (h : ∀ n, Leaves n (n - 1) item) : Advances (untilClosed close message item) :=
  fun hok => ((h _).at_cursor (Nat.lt_succ_self _)).lt_of_ok (of_untilClosed_eq_ok hok).2.2

end SourceSearch.Parser
