/-!
# Name patterns with wildcards

In a pattern `*` stands for any bytes, `?` for one byte, and every other byte for itself.
`Glob.Matches` says so. `Glob.isMatch` decides it in a loop that goes through pattern and name side
by side. Of the stars that it has met it remembers the last one only: where it cannot go on, that
star takes one byte more and the loop goes on behind it.
-/

set_option autoImplicit false

namespace SourceSearch.Glob

/-- The byte of `*`. -/
def star : UInt8 := 42

/-- The byte of `?`. -/
def anyByte : UInt8 := 63

/-- The name can be cut into what the bytes of the pattern stand for. -/
inductive Matches : List UInt8 → List UInt8 → Prop
  | nil : Matches [] []
  | star {pattern name : List UInt8} (skipped : List UInt8) (rest : Matches pattern name) :
      Matches (star :: pattern) (skipped ++ name)
  | any {pattern name : List UInt8} (byte : UInt8) (rest : Matches pattern name) :
      Matches (anyByte :: pattern) (byte :: name)
  | byte {pattern name : List UInt8} (byte : UInt8) (ne_star : byte ≠ Glob.star)
      (rest : Matches pattern name) : Matches (byte :: pattern) (byte :: name)

/-- Where the loop is: what is left of the pattern and of the name, and for the last star that it
met the pattern behind the star and the name from where the star ends. From there it has come on by
as many bytes of the pattern, none of them a star, as of the name. -/
structure State where
  pattern : List UInt8
  name : List UInt8
  lastStar : Option (List UInt8 × List UInt8)
  comesFrom : ∀ behind later, lastStar = some (behind, later) →
    ∃ passed taken, behind = passed ++ pattern ∧ later = taken ++ name ∧
      passed.length = taken.length ∧ star ∉ passed

namespace State

/-- Nothing is read yet. -/
def start (pattern name : List UInt8) : State := ⟨pattern, name, none, nofun⟩

/-- The last star has just ended. -/
def behindStar (behind later : List UInt8) : State where
  pattern := behind
  name := later
  lastStar := some (behind, later)
  comesFrom := by
    rintro _ _ ⟨⟩
    exact ⟨[], [], rfl, rfl, rfl, List.not_mem_nil⟩

/-- One byte of the pattern, which is no star, has taken one byte of the name. -/
def advance (s : State) {p byte : UInt8} {pattern name : List UInt8}
    (hpattern : s.pattern = p :: pattern) (hname : s.name = byte :: name) (hp : p ≠ star) :
    State where
  pattern := pattern
  name := name
  lastStar := s.lastStar
  comesFrom := by
    intro behind later hlast
    obtain ⟨passed, taken, rfl, rfl, hlength, hstar⟩ := s.comesFrom behind later hlast
    refine ⟨passed ++ [p], taken ++ [byte], by simp [hpattern], by simp [hname], by simp [hlength],
      ?_⟩
    rw [List.mem_append, List.mem_singleton, not_or]
    exact ⟨hstar, Ne.symm hp⟩

/-- The last star takes one byte more, if there is such a star and such a byte. -/
def retry (s : State) : Bool ⊕ State :=
  match s.lastStar with
  | some (behind, _ :: later) => .inr (behindStar behind later)
  | _ => .inl false

/-- One turn of the loop, which ends it with an answer or leads to the next turn. -/
def step (s : State) : Bool ⊕ State :=
  match hname : s.name, hpattern : s.pattern with
  | [], pattern => .inl (pattern.all (· == star))
  | _ :: _, [] => s.retry
  | byte :: name, p :: pattern =>
    if hp : p = star then .inr (behindStar pattern (byte :: name))
    else if p = anyByte ∨ p = byte then .inr (s.advance hpattern hname hp)
    else s.retry

/-- No more turns than this are to come: for each byte that the last star can still take, all of the
pattern behind the star, and at last what is left of the pattern now. -/
def turns (s : State) : Nat :=
  match s.lastStar with
  | none => (s.name.length + 1) * (s.pattern.length + 1) + s.pattern.length
  | some (behind, later) => later.length * (behind.length + 1) + s.pattern.length

/-- Behind a star that is met there is less to come, however often the one before could be tried. -/
theorem turns_behindStar_lt {s : State} {p byte : UInt8} {pattern name : List UInt8}
    (hpattern : s.pattern = p :: pattern) (hname : s.name = byte :: name) :
    (behindStar pattern (byte :: name)).turns < s.turns := by
  unfold turns
  rw [hpattern, hname]
  simp only [behindStar, List.length_cons]
  split
  next =>
    have hless : (name.length + 1) * (pattern.length + 1) ≤
        (name.length + 1 + 1) * (pattern.length + 1 + 1) :=
      Nat.mul_le_mul (Nat.le_succ _) (Nat.le_succ _)
    omega
  next behind later hlast =>
    obtain ⟨passed, taken, rfl, rfl, -⟩ := s.comesFrom behind later hlast
    have hless : (name.length + 1) * (pattern.length + 1) ≤
        (taken ++ s.name).length * ((passed ++ s.pattern).length + 1) := by
      rw [hpattern, hname]
      exact Nat.mul_le_mul (by simp) (by simp; omega)
    omega

theorem turns_advance_lt {s : State} {p byte : UInt8} {pattern name : List UInt8}
    (hpattern : s.pattern = p :: pattern) (hname : s.name = byte :: name) (hp : p ≠ star) :
    (s.advance hpattern hname hp).turns < s.turns := by
  unfold turns
  rw [hpattern, hname]
  simp only [advance, List.length_cons]
  split
  next =>
    have hless : (name.length + 1) * (pattern.length + 1) ≤
        (name.length + 1 + 1) * (pattern.length + 1 + 1) :=
      Nat.mul_le_mul (Nat.le_succ _) (Nat.le_succ _)
    omega
  next => omega

theorem turns_lt_of_retry {s next : State} (h : s.retry = .inr next) : next.turns < s.turns := by
  unfold retry at h
  split at h
  next behind byte later hlast =>
    cases h
    simp only [turns, hlast, behindStar, List.length_cons, Nat.succ_mul]
    omega
  next => cases h

/-- **Each turn** leaves fewer turns, also where it goes back in the name. -/
theorem turns_lt_of_step {s next : State} (h : s.step = .inr next) : next.turns < s.turns := by
  unfold step at h
  split at h
  next => cases h
  next => exact turns_lt_of_retry h
  next byte name p pattern hname hpattern =>
    split at h
    next =>
      cases h
      exact turns_behindStar_lt hpattern hname
    next hp =>
      split at h
      next =>
        cases h
        exact turns_advance_lt hpattern hname hp
      next => exact turns_lt_of_retry h

/-- The answer of the loop. -/
def run (s : State) : Bool :=
  match _h : s.step with
  | .inl answer => answer
  | .inr next => run next
termination_by s.turns
decreasing_by exact turns_lt_of_step _h

end State

/-- Whether the name matches the pattern. -/
def isMatch (pattern name : List UInt8) : Bool := (State.start pattern name).run

end SourceSearch.Glob
