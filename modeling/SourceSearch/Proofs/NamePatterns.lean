import Mathlib.Data.List.Forall2
import Mathlib.Logic.Relation
import SourceSearch.Search.Pattern

/-!
# Which names a pattern matches

The loop of `Glob.isMatch` goes back to the last star only. Nothing is lost by that: whatever an
earlier star could take more, the last one can skip as well (`State.can_behindStar`). So each turn
keeps what the loop can come to (`State.can_iff_of_step`), and the loop decides `Matches`
(`isMatch_iff`), which says that the name can be cut into pieces that the bytes of the pattern stand
for (`matches_iff_exists_pieces`). A pattern without wildcards matches itself only, and since the
bytes of wildcards occur in no other character, so does a case-sensitive name pattern without
wildcards (`matches?_of_exactWord?`).
-/

set_option autoImplicit false

namespace SourceSearch

namespace Glob

variable {p byte : UInt8} {pattern name : List UInt8}

theorem matches_nil_iff : Matches [] name ↔ name = [] := by
  constructor
  · rintro ⟨⟩
    rfl
  · rintro rfl
    exact .nil

/-- Only stars match the empty name. -/
theorem matches_cons_nil_iff : Matches (p :: pattern) [] ↔ p = star ∧ Matches pattern [] := by
  constructor
  · intro h
    generalize hname : ([] : List UInt8) = name at h
    cases h with
    | star skipped rest =>
      obtain ⟨rfl, rfl⟩ := List.append_eq_nil_iff.1 hname.symm
      exact ⟨rfl, rest⟩
    | any byte rest => cases hname
    | byte byte ne_star rest => cases hname
  · rintro ⟨rfl, rest⟩
    exact .star [] rest

/-- A star skips some bytes, and what is behind it matches the rest. -/
theorem matches_star_iff :
    Matches (star :: pattern) name ↔
      ∃ skipped rest, name = skipped ++ rest ∧ Matches pattern rest := by
  constructor
  · intro h
    generalize hpattern : star :: pattern = glob at h
    cases h with
    | nil => cases hpattern
    | star skipped rest =>
      obtain ⟨-, rfl⟩ := List.cons.inj hpattern
      exact ⟨skipped, _, rfl, rest⟩
    | any other rest => cases hpattern
    | byte other ne_star rest => exact absurd (List.cons.inj hpattern).1.symm ne_star
  · rintro ⟨skipped, rest, rfl, h⟩
    exact .star skipped h

/-- A star skips nothing, or the first byte and perhaps more. -/
theorem matches_star_cons_iff :
    Matches (star :: pattern) (byte :: name) ↔
      Matches pattern (byte :: name) ∨ Matches (star :: pattern) name := by
  constructor
  · intro h
    obtain ⟨skipped, rest, hname, hrest⟩ := matches_star_iff.1 h
    cases skipped with
    | nil =>
      rw [List.nil_append] at hname
      exact .inl (hname ▸ hrest)
    | cons first skipped =>
      obtain ⟨-, rfl⟩ := List.cons.inj hname
      exact .inr (.star skipped hrest)
  · rintro (h | h)
    · exact .star [] h
    · obtain ⟨skipped, rest, rfl, hrest⟩ := matches_star_iff.1 h
      exact .star (byte :: skipped) hrest

/-- Everything but a star takes one byte. -/
theorem matches_cons_cons_iff (hp : p ≠ star) :
    Matches (p :: pattern) (byte :: name) ↔ (p = anyByte ∨ p = byte) ∧ Matches pattern name := by
  constructor
  · intro h
    generalize hname : byte :: name = whole at h
    cases h with
    | star skipped rest => exact absurd rfl hp
    | any other rest =>
      obtain ⟨-, rfl⟩ := List.cons.inj hname
      exact ⟨Or.inl rfl, rest⟩
    | byte other ne_star rest =>
      obtain ⟨rfl, rfl⟩ := List.cons.inj hname
      exact ⟨Or.inr rfl, rest⟩
  · rintro ⟨rfl | rfl, rest⟩
    · exact .any byte rest
    · exact .byte p hp rest

/-- A star can skip more. -/
theorem Matches.skip_more {rest : List UInt8} (skipped : List UInt8)
    (h : Matches (Glob.star :: pattern) rest) :
    Matches (Glob.star :: pattern) (skipped ++ rest) := by
  induction skipped with
  | nil => exact h
  | cons byte skipped ih => exact matches_star_cons_iff.2 (.inr ih)

/-- Bytes that are no stars take as many bytes of the name. -/
theorem Matches.exists_drop {passed : List UInt8} (hpassed : Glob.star ∉ passed)
    (h : Matches (passed ++ pattern) name) :
    ∃ taken rest, name = taken ++ rest ∧ taken.length = passed.length ∧ Matches pattern rest := by
  induction passed generalizing name with
  | nil => exact ⟨[], name, rfl, rfl, h⟩
  | cons p passed ih =>
    rw [List.mem_cons, not_or] at hpassed
    have hp : p ≠ Glob.star := Ne.symm hpassed.1
    cases name with
    | nil => exact absurd (matches_cons_nil_iff.1 h).1 hp
    | cons byte name =>
      obtain ⟨taken, rest, rfl, hlength, hrest⟩ :=
        ih hpassed.2 ((matches_cons_cons_iff hp).1 h).2
      exact ⟨byte :: taken, rest, rfl, by rw [List.length_cons, hlength, List.length_cons], hrest⟩

/-! ## The loop -/

namespace State

variable {s next : State}

/-- What a turn of the loop can still come to: the rest of the name matches, or it does when the
last star takes more. -/
def Can (s : State) : Prop :=
  Matches s.pattern s.name ∨
    ∃ behind byte later, s.lastStar = some (behind, byte :: later) ∧
      Matches (star :: behind) later

/-- **What the last star could take more** leaves bytes for what the loop has come on since, so a
later end of the name than the present one is left. -/
theorem exists_later {behind later : List UInt8} {byte : UInt8}
    (hlast : s.lastStar = some (behind, byte :: later)) (h : Matches (star :: behind) later) :
    ∃ first skipped rest, s.name = first :: (skipped ++ rest) ∧ Matches s.pattern rest := by
  obtain ⟨passed, taken, rfl, hlater, hlength, hstar⟩ := s.comesFrom _ _ hlast
  obtain ⟨skipped, found, rfl, hfound⟩ := matches_star_iff.1 h
  obtain ⟨retaken, rest, rfl, hretaken, hrest⟩ := hfound.exists_drop hstar
  -- both cuts of the name end in its rest, and the later one has taken at least one byte more
  have hsuffix : byte :: (skipped ++ retaken) ++ rest = taken ++ s.name := by
    simpa using hlater
  have hlonger : taken.length < (byte :: (skipped ++ retaken)).length := by
    simp only [List.length_cons, List.length_append]
    omega
  obtain ⟨more, hmore, hname⟩ : ∃ more, byte :: (skipped ++ retaken) = taken ++ more ∧
      s.name = more ++ rest := by
    rcases List.append_eq_append_iff.1 hsuffix with ⟨more, htaken, -⟩ | ⟨more, hmore, hname⟩
    · rw [htaken, List.length_append] at hlonger
      omega
    · exact ⟨more, hmore, hname⟩
  cases more with
  | nil =>
    rw [hmore, List.append_nil] at hlonger
    exact absurd hlonger (Nat.lt_irrefl _)
  | cons first more => exact ⟨first, more, rest, hname, hrest⟩

/-- Where the rest does not match, all depends on the last star. -/
theorem can_of_retry (hnot : ¬Matches s.pattern s.name) (h : s.retry = .inr next) :
    next.Can ↔ s.Can := by
  unfold retry at h
  split at h
  next behind byte later hlast =>
    cases h
    have hs : s.Can ↔ Matches (star :: behind) later := by
      unfold Can
      rw [hlast]
      constructor
      · rintro (h | ⟨_, _, _, ⟨⟩, h⟩)
        · exact absurd h hnot
        · exact h
      · exact fun h => .inr ⟨behind, byte, later, rfl, h⟩
    rw [hs]
    cases later with
    | nil => simp [Can, behindStar, matches_cons_nil_iff]
    | cons first later => simp [Can, behindStar, matches_star_cons_iff]
  next => cases h

theorem not_can_of_retry (hnot : ¬Matches s.pattern s.name) {answer : Bool}
    (h : s.retry = .inl answer) : answer = true ↔ s.Can := by
  unfold retry at h
  split at h
  next => cases h
  next hnone =>
    cases h
    simp only [Bool.false_eq_true, false_iff]
    rintro (hmatch | ⟨behind, byte, later, hlast, -⟩)
    · exact hnot hmatch
    · exact hnone behind byte later hlast

/-- **A star that is met** makes all choices for the one before it needless: what matches from a
later end of the name on matches from here on too, as this star can skip what is between. -/
theorem can_behindStar {byte : UInt8} {pattern name : List UInt8}
    (hpattern : s.pattern = star :: pattern) (hname : s.name = byte :: name) :
    (behindStar pattern (byte :: name)).Can ↔ s.Can := by
  have hnew :
      (behindStar pattern (byte :: name)).Can ↔ Matches (star :: pattern) (byte :: name) := by
    simp [Can, behindStar, matches_star_cons_iff]
  rw [hnew, ← hpattern, ← hname]
  constructor
  · exact .inl
  · rintro (h | ⟨behind, other, later, hlast, h⟩)
    · exact h
    · obtain ⟨first, skipped, rest, hrest, hmatch⟩ := exists_later hlast h
      rw [hpattern] at hmatch ⊢
      rw [hrest]
      exact hmatch.skip_more (first :: skipped)

/-- A byte that is taken is the only one that the pattern can take there. -/
theorem can_advance {p byte : UInt8} {pattern name : List UInt8}
    (hpattern : s.pattern = p :: pattern) (hname : s.name = byte :: name) (hp : p ≠ star)
    (hbyte : p = anyByte ∨ p = byte) : (s.advance hpattern hname hp).Can ↔ s.Can := by
  unfold Can
  rw [hpattern, hname, matches_cons_cons_iff hp, and_iff_right hbyte]
  rfl

/-- At the end of the name only stars may be left, and the last star cannot take more: there would
be too few bytes for what is behind it. -/
theorem all_star_iff_can (hname : s.name = []) :
    (s.pattern.all (· == star)) = true ↔ s.Can := by
  have hall : ∀ pattern : List UInt8, pattern.all (· == star) = true ↔ Matches pattern [] := by
    intro pattern
    induction pattern with
    | nil => simp [matches_nil_iff]
    | cons p pattern ih => simp [matches_cons_nil_iff, ← ih]
  rw [hall, Can, hname]
  constructor
  · exact .inl
  · rintro (h | ⟨behind, byte, later, hlast, h⟩)
    · exact h
    · obtain ⟨first, skipped, rest, hrest, -⟩ := exists_later hlast h
      rw [hname] at hrest
      cases hrest

/-- **Each turn** keeps what the loop can come to. -/
theorem can_iff_of_step (h : s.step = .inr next) : next.Can ↔ s.Can := by
  unfold step at h
  split at h
  next => cases h
  next byte name hname hpattern =>
    refine can_of_retry ?_ h
    simp [hname, hpattern, matches_nil_iff]
  next byte name p pattern hname hpattern =>
    split at h
    next hp =>
      subst hp
      cases h
      exact can_behindStar hpattern hname
    next hp =>
      split at h
      next hbyte =>
        cases h
        exact can_advance hpattern hname hp hbyte
      next hbyte =>
        refine can_of_retry ?_ h
        rw [hname, hpattern, matches_cons_cons_iff hp]
        exact fun hmatch => hbyte hmatch.1

/-- **The last turn** answers whether the loop can come to a match. -/
theorem answer_iff_can {answer : Bool} (h : s.step = .inl answer) : answer = true ↔ s.Can := by
  unfold step at h
  split at h
  next hname =>
    cases h
    exact all_star_iff_can hname
  next byte name hname hpattern =>
    refine not_can_of_retry ?_ h
    simp [hname, hpattern, matches_nil_iff]
  next byte name p pattern hname hpattern =>
    split at h
    next => cases h
    next hp =>
      split at h
      next => cases h
      next hbyte =>
        refine not_can_of_retry ?_ h
        rw [hname, hpattern, matches_cons_cons_iff hp]
        exact fun hmatch => hbyte hmatch.1

/-- **The loop ends**, in a turn that gives its answer. -/
theorem exists_last_turn (s : State) : ∃ last answer,
    Relation.ReflTransGen (fun now next => now.step = .inr next) s last ∧
      last.step = .inl answer ∧ s.run = answer := by
  induction s using run.induct with
  | case1 s answer hanswer =>
    refine ⟨s, answer, .refl, hanswer, ?_⟩
    rw [run]
    split
    next other hother => exact Sum.inl.inj (hother.symm.trans hanswer)
    next next hnext => cases hanswer.symm.trans hnext
  | case2 s next hnext ih =>
    obtain ⟨last, answer, hturns, hanswer, hrun⟩ := ih
    refine ⟨last, answer, hturns.head hnext, hanswer, ?_⟩
    rw [run]
    split
    next other hother => cases hnext.symm.trans hother
    next other hother =>
      cases hnext.symm.trans hother
      exact hrun

/-- **The loop** answers whether it can come to a match, as each of its turns keeps this. -/
theorem run_iff (s : State) : s.run = true ↔ s.Can := by
  obtain ⟨last, answer, hturns, hanswer, rfl⟩ := s.exists_last_turn
  rw [answer_iff_can hanswer]
  clear hanswer
  induction hturns with
  | refl => exact Iff.rfl
  | tail _ hturn ih => rw [can_iff_of_step hturn, ih]

end State

/-- **The loop** decides whether the name can be cut into what the pattern says. -/
theorem isMatch_iff : isMatch pattern name = true ↔ Matches pattern name := by
  have hstart : (State.start pattern name).Can ↔ Matches pattern name := by
    simp [State.Can, State.start]
  rw [isMatch, State.run_iff, hstart]

/-- What a byte of a pattern stands for: a star for any bytes, `?` for any one byte and every other
byte for itself. -/
def StandsFor (p : UInt8) (piece : List UInt8) : Prop :=
  if p = star then True else if p = anyByte then piece.length = 1 else piece = [p]

instance (p : UInt8) (piece : List UInt8) : Decidable (StandsFor p piece) :=
  inferInstanceAs (Decidable (ite _ _ _))

/-- A byte that is no star stands for one byte, which is its own unless it is `?`. -/
theorem standsFor_iff_of_ne_star {piece : List UInt8} (hp : p ≠ star) :
    StandsFor p piece ↔ ∃ byte, (p = anyByte ∨ p = byte) ∧ piece = [byte] := by
  rw [StandsFor, if_neg hp]
  split
  next hany => simp [hany, List.length_eq_one_iff]
  next hother => simp [hother]

/-- **A name matches** iff it can be cut into a piece for each byte of the pattern. -/
theorem matches_iff_exists_pieces : Matches pattern name ↔
    ∃ pieces, List.Forall₂ StandsFor pattern pieces ∧ pieces.flatten = name := by
  induction pattern generalizing name with
  | nil => simp [matches_nil_iff, eq_comm]
  | cons p pattern ih =>
    simp only [List.forall₂_cons_left_iff]
    by_cases hp : p = star
    · subst hp
      rw [matches_star_iff]
      constructor
      · rintro ⟨skipped, rest, rfl, hrest⟩
        obtain ⟨pieces, hpieces, rfl⟩ := ih.1 hrest
        exact ⟨_, ⟨skipped, pieces, by simp [StandsFor], hpieces, rfl⟩, rfl⟩
      · rintro ⟨_, ⟨skipped, pieces, -, hpieces, rfl⟩, rfl⟩
        exact ⟨skipped, pieces.flatten, rfl, ih.2 ⟨pieces, hpieces, rfl⟩⟩
    · cases name with
      | nil =>
        rw [matches_cons_nil_iff]
        refine iff_of_false (fun h => hp h.1) ?_
        rintro ⟨_, ⟨piece, pieces, hpiece, -, rfl⟩, hflatten⟩
        obtain ⟨byte, -, rfl⟩ := (standsFor_iff_of_ne_star hp).1 hpiece
        cases hflatten
      | cons byte name =>
        rw [matches_cons_cons_iff hp]
        constructor
        · rintro ⟨hbyte, hrest⟩
          obtain ⟨pieces, hpieces, rfl⟩ := ih.1 hrest
          exact ⟨_, ⟨[byte], pieces, (standsFor_iff_of_ne_star hp).2 ⟨byte, hbyte, rfl⟩, hpieces,
            rfl⟩, rfl⟩
        · rintro ⟨_, ⟨piece, pieces, hpiece, hpieces, rfl⟩, hflatten⟩
          obtain ⟨other, hother, rfl⟩ := (standsFor_iff_of_ne_star hp).1 hpiece
          obtain ⟨rfl, rfl⟩ := List.cons.inj hflatten
          exact ⟨hother, ih.2 ⟨pieces, hpieces, rfl⟩⟩

/-- **Bytes that are no wildcards** take themselves. -/
theorem matches_append_iff {word : List UInt8} (h : ∀ p ∈ word, p ≠ star ∧ p ≠ anyByte) :
    Matches (word ++ pattern) name ↔ ∃ rest, name = word ++ rest ∧ Matches pattern rest := by
  induction word generalizing name with
  | nil => simp
  | cons p word ih =>
    obtain ⟨⟨hstar, hany⟩, hrest⟩ := List.forall_mem_cons.1 h
    cases name with
    | nil => simp [matches_cons_nil_iff, hstar]
    | cons byte name =>
      rw [List.cons_append, matches_cons_cons_iff hstar, ih hrest]
      constructor
      · rintro ⟨hbyte, rest, rfl, hmatch⟩
        exact ⟨rest, by rw [hbyte.resolve_left hany, List.cons_append], hmatch⟩
      · rintro ⟨rest, hname, hmatch⟩
        obtain ⟨rfl, rfl⟩ := List.cons.inj hname
        exact ⟨Or.inr rfl, rest, rfl, hmatch⟩

/-- A pattern without wildcards matches itself only. -/
theorem matches_iff_eq (h : ∀ p ∈ pattern, p ≠ star ∧ p ≠ anyByte) :
    Matches pattern name ↔ name = pattern := by
  have happend : Matches (pattern ++ []) name ↔ ∃ rest, name = pattern ++ rest ∧ Matches [] rest :=
    matches_append_iff h
  simpa [matches_nil_iff] using happend

end Glob

/-! ## Bytes of names -/

/-- **A byte of ASCII** stands for its own character and is part of no other one. -/
theorem toNat_eq_of_mem_utf8EncodeChar {c : Char} {byte : UInt8} (hbyte : byte.toNat < 128)
    (h : byte ∈ String.utf8EncodeChar c) : c.toNat = byte.toNat := by
  unfold String.utf8EncodeChar at h
  dsimp only at h
  rw [show c.val.toNat = c.toNat from rfl] at h
  have hhigh : ∀ n, n < 256 → 128 ≤ n → byte ≠ UInt8.ofNat n := by
    rintro n hlt hle rfl
    rw [UInt8.toNat_ofNat'] at hbyte
    omega
  split at h
  next hascii =>
    rw [List.mem_singleton.1 h, UInt8.toNat_ofNat']
    omega
  next =>
    split at h
    next =>
      simp only [List.mem_cons, List.not_mem_nil, or_false] at h
      rcases h with h | h <;> exact absurd h (hhigh _ (by omega) (by omega))
    next =>
      split at h
      next =>
        simp only [List.mem_cons, List.not_mem_nil, or_false] at h
        rcases h with h | h | h <;> exact absurd h (hhigh _ (by omega) (by omega))
      next =>
        simp only [List.mem_cons, List.not_mem_nil, or_false] at h
        rcases h with h | h | h | h <;> exact absurd h (hhigh _ (by omega) (by omega))

/-- A byte of ASCII is the whole of its character. -/
theorem eq_of_mem_utf8EncodeChar {c d : Char} (hd : d.toNat < 128) {byte : UInt8}
    (hbyte : byte.toNat = d.toNat) (h : byte ∈ String.utf8EncodeChar c) : c = d :=
  Char.toNat_inj.1 ((toNat_eq_of_mem_utf8EncodeChar (by omega) h).trans hbyte)

/-- **The byte of a wildcard** is in no other character. -/
theorem ne_star_of_mem_utf8EncodeChar {c : Char} (hc : c ≠ '*') {byte : UInt8}
    (h : byte ∈ String.utf8EncodeChar c) : byte ≠ Glob.star := by
  rintro rfl
  exact hc (eq_of_mem_utf8EncodeChar (by decide) (by decide) h)

theorem ne_anyByte_of_mem_utf8EncodeChar {c : Char} (hc : c ≠ '?') {byte : UInt8}
    (h : byte ∈ String.utf8EncodeChar c) : byte ≠ Glob.anyByte := by
  rintro rfl
  exact hc (eq_of_mem_utf8EncodeChar (by decide) (by decide) h)

/-- The bytes of a text tell it from all other texts. -/
theorem flatMap_utf8EncodeChar_inj {a b : String}
    (h : a.toList.flatMap String.utf8EncodeChar = b.toList.flatMap String.utf8EncodeChar) :
    a = b := by
  have hbytes : a.toList.utf8Encode = b.toList.utf8Encode := by
    unfold List.utf8Encode
    rw [h]
  rw [String.utf8Encode_toList, String.utf8Encode_toList] at hbytes
  exact String.toByteArray_inj.1 hbytes

namespace NamePattern

/-- **A pattern with an exact word** matches this word only. -/
theorem matches?_of_exactWord? {pattern : NamePattern} {word name : String}
    (h : pattern.exactWord? = some word) : pattern.matches? name = true ↔ name = word := by
  unfold exactWord? at h
  split at h
  next hexact =>
    obtain rfl := Option.some.inj h
    rw [Bool.and_eq_true, Bool.not_eq_true'] at hexact
    obtain ⟨hcase, hplain⟩ := hexact
    have hbytes : ∀ text, pattern.bytes text = text.toList.flatMap String.utf8EncodeChar := by
      intro text
      unfold bytes
      rw [if_pos hcase]
    have hwild : ∀ byte ∈ pattern.text.toList.flatMap String.utf8EncodeChar,
        byte ≠ Glob.star ∧ byte ≠ Glob.anyByte := by
      intro byte hmem
      obtain ⟨c, hc, hbyte⟩ := List.mem_flatMap.1 hmem
      have hnot := List.any_eq_false.1 hplain c hc
      simp only [Bool.or_eq_true, beq_iff_eq, not_or] at hnot
      exact ⟨ne_star_of_mem_utf8EncodeChar hnot.1 hbyte,
        ne_anyByte_of_mem_utf8EncodeChar hnot.2 hbyte⟩
    unfold matches?
    rw [Glob.isMatch_iff, hbytes, hbytes, Glob.matches_iff_eq hwild]
    constructor
    · exact flatMap_utf8EncodeChar_inj
    · rintro rfl
      rfl
  next => cases h

end NamePattern

/-- **Matching with wildcards.** On every pattern and every name the loop comes to its last turn,
and its answer is whether the name can be cut into pieces, one for each byte of the pattern, that
the bytes stand for. So a name pattern that has an exact word matches this word and no other
name. -/
theorem Glob.loop_ends_and_decides (pattern name : List UInt8) :
    (∃ last, Relation.ReflTransGen (fun now next : State => now.step = .inr next)
      (.start pattern name) last ∧ last.step = .inl (isMatch pattern name)) ∧
    (isMatch pattern name = true ↔
      ∃ pieces, List.Forall₂ StandsFor pattern pieces ∧ pieces.flatten = name) ∧
    ∀ (written : NamePattern) (word : String), written.exactWord? = some word →
      ∀ text, written.matches? text = true ↔ text = word := by
  obtain ⟨last, answer, hturns, hanswer, rfl⟩ := (State.start pattern name).exists_last_turn
  exact ⟨⟨last, hturns, hanswer⟩, isMatch_iff.trans matches_iff_exists_pieces,
    fun written word hword text => NamePattern.matches?_of_exactWord? hword⟩

end SourceSearch
