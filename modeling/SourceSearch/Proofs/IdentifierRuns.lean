import SourceSearch.Proofs.Lexemes

/-!
# Runs of characters of identifiers

A run of characters that may stand in an identifier is read as one word where it is longest
(`word_of_run`): as a keyword if it spells one, else as an identifier. It breaks if a reserved word
stands at its start and the character behind may follow in an identifier but not open one, such as a
combining mark. The reserved word is then read alone (`word_of_breaksBehind`), and no lexeme starts
at the mark (`Lexeme.read_of_mark`).

A lexeme that is neither a comment nor a literal either has no characters of identifiers or has no
others (`Lexeme.uniform_of_read`), so that a run outside of comments and literals starts where a
lexeme does (`ReadsInto.exists_append_of_run`).
-/

set_option autoImplicit false

namespace SourceSearch

open Lexeme

/-- Characters of an identifier, the first of which may open one, and no more of them stand before
or behind. -/
structure IsIdentifierRun (before run after : List Char) : Prop where
  opens : ∃ c cs, run = c :: cs ∧ isIdentStart c = true
  goesOn : ∀ c ∈ run, isIdentContinue c = true
  starts : ∀ c ∈ before.getLast?, isIdentContinue c = false
  ends : ∀ c ∈ after.head?, isIdentContinue c = false

/-- A reserved word opens the run, and the character behind it may follow in an identifier but not
open one, and does not belong to words within ASCII. -/
structure BreaksBehind (word run : List Char) : Prop where
  reserved : (TokenKind.ofReserved? (String.ofList word)).isSome = true
  mark : ∃ d rest, run = word ++ d :: rest ∧ isWordChar d = false ∧ isIdentStart d = false

/-! ## Words -/

namespace Lexeme

/-- A run ends where the characters behind it do not satisfy the test. -/
theorem runLength_append {p : Char → Bool} {cs after : List Char}
    (h : ∀ c ∈ after.head?, p c = false) : runLength p (cs ++ after) = runLength p cs := by
  have hafter : after.takeWhile p = [] := by
    cases after with
    | nil => rfl
    | cons c after => rw [List.takeWhile_cons_of_neg (by simp [h c rfl])]
  unfold runLength
  rw [List.takeWhile_append, hafter, List.append_nil]
  split
  next heq => rw [heq]
  next => rfl

theorem runLength_le {p : Char → Bool} (cs : List Char) : runLength p cs ≤ cs.length :=
  (List.takeWhile_sublist _).length_le

theorem runLength_of_all {p : Char → Bool} {cs : List Char} (h : ∀ c ∈ cs, p c = true) :
    runLength p cs = cs.length := by
  unfold runLength
  rw [List.takeWhile_eq_self_iff.2 h]

end Lexeme

variable {c : Char} {cs word before run after : List Char}

theorem isWordChar_of_ofReserved? {kind : TokenKind}
    (h : TokenKind.ofReserved? (String.ofList word) = some kind) :
    ∀ d ∈ word, isWordChar d = true := by
  intro d hd
  refine TokenKind.isWordChar_of_reserved _ (TokenKind.mem_reserved_of_ofReserved? h) d ?_
  rwa [String.toList_ofList]

/-- A run breaks behind the characters of words within ASCII with which it starts. -/
theorem breaksBehind_iff :
    BreaksBehind word (c :: cs) ↔ word = c :: cs.take (runLength isWordChar cs) ∧
      (TokenKind.ofReserved? (String.ofList word)).isSome = true ∧
      ∃ d, (cs.drop (runLength isWordChar cs)).head? = some d ∧ isIdentStart d = false := by
  constructor
  · rintro ⟨hreserved, d, rest, heq, hword, hstart⟩
    obtain ⟨kind, hkind⟩ := Option.isSome_iff_exists.1 hreserved
    have hall := isWordChar_of_ofReserved? hkind
    cases word with
    | nil => cases hkind
    | cons c' word =>
      rw [List.cons_append, List.cons_eq_cons] at heq
      obtain ⟨rfl, rfl⟩ := heq
      have hlength : runLength isWordChar (word ++ d :: rest) = word.length := by
        rw [runLength_append (by simpa using hword)]
        exact runLength_of_all fun e he => hall e (List.mem_cons_of_mem _ he)
      rw [hlength, List.take_left, List.drop_left]
      exact ⟨rfl, hreserved, d, rfl, hstart⟩
  · rintro ⟨rfl, hreserved, d, hd, hstart⟩
    obtain ⟨rest, hrest⟩ := List.head?_eq_some_iff.1 hd
    refine ⟨hreserved, d, rest, ?_, head?_drop_runLength hd, hstart⟩
    rw [List.cons_append, ← hrest, List.take_append_drop]

/-- No word within ASCII breaks. -/
theorem not_breaksBehind (h : ∀ d ∈ run, isWordChar d = true) : ¬ BreaksBehind word run := by
  rintro ⟨-, d, rest, rfl, hd, -⟩
  rw [h d (by simp)] at hd
  cases hd

/-- A word within ASCII is an identifier if it starts like one and is not reserved. -/
theorem isIdentifier_of_isWordChar {name : String}
    (hopens : name.toList.head?.any isIdentStart = true)
    (hword : ∀ d ∈ name.toList, isWordChar d = true)
    (hreserved : TokenKind.ofReserved? name = none) : IsIdentifier name where
  ne_empty := by
    rintro rfl
    cases hopens
  no_dot := fun hdot => by cases hword '.' hdot
  not_reserved := hreserved
  opens := by
    cases hcs : name.toList with
    | nil =>
      rw [hcs] at hopens
      cases hopens
    | cons c cs =>
      rw [hcs] at hopens
      exact ⟨c, cs, rfl, hopens⟩
  goesOn := fun d hd => isIdentContinue_of_isWordChar (hword d hd)

/-- What a run of characters of an identifier should be: the keyword that it spells, or an
identifier. -/
def runKind (run : List Char) : TokenKind :=
  (TokenKind.ofReserved? (String.ofList run)).getD .ident

theorem runKind_of_not_isWordChar {d : Char} (hd : d ∈ run) (h : isWordChar d = false) :
    runKind run = .ident := by
  unfold runKind
  cases hkind : TokenKind.ofReserved? (String.ofList run) with
  | none => rfl
  | some kind =>
    rw [isWordChar_of_ofReserved? hkind d hd] at h
    cases h

/-- A word ends where the characters behind it are none of an identifier. -/
theorem word_append (h : ∀ d ∈ after.head?, isIdentContinue d = false) :
    Lexeme.word c (cs ++ after) = Lexeme.word c cs := by
  have hword : ∀ d ∈ after.head?, isWordChar d = false := fun d hd =>
    Bool.eq_false_iff.2 fun hd' => by simpa [h d hd] using isIdentContinue_of_isWordChar hd'
  have hstart : ∀ rest : List Char,
      (rest ++ after).head?.any isIdentStart = rest.head?.any isIdentStart := by
    rintro (_ | ⟨d, rest⟩)
    · cases after with
      | nil => rfl
      | cons d after =>
        refine Bool.eq_false_iff.2 fun hd => ?_
        simpa [h d rfl] using isIdentContinue_of_isIdentStart (c := d) hd
    · rfl
  have hle := runLength_le (p := isWordChar) cs
  unfold Lexeme.word
  dsimp only
  rw [runLength_append hword, List.take_append_of_le_length hle,
    List.drop_append_of_le_length hle, hstart, runLength_append h]

/-- **A run is read as one word** unless it breaks. -/
theorem word_of_run (hall : ∀ d ∈ cs, isIdentContinue d = true)
    (hwhole : ∀ word, ¬ BreaksBehind word (c :: cs)) :
    Lexeme.word c cs = (.token (runKind (c :: cs)), cs.length) := by
  have htail : runLength isIdentContinue (cs.drop (runLength isWordChar cs)) =
      (cs.drop (runLength isWordChar cs)).length :=
    runLength_of_all fun d hd => hall d (List.mem_of_mem_drop hd)
  have hle := runLength_le (p := isWordChar) cs
  unfold Lexeme.word
  dsimp only
  rw [htail, List.length_drop, Nat.add_sub_cancel' hle]
  cases hrest : cs.drop (runLength isWordChar cs) with
  | nil =>
    have hlength : runLength isWordChar cs = cs.length :=
      Nat.le_antisymm hle (List.drop_eq_nil_iff.1 hrest)
    rw [hlength, List.take_length, runKind]
    split <;> simp_all
  | cons d rest =>
    have hd : (cs.drop (runLength isWordChar cs)).head? = some d := by rw [hrest]; rfl
    have hmem : d ∈ cs := List.mem_of_mem_drop (List.mem_of_mem_head? hd)
    rw [runKind_of_not_isWordChar (List.mem_cons_of_mem _ hmem) (head?_drop_runLength hd)]
    split
    next kind hreserved =>
      -- a character that could not open an identifier would break the run
      have hstart : isIdentStart d = true := by
        by_contra hstart
        refine hwhole _ (breaksBehind_iff.2 ⟨rfl, ?_, d, hd, by simpa using hstart⟩)
        rw [hreserved]
        rfl
      rw [if_pos (by simpa using hstart)]
    next => rfl

/-- **A run that breaks** is read as the reserved word with which it starts. -/
theorem word_of_breaksBehind (h : BreaksBehind word (c :: cs)) :
    ∃ kind, Lexeme.word c cs = (.token kind, runLength isWordChar cs) := by
  obtain ⟨rfl, hreserved, d, hd, hstart⟩ := breaksBehind_iff.1 h
  obtain ⟨kind, hkind⟩ := Option.isSome_iff_exists.1 hreserved
  refine ⟨kind, ?_⟩
  unfold Lexeme.word
  dsimp only
  rw [hkind]
  dsimp only
  rw [hd, if_neg (by simpa using hstart)]

namespace Lexeme

/-- Symbols are spelled without characters of identifiers. -/
theorem not_isIdentContinue_of_mem_spelling (s : Symbol) :
    ∀ d ∈ s.spelling.toList, isIdentContinue d = false := by
  have hall : (s.spelling.toList.all fun d => !isIdentContinue d) = true := by
    cases s <;> decide
  simpa using hall

/-- A symbol is read with the characters that it is spelled with. -/
theorem take_of_symbol? {s : Symbol} (h : symbol? (c :: cs) = some s) :
    c :: cs.take (s.spelling.length - 1) = s.spelling.toList := by
  have hpos : s.spelling.toList.length - 1 + 1 = s.spelling.toList.length := by
    cases s <;> decide
  unfold symbol? at h
  have hfound := List.find?_some h
  have hprefix := List.isPrefixOf_iff_prefix.1 hfound
  rw [← String.length_toList, ← List.take_succ_cons, hpos]
  exact (List.prefix_iff_eq_take.1 hprefix).symm

/-- **No lexeme starts** with a character that may follow in an identifier but not open one, unless
it belongs to words within ASCII. -/
theorem read_of_mark {d : Char} (hcontinue : isIdentContinue d = true)
    (hword : isWordChar d = false) (hstart : isIdentStart d = false) : read d cs = none := by
  have hne : ∀ e, isIdentContinue e = false → (d == e) = false := by
    rintro e he
    rw [beq_eq_false_iff_ne]
    rintro rfl
    rw [he] at hcontinue
    cases hcontinue
  have hgap : isGapChar d ≠ true := by
    intro hgap
    rw [not_isIdentContinue_of_isGapChar hgap] at hcontinue
    cases hcontinue
  have hdigit : d.isDigit ≠ true := by
    intro hdigit
    simp [isWordChar, Char.isAlphanum, hdigit] at hword
  have hsymbol : symbol? (d :: cs) = none := by
    cases hsymbol : symbol? (d :: cs) with
    | none => rfl
    | some s =>
      have hnot := not_isIdentContinue_of_mem_spelling s
      rw [← take_of_symbol? hsymbol] at hnot
      rw [hnot d (List.mem_cons_self ..)] at hcontinue
      cases hcontinue
  rw [read, if_neg hgap, hne '/' (by decide), hne '"' (by decide), hne '\'' (by decide), hsymbol]
  simp [hdigit, hstart]

/-- **What is neither a comment nor a literal** is made of characters of identifiers, or has none of
them. -/
theorem uniform_of_read {lexeme : Lexeme} {n : Nat} (h : read c cs = some (lexeme, n))
    (hcomment : lexeme = .gap → c ≠ '/')
    (hliteral : lexeme ∉ [.token .number, .token .stringLit, .token .charLit]) :
    (∀ d ∈ c :: cs.take n, isIdentContinue d = true) ∨
      ∀ d ∈ c :: cs.take n, isIdentContinue d = false := by
  unfold read at h
  split at h
  next hblank =>
    cases h
    refine .inr (List.forall_mem_cons.2 ⟨not_isIdentContinue_of_isGapChar hblank, fun d hd => ?_⟩)
    exact not_isIdentContinue_of_isGapChar (of_mem_take_runLength hd)
  split at h
  next hline =>
    cases h
    simp only [Bool.and_eq_true, beq_iff_eq] at hline
    exact absurd hline.1 (hcomment rfl)
  split at h
  next hblock =>
    obtain ⟨_, -, heq⟩ := Option.map_eq_some_iff.1 h
    cases heq
    simp only [Bool.and_eq_true, beq_iff_eq] at hblock
    exact absurd hblock.1 (hcomment rfl)
  split at h
  · cases h
    simp at hliteral
  split at h
  · obtain ⟨_, -, heq⟩ := Option.map_eq_some_iff.1 h
    cases heq
    simp at hliteral
  split at h
  · obtain ⟨_, -, heq⟩ := Option.map_eq_some_iff.1 h
    cases heq
    simp at hliteral
  split at h
  next hstart =>
    left
    obtain ⟨kind, hkind⟩ : ∃ kind, lexeme = .token kind := by
      cases lexeme with
      | gap => exact absurd (congrArg Prod.fst (Option.some.inj h)) word_fst_ne_gap
      | token kind => exact ⟨kind, rfl⟩
    rw [hkind] at h
    rcases of_word hstart (Option.some.inj h) with ⟨-, hword⟩ | hreserved
    · simpa only [String.toList_ofList] using hword.goesOn
    · exact fun d hd => isIdentContinue_of_isWordChar (isWordChar_of_ofReserved? hreserved d hd)
  next =>
    obtain ⟨s, hs, heq⟩ := Option.map_eq_some_iff.1 h
    cases heq
    right
    rw [take_of_symbol? hs]
    exact not_isIdentContinue_of_mem_spelling s

end Lexeme

/-! ## Places -/

namespace Stretch

/-- A stretch is a comment. -/
def isComment (s : Stretch) : Bool := s.lexeme == .gap && s.chars.head? == some '/'

/-- A stretch is a literal. -/
def isLiteral (s : Stretch) : Bool :=
  [.token .number, .token .stringLit, .token .charLit].contains s.lexeme

end Stretch

/-- The character behind the first `position` ones is in no comment and in no literal. -/
def OutsideOfComments (ss : List Stretch) (position : Nat) : Prop :=
  ∀ pre s post, ss = pre ++ s :: post → (charsOf pre).length ≤ position →
    position < (charsOf pre).length + s.chars.length → s.isComment = false ∧ s.isLiteral = false

namespace ReadsInto

variable {rest : List Char} {ss : List Stretch}

/-- **A run outside of comments and literals** starts where a stretch does. -/
theorem exists_append_of_run (h : ReadsInto cs ss rest) (hcs : cs = before ++ (run ++ after))
    (hrun : IsIdentifierRun before run after) (hreaches : before.length ≤ (charsOf ss).length)
    (houtside : OutsideOfComments ss before.length) :
    ∃ pre post, ss = pre ++ post ∧ charsOf pre = before ∧ ReadsInto (run ++ after) post rest := by
  induction h generalizing before with
  | done =>
    obtain ⟨c, cs, rfl, -⟩ := hrun.opens
    simp at hcs
  | stuck hread =>
    obtain rfl : before = [] := List.eq_nil_of_length_eq_zero (Nat.le_zero.1 hreaches)
    rw [List.nil_append] at hcs
    exact ⟨[], [], rfl, rfl, hcs ▸ .stuck hread⟩
  | @next c cs rest lexeme n ss hread hrest ih =>
    rcases eq_or_ne before [] with rfl | hbefore
    · rw [List.nil_append] at hcs
      exact ⟨[], _, rfl, rfl, hcs ▸ .next hread hrest⟩
    have hsplit : (c :: cs.take n) ++ cs.drop n = before ++ (run ++ after) := by
      rw [← hcs, List.cons_append, List.take_append_drop]
    rcases List.append_eq_append_iff.1 hsplit with ⟨later, rfl, hdrop⟩ | ⟨inner, hinner, hdrop⟩
    · -- the run comes behind the stretch
      have hlater : IsIdentifierRun later run after := by
        refine ⟨hrun.opens, hrun.goesOn, fun d hd => hrun.starts d ?_, hrun.ends⟩
        rw [List.getLast?_append, Option.mem_def.1 hd]
        rfl
      have hlength : later.length ≤ (charsOf ss).length := by
        simpa only [charsOf_cons, List.length_append, Nat.add_le_add_iff_left] using hreaches
      have houtside' : OutsideOfComments ss later.length := by
        intro pre s post hss hle hlt
        refine houtside (_ :: pre) s post (congrArg (_ :: ·) hss) ?_ ?_ <;>
        simp only [charsOf_cons, List.length_append] <;> omega
      obtain ⟨pre, post, rfl, rfl, hpost⟩ := ih hdrop hlater hlength houtside'
      exact ⟨_ :: pre, post, rfl, rfl, hpost⟩
    · cases inner with
      | nil =>
        rw [List.append_nil] at hinner
        rw [List.nil_append] at hdrop
        exact ⟨[_], ss, rfl, by simp [← hinner], hdrop ▸ hrest⟩
      | cons d inner =>
        -- a stretch that is neither a comment nor a literal does not change within to the run
        exfalso
        obtain ⟨c', run, rfl, hstart⟩ := hrun.opens
        obtain ⟨rfl, -⟩ := List.cons_eq_cons.1 hdrop
        obtain ⟨hcomment, hliteral⟩ := houtside [] _ ss rfl (Nat.zero_le _) (by
          rw [hinner]
          simp)
        have huniform := uniform_of_read hread
          (by
            rintro rfl rfl
            cases hcomment)
          (by simpa [Stretch.isLiteral] using hliteral)
        have hlast := List.getLast?_eq_some_getLast hbefore
        rw [hinner] at huniform
        rcases huniform with hall | hall
        · have := hall _ (List.mem_append_left _ (List.getLast_mem hbefore))
          rw [hrun.starts _ hlast] at this
          cases this
        · have := hall c' (by simp)
          rw [isIdentContinue_of_isIdentStart hstart] at this
          cases this

theorem read_of_run (hrun : IsIdentifierRun before (c :: cs) after)
    (hwhole : ∀ word, ¬ BreaksBehind word (c :: cs)) :
    read c (cs ++ after) = some (.token (runKind (c :: cs)), cs.length) := by
  obtain ⟨_, _, heq, hstart⟩ := hrun.opens
  obtain ⟨rfl, rfl⟩ := List.cons_eq_cons.1 heq
  rw [read_of_isIdentStart hstart, word_append hrun.ends, word_of_run _ hwhole]
  exact fun d hd => hrun.goesOn d (List.mem_cons_of_mem _ hd)

/-- A run that does not break is one stretch. -/
theorem eq_cons_of_run {ss : List Stretch} (h : ReadsInto (run ++ after) ss rest)
    (hrun : IsIdentifierRun before run after) (hwhole : ∀ word, ¬ BreaksBehind word run) :
    ∃ later, ss = ⟨.token (runKind run), run⟩ :: later := by
  obtain ⟨c, cs, rfl, -⟩ := hrun.opens
  have hread := read_of_run hrun hwhole
  rw [List.cons_append] at h
  cases h with
  | stuck hnone => cases hread.symm.trans hnone
  | @next _ _ _ lexeme n later hsome _ =>
    cases hread.symm.trans hsome
    exact ⟨later, by rw [List.take_left]⟩

/-- A run that does not break is a stretch before those of what follows. -/
theorem run_append {ss : List Stretch} (h : ReadsInto after ss rest)
    (hrun : IsIdentifierRun before run after) (hwhole : ∀ word, ¬ BreaksBehind word run) :
    ReadsInto (run ++ after) (⟨.token (runKind run), run⟩ :: ss) rest := by
  obtain ⟨c, cs, rfl, -⟩ := hrun.opens
  have hnext := ReadsInto.next (read_of_run hrun hwhole) (by rwa [List.drop_left])
  rwa [List.take_left] at hnext

/-- **A run that breaks** is the last stretch but for its end, at which no lexeme starts. -/
theorem eq_singleton_of_breaksBehind {ss : List Stretch} (h : ReadsInto (run ++ after) ss rest)
    (hrun : IsIdentifierRun before run after) (hbreaks : BreaksBehind word run) :
    (∃ kind, ss = [⟨.token kind, word⟩]) ∧ rest ≠ [] := by
  obtain ⟨c, cs, rfl, hstart⟩ := hrun.opens
  obtain ⟨kind, hword⟩ := word_of_breaksBehind hbreaks
  obtain ⟨rfl, -, d, hd, hnot⟩ := breaksBehind_iff.1 hbreaks
  have hle := runLength_le (p := isWordChar) cs
  have hread : read c (cs ++ after) = some (.token kind, runLength isWordChar cs) := by
    rw [read_of_isIdentStart hstart, word_append hrun.ends, hword]
  rw [List.cons_append] at h
  cases h with
  | stuck hnone => cases hread.symm.trans hnone
  | @next _ _ _ lexeme n later hsome hlater =>
    cases hread.symm.trans hsome
    obtain ⟨others, hothers⟩ := List.head?_eq_some_iff.1 hd
    rw [List.drop_append_of_le_length hle, hothers] at hlater
    have hmem : d ∈ cs := List.mem_of_mem_drop (List.mem_of_mem_head? hd)
    have hmark : read d (others ++ after) = none :=
      read_of_mark (hrun.goesOn d (List.mem_cons_of_mem _ hmem)) (head?_drop_runLength hd) hnot
    cases hlater with
    | stuck => exact ⟨⟨kind, by rw [List.take_append_of_le_length hle]⟩, List.cons_ne_nil _ _⟩
    | next hsome => cases hmark.symm.trans hsome

end ReadsInto

/-! ## Tokens -/

theorem tokensFrom_append (offset : Nat) (pre post : List Stretch) :
    tokensFrom offset (pre ++ post) =
      tokensFrom offset pre ++ tokensFrom (offset + byteLength (charsOf pre)) post := by
  induction pre generalizing offset with
  | nil => rfl
  | cons s pre ih =>
    obtain ⟨_ | kind, cs⟩ := s <;>
    simp [tokensFrom, ih, Nat.add_assoc]

theorem stop_le_of_mem_tokensFrom {offset : Nat} {ss : List Stretch} :
    ∀ t ∈ tokensFrom offset ss, t.range.stop ≤ offset + byteLength (charsOf ss) := by
  induction ss generalizing offset with
  | nil => nofun
  | cons s ss ih =>
    rw [charsOf_cons, byteLength_append, ← Nat.add_assoc]
    obtain ⟨_ | kind, cs⟩ := s
    · exact ih
    · exact List.forall_mem_cons.2 ⟨Nat.le_add_right _ _, ih⟩

/-- Each of the ranges starts before the other one ends. -/
def TextRange.overlaps (a b : TextRange) : Bool := decide (a.start < b.stop ∧ b.start < a.stop)

theorem TextRange.overlaps_iff {a b : TextRange} :
    a.overlaps b = true ↔ a.start < b.stop ∧ b.start < a.stop :=
  decide_eq_true_iff

/-- The tokens that are read and reach into the range. -/
def tokensInto (text : String) (range : TextRange) : List Token :=
  (tokensRead text).filter fun t => t.range.overlaps range

/-- A token is the only one that reaches into a range which starts with it, if those that are read
later do not. -/
theorem tokensInto_eq_singleton {text : String} {pre later : List Stretch} {kind : TokenKind}
    {chars : List Char} {size : Nat}
    (hss : stretchesFrom 0 text.toList = pre ++ ⟨.token kind, chars⟩ :: later) (hchars : chars ≠ [])
    (hsize : 0 < size)
    (hlater : ∀ t ∈ tokensFrom (byteLength (charsOf pre) + byteLength chars) later,
      byteLength (charsOf pre) + size ≤ t.range.start) :
    tokensInto text (.ofLength (byteLength (charsOf pre)) size) =
      [⟨kind, String.ofList chars, .ofLength (byteLength (charsOf pre)) (byteLength chars)⟩] := by
  have hpos := byteLength_pos hchars
  rw [tokensInto, tokensRead, hss, tokensFrom_append, List.filter_append, Nat.zero_add, tokensFrom,
    List.filter_cons_of_pos, List.filter_eq_nil_iff.2, List.filter_eq_nil_iff.2, List.nil_append]
  · intro t ht
    have hstart := hlater t ht
    rw [TextRange.overlaps_iff]
    simp only [TextRange.ofLength]
    omega
  · intro t ht
    have hstop := stop_le_of_mem_tokensFrom t ht
    rw [TextRange.overlaps_iff]
    simp only [TextRange.ofLength]
    omega
  · rw [TextRange.overlaps_iff]
    simp only [TextRange.ofLength]
    omega

/-- Where a text is read up to the characters, the stretches go as far as they do. -/
theorem length_le_of_reads {text : String} (htext : text.toList = before ++ after)
    (hreads : ∀ e, tokenize text = .error e → byteLength before ≤ e.offset) :
    before.length ≤ (charsOf (stretchesFrom 0 text.toList)).length := by
  obtain ⟨rest, hread, hanswer⟩ := exists_readsInto_toList text
  have heq := hread.eq_append
  rcases List.append_eq_append_iff.1 (htext.symm.trans heq) with
    ⟨inner, hinner, -⟩ | ⟨inner, hinner, hrest⟩
  · rw [hinner, List.length_append]
    exact Nat.le_add_right _ _
  · -- the text fails before the characters end, unless there are no more of them
    rcases eq_or_ne inner [] with rfl | hne
    · rw [hinner, List.append_nil]
    · rw [if_neg (by simp [hrest, hne])] at hanswer
      have hle := hreads _ hanswer
      have hpos := byteLength_pos hne
      rw [hinner, byteLength_append] at hle
      exact absurd hle (by simp; omega)

/-- **A run of characters of an identifier** outside of comments and literals, up to which a text is
read, is one token of the whole run, a keyword if it spells one and an identifier otherwise, iff it
does not break: where a reserved word stands at its start and a character behind it which may follow
in an identifier but not open one, the reserved word is read and the text fails at the character. -/
theorem tokensInto_run_iff {text : String} {before run after : List Char}
    (htext : text.toList = before ++ (run ++ after)) (hrun : IsIdentifierRun before run after)
    (hreads : ∀ e, tokenize text = .error e → byteLength before ≤ e.offset)
    (houtside : OutsideOfComments (stretchesFrom 0 text.toList) before.length) :
    (tokensInto text (.ofLength (byteLength before) (byteLength run)) =
        [⟨runKind run, String.ofList run, .ofLength (byteLength before) (byteLength run)⟩] ↔
      ∀ word, ¬ BreaksBehind word run) ∧
    ∀ word, BreaksBehind word run →
      tokenize text = .error ⟨byteLength before + byteLength word⟩ := by
  obtain ⟨rest, hread, hanswer⟩ := exists_readsInto_toList text
  obtain ⟨pre, post, hss, rfl, hpost⟩ := hread.exists_append_of_run htext hrun
    (length_le_of_reads htext hreads) houtside
  have hne : run ≠ [] := by
    obtain ⟨c, cs, rfl, -⟩ := hrun.opens
    exact List.cons_ne_nil _ _
  have hbroken : ∀ word, BreaksBehind word run →
      (∃ kind, post = [⟨.token kind, word⟩]) ∧ rest ≠ [] := fun word hbreaks =>
    hpost.eq_singleton_of_breaksBehind hrun hbreaks
  refine ⟨⟨fun hone word hbreaks => ?_, fun hwhole => ?_⟩, fun word hbreaks => ?_⟩
  · -- the word is read in place of the run
    obtain ⟨⟨kind, rfl⟩, -⟩ := hbroken word hbreaks
    obtain ⟨hword, d, rest, rfl, -⟩ := hbreaks
    have hempty : word ≠ [] := by
      rintro rfl
      cases hword
    rw [tokensInto_eq_singleton hss hempty (byteLength_pos hne) nofun, List.cons_eq_cons,
      Token.mk.injEq, String.ofList_inj] at hone
    simpa using hone.1.2.1
  · obtain ⟨later, rfl⟩ := hpost.eq_cons_of_run hrun hwhole
    exact tokensInto_eq_singleton hss hne (byteLength_pos hne) le_start_of_mem_tokensFrom
  · obtain ⟨⟨kind, rfl⟩, hrest⟩ := hbroken word hbreaks
    rw [if_neg hrest, hss] at hanswer
    rw [hanswer]
    simp [charsOf]

/-- A keyword with a combining mark behind it is no identifier: the text fails at the mark. -/
theorem tokensInto_markedKeyword :
    tokensInto "class\u0301" (.ofLength 0 7) ≠
        [⟨runKind "class\u0301".toList, "class\u0301", .ofLength 0 7⟩] ∧
      tokenize "class\u0301" = .error ⟨5⟩ := by
  have hrun : IsIdentifierRun [] "class\u0301".toList [] :=
    ⟨⟨'c', "lass\u0301".toList, by decide, by decide⟩, List.all_eq_true.1 (by decide +kernel),
      nofun, nofun⟩
  have hbreaks : BreaksBehind "class".toList "class\u0301".toList :=
    ⟨by decide, '\u0301', [], by decide, by decide, by decide +kernel⟩
  have hplain : ∀ s ∈ stretchesFrom 0 "class\u0301".toList,
      s.isComment = false ∧ s.isLiteral = false := by decide +kernel
  have htext : "class\u0301".toList = [] ++ ("class\u0301".toList ++ []) := by simp
  obtain ⟨hiff, herror⟩ := tokensInto_run_iff htext hrun (fun _ _ => Nat.zero_le _)
    fun pre s post hss _ _ => hplain s (by rw [hss]; simp)
  exact ⟨fun hone => hiff.1 hone _ hbreaks, herror _ hbreaks⟩

end SourceSearch
