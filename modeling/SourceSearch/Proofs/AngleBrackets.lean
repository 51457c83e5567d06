import SourceSearch.Proofs.IdentifierRuns

/-!
# Texts behind an angle bracket

How far a lexeme goes is seen from the characters behind it. An angle bracket ends all of them but
comments and literals, and these are over with their own mark. So what is read before a closing
angle bracket does not depend on what stands behind it (`Lexeme.read_append_gt`), and a text that
ends with such a bracket is read alike where more text follows (`ReadsInto.append_gt`), if this does
not make another symbol of the bracket.
-/

set_option autoImplicit false

namespace SourceSearch

/-- The stretch of a symbol. -/
def Symbol.stretch (s : Symbol) : Stretch := ⟨.token s, s.spelling.toList⟩

variable {c : Char} {cs after : List Char} {n : Nat}

namespace Lexeme

/-! ## Comments and literals -/

theorem two_le_of_blockComment? (h : blockComment? cs = some n) : 2 ≤ n := by
  induction cs using blockComment?.induct generalizing n with
  | case1 =>
    cases h
    exact Nat.le_refl _
  | case2 c cs hopen ih =>
    rw [blockComment?.eq_2 _ _ hopen] at h
    obtain ⟨m, hm, rfl⟩ := Option.map_eq_some_iff.1 h
    exact Nat.le_succ_of_le (ih hm)
  | case3 => cases h

/-- The text of a comment does not depend on what follows its mark. -/
theorem blockComment?_take (h : blockComment? cs = some n) (after : List Char) :
    blockComment? (cs.take n ++ after) = some n := by
  induction cs using blockComment?.induct generalizing n with
  | case1 =>
    cases h
    rfl
  | case2 c cs hopen ih =>
    rw [blockComment?.eq_2 _ _ hopen] at h
    obtain ⟨m, hm, rfl⟩ := Option.map_eq_some_iff.1 h
    rw [List.take_succ_cons, List.cons_append, blockComment?.eq_2, ih hm]
    · rfl
    · rintro rest rfl htake
      obtain ⟨m, rfl⟩ : ∃ k, m = k + 1 := ⟨m - 1, by have := two_le_of_blockComment? hm; omega⟩
      cases cs with
      | nil => cases hm
      | cons d cs =>
        obtain rfl : d = '/' := (List.cons_eq_cons.1 htake).1
        exact hopen cs rfl rfl
  | case3 => cases h

theorem stringLength?_cons (hquote : c ≠ '"') (hescape : c ≠ '\\') (hline : c ≠ '\n') :
    stringLength? (c :: cs) = (stringLength? cs).map (· + 1) := by
  rw [stringLength?.eq_def]
  split <;> simp_all

/-- The text of a string does not depend on what follows its quote. -/
theorem stringLength?_take (h : stringLength? cs = some n) (after : List Char) :
    stringLength? (cs.take n ++ after) = some n := by
  induction cs using stringLength?.induct generalizing n with
  | case1 =>
    cases h
    rfl
  | case2 c cs hline =>
    rw [stringLength?, if_pos hline] at h
    cases h
  | case3 c cs hline ih =>
    rw [stringLength?, if_neg hline] at h
    obtain ⟨m, hm, rfl⟩ := Option.map_eq_some_iff.1 h
    rw [List.take_succ_cons, List.take_succ_cons, List.cons_append, List.cons_append,
      stringLength?, if_neg hline, ih hm]
    rfl
  | case4 => cases h
  | case5 => cases h
  | case6 c cs hquote hescape hlast hline ih =>
    have hescape : c ≠ '\\' := by
      rintro rfl
      cases cs with
      | nil => exact hlast rfl rfl
      | cons d cs => exact hescape d cs rfl rfl
    rw [stringLength?_cons hquote hescape hline] at h
    obtain ⟨m, hm, rfl⟩ := Option.map_eq_some_iff.1 h
    rw [List.take_succ_cons, List.cons_append, stringLength?_cons hquote hescape hline, ih hm]
    rfl
  | case7 => cases h

/-- A character in quotes does not depend on what follows them. -/
theorem charLength?_take (h : charLength? cs = some n) (after : List Char) :
    charLength? (cs.take n ++ after) = some n := by
  unfold charLength? at h
  cases hcode : codePointLength? cs with
  | some m =>
    rw [hcode] at h
    obtain rfl : m = n := Option.some.inj h
    unfold codePointLength? at hcode
    split at hcode
    · split at hcode
      next hhex =>
        cases hcode
        simp [charLength?, codePointLength?, hhex]
      next => cases hcode
    · cases hcode
  | none =>
    rw [hcode] at h
    replace h : plainCharLength? cs = some n := h
    unfold plainCharLength? at h
    split at h
    next c rest =>
      split at h
      · cases h
      next hline =>
        cases h
        have hnone : codePointLength? ('\\' :: c :: '\'' :: after) = none := by
          unfold codePointLength?
          split
          next heq =>
            simp only [List.cons.injEq] at heq
            obtain ⟨-, -, rfl, -⟩ := heq
            simp [isHexDigit]
          next => rfl
        show charLength? ('\\' :: c :: '\'' :: after) = some 3
        rw [charLength?, hnone, plainCharLength?, if_neg hline]
        rfl
    next c rest _ =>
      split at h
      · cases h
      next hplain =>
        cases h
        simp only [Bool.or_eq_true, beq_iff_eq, not_or] at hplain
        have hnone : codePointLength? (c :: '\'' :: after) = none := by
          unfold codePointLength?
          split
          next heq => exact absurd (List.cons_eq_cons.1 heq).1 hplain.1.1
          next => rfl
        show charLength? (c :: '\'' :: after) = some 2
        rw [charLength?, hnone, plainCharLength?]
        · simp [hplain]
        · simp [hplain]
    next => cases h

/-! ## Numbers -/

/-- Runs of characters end at an angle bracket that is none of them. -/
theorem runLength_append_gt {p : Char → Bool} (hp : p '>' = false) (cs after : List Char) :
    runLength p (cs ++ '>' :: after) = runLength p cs :=
  runLength_append (by simpa using hp)

theorem fractionLength_append_gt (cs after : List Char) :
    fractionLength (cs ++ '>' :: after) = fractionLength cs := by
  cases cs with
  | nil => rfl
  | cons d cs =>
    by_cases hpoint : d = '.'
    · subst hpoint
      cases cs with
      | nil => rfl
      | cons e cs =>
        have hrun := runLength_append_gt (p := isDigitOrSeparator) (by decide) cs after
        simp only [List.cons_append, fractionLength, hrun]
    · have hzero : ∀ rest, fractionLength (d :: rest) = 0 := by
        intro rest
        unfold fractionLength
        split
        next heq => exact absurd (List.cons_eq_cons.1 heq).1 hpoint
        next => rfl
      rw [List.cons_append, hzero, hzero]

theorem fractionLength_le (cs : List Char) : fractionLength cs ≤ cs.length := by
  unfold fractionLength
  split
  next d cs =>
    have hle := runLength_le (p := isDigitOrSeparator) cs
    split
    · simp only [List.length_cons]
      omega
    · exact Nat.zero_le _
  next => exact Nat.zero_le _

theorem markLength_append_gt {marks : List Char} (hmarks : '>' ∉ marks) (cs after : List Char) :
    markLength marks (cs ++ '>' :: after) = markLength marks cs := by
  cases cs with
  | nil => simp [markLength, hmarks]
  | cons d cs => rfl

theorem markLength_le (marks cs : List Char) : markLength marks cs ≤ cs.length := by
  cases cs with
  | nil => exact Nat.le_refl _
  | cons d cs =>
    rw [markLength, List.length_cons]
    split <;> omega

/-- An exponent is a mark, a sign and digits. -/
theorem exponentLength_cons (d : Char) (cs : List Char) :
    exponentLength (d :: cs) =
      if d == 'e' || d == 'E' then
        if runLength Char.isDigit (cs.drop (markLength ['+', '-'] cs)) = 0 then 0
        else 1 + markLength ['+', '-'] cs +
          runLength Char.isDigit (cs.drop (markLength ['+', '-'] cs))
      else 0 := by
  cases cs with
  | nil => rfl
  | cons s cs => simp [exponentLength, markLength]

theorem exponentLength_append_gt (cs after : List Char) :
    exponentLength (cs ++ '>' :: after) = exponentLength cs := by
  cases cs with
  | nil => rfl
  | cons d cs =>
    rw [List.cons_append, exponentLength_cons, exponentLength_cons,
      markLength_append_gt (by decide), List.drop_append_of_le_length (markLength_le _ _),
      runLength_append_gt (by decide)]

theorem exponentLength_le (cs : List Char) : exponentLength cs ≤ cs.length := by
  cases cs with
  | nil => exact Nat.le_refl _
  | cons d cs =>
    have hmark := markLength_le ['+', '-'] cs
    have hrun := runLength_le (p := Char.isDigit) (cs.drop (markLength ['+', '-'] cs))
    rw [List.length_drop] at hrun
    rw [exponentLength_cons, List.length_cons]
    split
    · split <;> omega
    · exact Nat.zero_le _

theorem decimalLength_append_gt (cs after : List Char) :
    decimalLength (cs ++ '>' :: after) = decimalLength cs := by
  have hwhole := runLength_le (p := isDigitOrSeparator) cs
  have hfraction := fractionLength_le (cs.drop (runLength isDigitOrSeparator cs))
  have hexponent := exponentLength_le (cs.drop (runLength isDigitOrSeparator cs +
    fractionLength (cs.drop (runLength isDigitOrSeparator cs))))
  rw [List.length_drop] at hfraction hexponent
  unfold decimalLength
  dsimp only
  rw [runLength_append_gt (by decide), List.drop_append_of_le_length hwhole,
    fractionLength_append_gt, List.drop_append_of_le_length (by omega), exponentLength_append_gt,
    List.drop_append_of_le_length (by omega), markLength_append_gt (by decide)]

theorem hexLength?_append_gt (cs after : List Char) :
    hexLength? (cs ++ '>' :: after) = hexLength? cs := by
  cases cs with
  | nil => rfl
  | cons d cs =>
    have hrun := runLength_append_gt (p := fun c => isHexDigit c || c == '_') (by decide) cs after
    have hle := runLength_le (p := fun c => isHexDigit c || c == '_') cs
    simp only [List.cons_append, hexLength?, hrun, List.drop_append_of_le_length hle,
      markLength_append_gt (show '>' ∉ ['l', 'L'] by decide)]

theorem numberLength_append_gt (d : Char) (cs after : List Char) :
    numberLength d (cs ++ '>' :: after) = numberLength d cs := by
  rw [numberLength, numberLength, hexLength?_append_gt, decimalLength_append_gt]

/-! ## All lexemes -/

/-- An angle bracket in a symbol opens it or ends it. -/
theorem not_mem_of_mem_all (s : Symbol) : '>' ∉ s.spelling.toList.tail.dropLast := by
  cases s <;> decide

/-- No symbol goes on behind an angle bracket that does not open it. -/
theorem symbol?_append_gt (c : Char) (cs after : List Char) :
    symbol? (c :: (cs ++ '>' :: after)) = symbol? (c :: (cs ++ ['>'])) := by
  have hsame : ∀ s : Symbol, s.spelling.toList.isPrefixOf (c :: (cs ++ '>' :: after)) =
      s.spelling.toList.isPrefixOf (c :: (cs ++ ['>'])) := by
    intro s
    rw [Bool.eq_iff_iff, List.isPrefixOf_iff_prefix, List.isPrefixOf_iff_prefix]
    have hshort : c :: (cs ++ ['>']) <+: c :: (cs ++ '>' :: after) :=
      ⟨after, by simp⟩
    refine ⟨fun h => ?_, fun h => h.trans hshort⟩
    rcases List.prefix_or_prefix_of_prefix h hshort with h | h
    · exact h
    · -- the symbol would go on behind the bracket
      obtain ⟨more, hmore⟩ := h
      cases more with
      | nil => exact ⟨[], by rw [List.append_nil, ← hmore, List.append_nil]⟩
      | cons d more =>
        refine absurd ?_ (not_mem_of_mem_all s)
        rw [← hmore]
        simp [List.dropLast_append_of_ne_nil]
  unfold symbol?
  rw [funext hsame]

/-- A run that ends before the characters do is not longer where others follow. -/
theorem runLength_append_of_lt {p : Char → Bool} (h : runLength p cs < cs.length)
    (after : List Char) : runLength p (cs ++ after) = runLength p cs := by
  unfold runLength at h ⊢
  rw [List.takeWhile_append, if_neg (Nat.ne_of_lt h)]

/-- A run that ends before an angle bracket ends there wherever the text goes on. -/
theorem runLength_append_of_le {p : Char → Bool}
    (h : runLength p (cs ++ ['>']) ≤ cs.length) (after : List Char) :
    runLength p (cs ++ '>' :: after) = runLength p (cs ++ ['>']) := by
  cases hp : p '>' with
  | false => rw [runLength_append_gt hp, runLength_append_gt hp]
  | true =>
    rcases Nat.lt_or_eq_of_le (runLength_le (p := p) cs) with hlt | heq
    · rw [runLength_append_of_lt hlt, runLength_append_of_lt hlt]
    · -- the run would go on with the bracket
      unfold runLength at h heq
      rw [List.takeWhile_append, if_pos heq, List.takeWhile_cons_of_pos hp] at h
      simp only [List.takeWhile_nil, List.length_append, List.length_singleton] at h
      omega

/-- A comment or literal that is over before an angle bracket is so wherever the text goes on. -/
theorem append_gt_of_take {length? : List Char → Option Nat}
    (htake : ∀ {cs n}, length? cs = some n → ∀ after, length? (cs.take n ++ after) = some n)
    (h : length? (cs ++ ['>']) = some n) (hn : n ≤ cs.length) (after : List Char) :
    length? (cs ++ '>' :: after) = some n := by
  have hsplit := htake h (cs.drop n ++ '>' :: after)
  rwa [List.take_append_of_le_length hn, ← List.append_assoc, List.take_append_drop] at hsplit

/-- **What is read before an angle bracket** does not depend on what stands behind it. -/
theorem read_append_gt {lexeme : Lexeme} (h : read c (cs ++ ['>']) = some (lexeme, n))
    (hn : n ≤ cs.length) (after : List Char) :
    read c (cs ++ '>' :: after) = some (lexeme, n) := by
  have hhead : (cs ++ '>' :: after).head? = (cs ++ ['>']).head? := by
    cases cs <;> rfl
  unfold read at h ⊢
  rw [hhead]
  by_cases hblank : isGapChar c = true
  · rw [if_pos hblank] at h ⊢
    rwa [runLength_append_gt (by decide)] at h ⊢
  rw [if_neg hblank] at h ⊢
  by_cases hline : (c == '/' && (cs ++ ['>']).head? == some '/') = true
  · rw [if_pos hline] at h ⊢
    cases h
    rw [runLength_append_of_le hn]
  rw [if_neg hline] at h ⊢
  by_cases hblock : (c == '/' && (cs ++ ['>']).head? == some '*') = true
  · rw [if_pos hblock] at h ⊢
    obtain ⟨m, hm, heq⟩ := Option.map_eq_some_iff.1 h
    cases heq
    simp only [Bool.and_eq_true, beq_iff_eq] at hblock
    cases cs with
    | nil => exact absurd hblock.2 (by decide)
    | cons d cs =>
      have hcomment := append_gt_of_take blockComment?_take hm (Nat.le_of_succ_le_succ hn) after
      exact congrArg (Option.map fun n => (gap, n + 1)) hcomment
  rw [if_neg hblock] at h ⊢
  by_cases hdigit : c.isDigit = true
  · rw [if_pos hdigit] at h ⊢
    rwa [numberLength_append_gt] at h ⊢
  rw [if_neg hdigit] at h ⊢
  by_cases hquote : (c == '"') = true
  · rw [if_pos hquote] at h ⊢
    obtain ⟨m, hm, heq⟩ := Option.map_eq_some_iff.1 h
    cases heq
    rw [append_gt_of_take stringLength?_take hm hn]
    rfl
  rw [if_neg hquote] at h ⊢
  by_cases hchar : (c == '\'') = true
  · rw [if_pos hchar] at h ⊢
    obtain ⟨m, hm, heq⟩ := Option.map_eq_some_iff.1 h
    cases heq
    rw [append_gt_of_take charLength?_take hm hn]
    rfl
  rw [if_neg hchar] at h ⊢
  by_cases hstart : isIdentStart c = true
  · rw [if_pos hstart] at h ⊢
    have hends : ∀ rest, ∀ d ∈ ('>' :: rest : List Char).head?, isIdentContinue d = false := by
      rintro rest d ⟨⟩
      decide
    rwa [word_append (hends _)] at h ⊢
  rw [if_neg hstart] at h ⊢
  rwa [symbol?_append_gt]

/-- A symbol is one character where the only one that could go on with it does not follow. -/
theorem symbol?_cons {second : Char} (hsecond : ∀ s : Symbol, s.spelling.toList.head? = some c →
    s.spelling.toList[1]? ∈ [none, some second]) (h : after.head? ≠ some second) :
    symbol? (c :: after) = symbol? [c] := by
  have hsame : ∀ s : Symbol,
      s.spelling.toList.isPrefixOf (c :: after) = s.spelling.toList.isPrefixOf [c] := by
    intro s
    have hs := hsecond s
    generalize s.spelling.toList = cs at hs
    match cs, after with
    | [], _ | [_], _ => rfl
    | e :: d :: cs, [] => rfl
    | e :: d :: cs, d' :: after =>
      simp only [List.isPrefixOf, Bool.and_false]
      by_cases heq : e = c
      · obtain rfl : d = second := by simpa using hs (congrArg some heq)
        have hne : (d == d') = false := beq_eq_false_iff_ne.2 fun heq => h (congrArg some heq.symm)
        rw [hne, Bool.false_and, Bool.and_false]
      · rw [beq_eq_false_iff_ne.2 heq, Bool.false_and]
  unfold symbol?
  rw [funext hsame]

/-- An angle bracket is read alone where no sign of equality follows. -/
theorem read_gt (h : after.head? ≠ some '=') :
    read '>' after = some (.token Symbol.gt, 0) := by
  have hsymbol : symbol? ('>' :: after) = symbol? ['>'] :=
    symbol?_cons (fun s => by cases s <;> decide) h
  exact congrArg (Option.map fun s => (token (s : Symbol), s.spelling.length - 1)) hsymbol

/-- A point is read alone where no other one follows. -/
theorem read_dot (h : after.head? ≠ some '.') :
    read '.' after = some (.token Symbol.dot, 0) := by
  have hsymbol : symbol? ('.' :: after) = symbol? ['.'] :=
    symbol?_cons (fun s => by cases s <;> decide) h
  exact congrArg (Option.map fun s => (token (s : Symbol), s.spelling.length - 1)) hsymbol

end Lexeme

namespace ReadsInto

variable {inner rest : List Char} {mid ss : List Stretch}

/-- A symbol is a stretch before those of what follows. -/
theorem symbol_append (s : Symbol) (c : Char) (cs : List Char) (hs : s.spelling.toList = c :: cs)
    (hread : Lexeme.read c (cs ++ after) = some (.token s, cs.length))
    (h : ReadsInto after ss rest) : ReadsInto (c :: cs ++ after) (s.stretch :: ss) rest := by
  have hnext := ReadsInto.next hread (by rwa [List.drop_left])
  rwa [List.take_left, ← hs] at hnext

/-- **A text that ends with an angle bracket** is read alike where another text follows. -/
theorem append_gt (h : ReadsInto (inner ++ ['>']) (mid ++ [Symbol.gt.stretch]) [])
    (hafter : after.head? ≠ some '=') (hrest : ReadsInto after ss rest) :
    ReadsInto (inner ++ '>' :: after) (mid ++ Symbol.gt.stretch :: ss) rest := by
  induction mid generalizing inner with
  | nil =>
    obtain rfl : inner = [] := by simpa [Symbol.stretch, Symbol.spelling] using h.eq_append
    exact .next (Lexeme.read_gt hafter) hrest
  | cons s mid ih =>
    cases inner with
    | nil =>
      have hchars := h.eq_append
      cases h with
      | next hread hlater => simp [Symbol.stretch, Symbol.spelling, charsOf] at hchars
    | cons c inner =>
      rw [List.cons_append, List.cons_append] at h
      generalize hstretches : mid ++ [Symbol.gt.stretch] = stretches at h
      cases h with
      | @next _ _ _ lexeme n _ hread hlater =>
        subst hstretches
        have hchars := congrArg List.length hlater.eq_append
        have hn : n ≤ inner.length := by
          simp [Symbol.stretch, Symbol.spelling, charsOf] at hchars
          omega
        rw [List.drop_append_of_le_length hn] at hlater
        rw [List.take_append_of_le_length hn]
        have hnext := ReadsInto.next (Lexeme.read_append_gt hread hn after)
          (by rw [List.drop_append_of_le_length hn]; exact ih hlater)
        rwa [List.take_append_of_le_length hn] at hnext

end ReadsInto

end SourceSearch
