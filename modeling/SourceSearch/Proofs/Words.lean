import Mathlib.Data.List.TakeWhile
import SourceSearch.Search.WordIndex

/-!
# The words of a text

The tokens that the parser reads names from are identifiers and the words of primitive types. An
identifier of a text is a word (`IsWord`): it is not empty, has no dot and is not reserved, since a
lexeme is as long as can be and a reserved word wins. All of it is made of the characters of
identifiers (`IsIdentifier`). A primitive type and a keyword stand for
themselves (`Token.From`). `tokens_from` states this for all tokens of a text.
-/

set_option autoImplicit false

namespace SourceSearch

/-- An identifier's text. -/
structure IsWord (word : String) : Prop where
  ne_empty : word ≠ ""
  no_dot : '.' ∉ word.toList
  not_reserved : TokenKind.ofReserved? word = none

/-- An identifier's text, with the characters that it is made of. -/
structure IsIdentifier (word : String) : Prop extends IsWord word where
  opens : ∃ c cs, word.toList = c :: cs ∧ isIdentStart c = true
  goesOn : ∀ c ∈ word.toList, isIdentContinue c = true

/-- An identifier is one of the words, and a primitive type and a keyword are written by their own
words. -/
structure Token.From (words : String → Prop) (token : Token) : Prop where
  ident : token.kind = .ident → words token.text
  primitive : ∀ p, token.kind = .primitive p → token.text = p.spelling
  keyword : ∀ k, token.kind = .keyword k → token.text = k.spelling

/-! ## Reserved words -/

namespace TokenKind

theorem mem_reserved_of_ofReserved? {word : String} {kind : TokenKind}
    (h : ofReserved? word = some kind) : (word, kind) ∈ reserved := by
  obtain ⟨before, after, heq, -⟩ := List.lookup_eq_some_iff.1 h
  rw [heq]
  simp

/-- Reserved words are made of the characters of words within ASCII. -/
theorem isWordChar_of_reserved :
    ∀ e ∈ reserved, ∀ c ∈ e.1.toList, Lexeme.isWordChar c = true := by
  have hall : (reserved.all fun e => e.1.toList.all Lexeme.isWordChar) = true := by decide
  intro e he c hc
  exact List.all_eq_true.1 (List.all_eq_true.1 hall e he) c hc

/-- A primitive type is reserved under its spelling only. -/
theorem spelling_of_reserved_primitive :
    ∀ e ∈ reserved, ∀ p ∈ Primitive.all, e.2 = .primitive p → e.1 = p.spelling := by
  decide

/-- A keyword is reserved under its spelling only. -/
theorem spelling_of_reserved_keyword :
    ∀ e ∈ reserved, ∀ k ∈ Keyword.all, e.2 = .keyword k → e.1 = k.spelling := by
  decide

theorem ne_ident_of_reserved : ∀ e ∈ reserved, e.2 ≠ .ident := by
  decide

end TokenKind

theorem Primitive.mem_all (p : Primitive) : p ∈ Primitive.all := by
  cases p <;> decide

theorem Keyword.mem_all (k : Keyword) : k ∈ Keyword.all := by
  cases k <;> decide

theorem Primitive.ofSpelling?_spelling (p : Primitive) : ofSpelling? p.spelling = some p := by
  cases p <;> decide

/-- The words of primitive types are reserved. -/
theorem Primitive.ofReserved?_spelling (p : Primitive) :
    TokenKind.ofReserved? p.spelling = some (.primitive p) := by
  cases p <;> decide

/-! ## Lexemes -/

namespace Lexeme

/-- No character of an identifier is a dot. -/
theorem ne_dot_of_isIdentContinue {c : Char} (h : isIdentContinue c = true) : c ≠ '.' := by
  rintro rfl
  revert h
  decide

/-- The characters of words within ASCII are characters of identifiers. -/
theorem isIdentContinue_of_isWordChar {c : Char} (h : isWordChar c = true) :
    isIdentContinue c = true := by
  simp only [isWordChar, Bool.or_eq_true, beq_iff_eq] at h
  rcases h with (h | rfl) | rfl
  · have hascii : c.toNat < 128 := by
      have hranges : ((decide (c.val ≥ 'A'.val ∧ c.val ≤ 'Z'.val) ||
          (c.val ≥ 'a'.val && c.val ≤ 'z'.val)) || (c.val ≥ '0'.val && c.val ≤ '9'.val)) = true := h
      simp only [Bool.or_eq_true, Bool.and_eq_true, decide_eq_true_eq, ge_iff_le,
        UInt32.le_iff_toNat_le, Char.reduceVal, UInt32.reduceToNat, Char.toNat_val] at hranges
      omega
    simp [isIdentContinue, isXidContinue, hascii, h]
  · rfl
  · rfl

/-- The first characters, up to the run of those that satisfy a test, satisfy it. -/
theorem of_mem_take_runLength {p : Char → Bool} {cs : List Char} {c : Char}
    (h : c ∈ cs.take (runLength p cs)) : p c = true := by
  unfold runLength at h
  rw [← List.prefix_iff_eq_take.1 (List.takeWhile_prefix p)] at h
  exact List.mem_takeWhile_imp h

/-- The character after a run does not satisfy the test. -/
theorem head?_drop_runLength {p : Char → Bool} {cs : List Char} {c : Char}
    (h : (cs.drop (runLength p cs)).head? = some c) : p c = false := by
  have hdrop : cs.drop (runLength p cs) = cs.dropWhile p := by
    have hcut : (cs.takeWhile p ++ cs.dropWhile p).drop (cs.takeWhile p).length = cs.dropWhile p :=
      List.drop_left
    rw [List.takeWhile_append_dropWhile] at hcut
    exact hcut
  rw [hdrop] at h
  have hnot := List.head?_dropWhile_not p cs
  rw [h] at hnot
  exact hnot

/-- A run that is not empty starts with a character that satisfies the test. -/
theorem head?_of_runLength_pos {p : Char → Bool} {cs : List Char} (h : 0 < runLength p cs) :
    ∃ c, cs.head? = some c ∧ p c = true := by
  cases cs with
  | nil => simp [runLength] at h
  | cons c cs =>
    refine ⟨c, rfl, ?_⟩
    by_contra hc
    rw [Bool.not_eq_true] at hc
    simp [runLength, hc] at h

/-- The longest identifier that starts with `c` is a word, unless the run of its characters within
ASCII is reserved and is all of it. -/
theorem isIdentifier_longest {c : Char} {cs : List Char} (hc : isIdentStart c = true)
    (h : TokenKind.ofReserved? (String.ofList (c :: cs.take (runLength isWordChar cs))) = none ∨
      0 < runLength isIdentContinue (cs.drop (runLength isWordChar cs))) :
    IsIdentifier (String.ofList (c :: cs.take (runLength isWordChar cs +
      runLength isIdentContinue (cs.drop (runLength isWordChar cs))))) := by
  set inner := runLength isWordChar cs with hinner
  set tail := runLength isIdentContinue (cs.drop inner) with htail
  have hall : ∀ d ∈ c :: cs.take (inner + tail), isIdentContinue d = true := by
    rw [List.take_add]
    intro d hmem
    rcases List.mem_cons.1 hmem with rfl | hmem
    · exact isIdentContinue_of_isIdentStart hc
    · rcases List.mem_append.1 hmem with hmem | hmem
      · exact isIdentContinue_of_isWordChar (of_mem_take_runLength hmem)
      · exact of_mem_take_runLength hmem
  refine ⟨⟨?_, ?_, ?_⟩, ⟨c, _, String.toList_ofList, hc⟩, by rwa [String.toList_ofList]⟩
  · intro hempty
    have := congrArg String.toList hempty
    simp at this
  · rw [String.toList_ofList]
    exact fun hmem => ne_dot_of_isIdentContinue (hall _ hmem) rfl
  · by_cases hzero : tail = 0
    · rw [hzero, Nat.add_zero]
      exact h.resolve_right (by omega)
    -- the character after the run is none of those that reserved words are made of
    · obtain ⟨d, hd, -⟩ := head?_of_runLength_pos (Nat.pos_of_ne_zero hzero)
      have hnot : isWordChar d = false := head?_drop_runLength hd
      have hmem : d ∈ (String.ofList (c :: cs.take (inner + tail))).toList := by
        obtain ⟨others, hothers⟩ := List.head?_eq_some_iff.1 hd
        obtain ⟨k, hk⟩ := Nat.exists_eq_succ_of_ne_zero hzero
        rw [String.toList_ofList, List.take_add, hothers, hk]
        simp
      by_contra hreserved
      obtain ⟨kind, hkind⟩ := Option.ne_none_iff_exists'.1 hreserved
      have hlisted := TokenKind.mem_reserved_of_ofReserved? hkind
      rw [TokenKind.isWordChar_of_reserved _ hlisted d hmem] at hnot
      cases hnot

/-- **What a word is read as**: an identifier that is no reserved word, or what the word is reserved
for. -/
theorem of_word {c : Char} {cs : List Char} {kind : TokenKind} {n : Nat}
    (hc : isIdentStart c = true) (h : word c cs = (.token kind, n)) :
    (kind = .ident ∧ IsIdentifier (String.ofList (c :: cs.take n))) ∨
      TokenKind.ofReserved? (String.ofList (c :: cs.take n)) = some kind := by
  unfold word at h
  dsimp only at h
  split at h
  next found hreserved =>
    split at h
    next hstart =>
      cases h
      refine Or.inl ⟨rfl, isIdentifier_longest hc (Or.inr ?_)⟩
      cases hrest : cs.drop (runLength isWordChar cs) with
      | nil => simp [hrest] at hstart
      | cons d others =>
        rw [hrest] at hstart
        have hd := isIdentContinue_of_isIdentStart (by simpa using hstart)
        simp [runLength, hd]
    next =>
      cases h
      exact Or.inr hreserved
  next hfree =>
    cases h
    exact Or.inl ⟨rfl, isIdentifier_longest hc (Or.inl hfree)⟩

/-- **What a token is read as**: a word if it is an identifier, and its spelling if it is a
primitive type or a keyword. -/
theorem of_read {c : Char} {cs : List Char} {kind : TokenKind} {n : Nat}
    (h : read c cs = some (.token kind, n)) :
    (kind = .ident → IsIdentifier (String.ofList (c :: cs.take n))) ∧
      (∀ p, kind = .primitive p → String.ofList (c :: cs.take n) = p.spelling) ∧
      ∀ k, kind = .keyword k → String.ofList (c :: cs.take n) = k.spelling := by
  unfold read at h
  -- blanks and comments are no tokens
  split at h
  · cases h
  split at h
  · cases h
  split at h
  · obtain ⟨length, -, heq⟩ := Option.map_eq_some_iff.1 h
    cases heq
  -- numbers and quoted texts are no words at all
  split at h
  · cases h
    exact ⟨nofun, nofun, nofun⟩
  split at h
  · obtain ⟨length, -, heq⟩ := Option.map_eq_some_iff.1 h
    cases heq
    exact ⟨nofun, nofun, nofun⟩
  split at h
  · obtain ⟨length, -, heq⟩ := Option.map_eq_some_iff.1 h
    cases heq
    exact ⟨nofun, nofun, nofun⟩
  split at h
  next hstart =>
    rcases of_word hstart (Option.some.inj h) with ⟨rfl, hisword⟩ | hreserved
    · exact ⟨fun _ => hisword, nofun, nofun⟩
    · have hlisted := TokenKind.mem_reserved_of_ofReserved? hreserved
      refine ⟨?_, ?_, ?_⟩
      · rintro rfl
        exact absurd rfl (TokenKind.ne_ident_of_reserved _ hlisted)
      · rintro p rfl
        exact TokenKind.spelling_of_reserved_primitive _ hlisted p p.mem_all rfl
      · rintro k rfl
        exact TokenKind.spelling_of_reserved_keyword _ hlisted k k.mem_all rfl
  next =>
    obtain ⟨symbol, -, heq⟩ := Option.map_eq_some_iff.1 h
    cases heq
    exact ⟨nofun, nofun, nofun⟩

end Lexeme

/-! ## Tokens -/

/-- An identifier is a word, and primitive types and keywords are written by their own words. -/
theorem tokenizeFrom_from {offset skip : Nat} {cs : List Char} {tokens : List Token}
    (h : tokenizeFrom offset skip cs = .ok tokens) : ∀ token ∈ tokens, token.From IsIdentifier := by
  induction cs generalizing offset skip tokens with
  | nil =>
    cases h
    simp
  | cons c cs ih =>
    cases skip with
    | succ skip => exact ih h
    | zero =>
      rw [tokenizeFrom] at h
      split at h
      next => cases h
      next => exact ih h
      next kind n hread =>
        cases hrest : tokenizeFrom (offset + c.utf8Size) n cs with
        | error e => simp [hrest, bind, Except.bind] at h
        | ok rest =>
          simp only [hrest, bind, Except.bind, pure, Except.pure, Except.ok.injEq] at h
          subst h
          intro token hmem
          rcases List.mem_cons.1 hmem with rfl | hmem
          · obtain ⟨hident, hprimitive, hkeyword⟩ := Lexeme.of_read hread
            exact ⟨hident, hprimitive, hkeyword⟩
          · exact ih hrest token hmem

/-- A word of a text is one that the index keeps of it. -/
abbrev WordOf (text word : String) : Prop := word ∈ WordIndex.wordsOfText text

/-- The words that the index keeps of a text are its identifiers. -/
theorem mem_wordsOfText_iff {text word : String} {tokens : List Token}
    (h : tokenize text = .ok tokens) :
    word ∈ WordIndex.wordsOfText text ↔ ∃ token ∈ tokens, token.kind = .ident ∧
      token.text = word := by
  unfold WordIndex.wordsOfText
  rw [h]
  simp only [List.mem_map, List.mem_filter, beq_iff_eq]
  constructor
  · rintro ⟨token, ⟨hmem, hkind⟩, htext⟩
    exact ⟨token, hmem, hkind, htext⟩
  · rintro ⟨token, hmem, hkind, htext⟩
    exact ⟨token, ⟨hmem, hkind⟩, htext⟩

/-- **The identifiers of a text** are spelled as identifiers. -/
theorem isIdentifier_of_mem_wordsOfText {text word : String}
    (h : word ∈ WordIndex.wordsOfText text) : IsIdentifier word := by
  cases htokens : tokenize text with
  | error e => simp [WordIndex.wordsOfText, htokens] at h
  | ok tokens =>
    obtain ⟨token, hmem, hkind, rfl⟩ := (mem_wordsOfText_iff htokens).1 h
    exact (tokenizeFrom_from htokens token hmem).ident hkind

/-- The identifiers of a text are words. -/
theorem isWord_of_mem_wordsOfText {text word : String} (h : word ∈ WordIndex.wordsOfText text) :
    IsWord word :=
  (isIdentifier_of_mem_wordsOfText h).toIsWord

/-- **The tokens of a text** are from the words that the index keeps of it. -/
theorem tokens_from {text : String} {tokens : List Token} (h : tokenize text = .ok tokens) :
    ∀ token ∈ tokens, token.From (WordOf text) := by
  intro token hmem
  obtain ⟨-, hprimitive, hkeyword⟩ := tokenizeFrom_from h token hmem
  exact ⟨fun hkind => (mem_wordsOfText_iff h).2 ⟨token, hmem, hkind, rfl⟩, hprimitive, hkeyword⟩

end SourceSearch
