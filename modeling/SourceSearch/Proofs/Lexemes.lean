import SourceSearch.Proofs.TokenOrder

/-!
# Lexemes of a text

A text is read as one stretch of characters behind the other, each of which is a lexeme
(`stretchesFrom`), and its tokens are the stretches that are no gaps (`ReadsInto.tokenizeFrom_eq`).
No character is lost between two stretches, so that the tokens of a text cut it into what they are
spelled with and the gaps between them (`ReadsInto.cutInto`), and a gap is nothing but blanks and
comments (`gap_of_read`). An identifier goes on as long as there are characters of identifiers, so
that no other one starts where it ends (`ReadsInto.pairwise_idents`).
-/

set_option autoImplicit false

namespace SourceSearch

/-! ## Stretches -/

/-- Characters that are read as one lexeme. -/
structure Stretch where
  lexeme : Lexeme
  chars : List Char
  deriving DecidableEq, Repr

/-- What characters are read as, the first `skip` of which belong to a lexeme that is already read,
up to the first character at which no lexeme starts. -/
def stretchesFrom : (skip : Nat) → List Char → List Stretch
  | _, [] => []
  | skip + 1, _ :: cs => stretchesFrom skip cs
  | 0, c :: cs =>
    match Lexeme.read c cs with
    | none => []
    | some (lexeme, n) => ⟨lexeme, c :: cs.take n⟩ :: stretchesFrom n cs

/-- The characters of stretches one behind the other. -/
def charsOf (stretches : List Stretch) : List Char := stretches.flatMap (·.chars)

@[simp] theorem charsOf_nil : charsOf [] = [] := rfl

@[simp] theorem charsOf_cons (s : Stretch) (ss : List Stretch) :
    charsOf (s :: ss) = s.chars ++ charsOf ss := rfl

/-- The tokens among stretches, the first of which stands at byte `offset`. -/
def tokensFrom : (offset : Nat) → List Stretch → List Token
  | _, [] => []
  | offset, ⟨.gap, cs⟩ :: ss => tokensFrom (offset + byteLength cs) ss
  | offset, ⟨.token kind, cs⟩ :: ss =>
    ⟨kind, String.ofList cs, .ofLength offset (byteLength cs)⟩ ::
      tokensFrom (offset + byteLength cs) ss

/-- Characters are read as stretches, one behind the other, and those that are left start with one
at which no lexeme starts. -/
inductive ReadsInto : List Char → List Stretch → List Char → Prop
  | done : ReadsInto [] [] []
  | stuck {c : Char} {cs : List Char} : Lexeme.read c cs = none → ReadsInto (c :: cs) [] (c :: cs)
  | next {c : Char} {cs rest : List Char} {lexeme : Lexeme} {n : Nat} {ss : List Stretch} :
      Lexeme.read c cs = some (lexeme, n) → ReadsInto (cs.drop n) ss rest →
      ReadsInto (c :: cs) (⟨lexeme, c :: cs.take n⟩ :: ss) rest

/-- **Every text** is read as its stretches. -/
theorem exists_readsInto (skip : Nat) (cs : List Char) :
    ∃ rest, ReadsInto (cs.drop skip) (stretchesFrom skip cs) rest := by
  induction cs generalizing skip with
  | nil => exact ⟨[], by rw [List.drop_nil]; exact .done⟩
  | cons c cs ih =>
    cases skip with
    | succ skip => exact ih skip
    | zero =>
      rw [List.drop_zero, stretchesFrom]
      split
      next hread => exact ⟨c :: cs, .stuck hread⟩
      next lexeme n hread =>
        obtain ⟨rest, hrest⟩ := ih n
        exact ⟨rest, .next hread hrest⟩

namespace ReadsInto

variable {cs rest : List Char} {ss : List Stretch}

/-- **No character is lost.** -/
theorem eq_append (h : ReadsInto cs ss rest) : cs = charsOf ss ++ rest := by
  induction h with
  | done => rfl
  | stuck => rfl
  | @next c cs rest _ n ss _ _ ih =>
    rw [charsOf_cons, List.append_assoc, ← ih, List.cons_append, List.take_append_drop]

theorem read_eq_none {c : Char} {after : List Char} (h : ReadsInto cs ss (c :: after)) :
    Lexeme.read c after = none := by
  generalize hrest : c :: after = rest at h
  induction h with
  | done => cases hrest
  | stuck hread =>
    cases hrest
    exact hread
  | next _ _ ih => exact ih hrest

/-- **The tokens are the stretches that are no gaps**, and the first character at which no lexeme
starts is an error. -/
theorem tokenizeFrom_eq {skip offset : Nat} (h : ReadsInto (cs.drop skip) ss rest) :
    tokenizeFrom offset skip cs =
      if rest = [] then .ok (tokensFrom (offset + byteLength (cs.take skip)) ss)
      else .error ⟨offset + byteLength (cs.take skip) + byteLength (charsOf ss)⟩ := by
  induction cs generalizing offset skip ss rest with
  | nil =>
    rw [List.drop_nil] at h
    cases h
    rfl
  | cons c cs ih =>
    cases skip with
    | succ skip =>
      rw [List.take_succ_cons, byteLength_cons, ← Nat.add_assoc]
      exact ih h
    | zero =>
      rw [List.drop_zero] at h
      rw [tokenizeFrom, List.take_zero, byteLength_nil, Nat.add_zero]
      cases h with
      | stuck hread =>
        rw [hread, if_neg (List.cons_ne_nil _ _), charsOf_nil]
        rfl
      | @next _ _ _ lexeme n ss hread hrest =>
        have hsize : offset + c.utf8Size + byteLength (cs.take n) =
            offset + byteLength (c :: cs.take n) := by rw [byteLength_cons, Nat.add_assoc]
        have hlater : tokenizeFrom (offset + c.utf8Size) n cs = _ := ih hrest
        rw [hsize, Nat.add_assoc offset, ← byteLength_append] at hlater
        rw [hread]
        cases lexeme with
        | gap => exact hlater
        | token kind =>
          simp only [hlater, tokensFrom, charsOf_cons]
          split <;> rfl

end ReadsInto

/-! ## Gaps -/

/-- The blanks between tokens. -/
def blanks : List Char := [' ', '\t', '\r', '\n', '\x0c']

/-- Characters between tokens, where `after` follows: blanks, comments to the end of their line, and
comments to the first mark that closes them. -/
inductive Gap : List Char → List Char → Prop
  | nil {after : List Char} : Gap [] after
  | blank {c : Char} {cs after : List Char} : c ∈ blanks → Gap cs after → Gap (c :: cs) after
  | lineComment {inner cs after : List Char} : '\n' ∉ inner →
      (∀ c ∈ (cs ++ after).head?, c = '\n') → Gap cs after → Gap ('/' :: '/' :: (inner ++ cs)) after
  | blockComment {inner cs after : List Char} : ¬ ['*', '/'] <:+: inner ++ ['*'] → Gap cs after →
      Gap ('/' :: '*' :: (inner ++ '*' :: '/' :: cs)) after

theorem Gap.append {cs cs' after : List Char} (h : Gap cs (cs' ++ after)) (h' : Gap cs' after) :
    Gap (cs ++ cs') after := by
  generalize hrest : cs' ++ after = rest at h
  induction h with
  | nil => exact h'
  | blank hc _ ih => exact .blank hc (ih hrest)
  | @lineComment inner cs _ hinner hend _ ih =>
    rw [List.cons_append, List.cons_append, List.append_assoc]
    refine .lineComment hinner ?_ (ih hrest)
    rwa [List.append_assoc, hrest]
  | @blockComment inner cs _ hinner _ ih =>
    rw [List.cons_append, List.cons_append, List.append_assoc, List.cons_append, List.cons_append]
    exact .blockComment hinner (ih hrest)

theorem mem_blanks_of_isGapChar {c : Char} (h : Lexeme.isGapChar c = true) : c ∈ blanks := by
  simp only [Lexeme.isGapChar, Bool.or_eq_true, beq_iff_eq] at h
  rcases h with (((rfl | rfl) | rfl) | rfl) | h
  · decide
  · decide
  · decide
  · decide
  · obtain rfl : c = '\x0c' := Char.toNat_inj.1 h
    decide

theorem gap_of_blanks {cs after : List Char} (h : ∀ c ∈ cs, Lexeme.isGapChar c = true) :
    Gap cs after := by
  induction cs with
  | nil => exact .nil
  | cons c cs ih =>
    obtain ⟨hc, hcs⟩ := List.forall_mem_cons.1 h
    exact .blank (mem_blanks_of_isGapChar hc) (ih hcs)

/-- The text of a comment goes on to the first mark that closes it. -/
theorem exists_of_blockComment? {cs : List Char} {n : Nat} (h : Lexeme.blockComment? cs = some n) :
    ∃ inner, cs.take n = inner ++ ['*', '/'] ∧ ¬ ['*', '/'] <:+: inner ++ ['*'] := by
  induction cs using Lexeme.blockComment?.induct generalizing n with
  | case1 cs =>
    cases h
    exact ⟨[], rfl, by decide⟩
  | case2 c cs hopen ih =>
    rw [Lexeme.blockComment?.eq_2 _ _ hopen] at h
    obtain ⟨n, hn, rfl⟩ := Option.map_eq_some_iff.1 h
    obtain ⟨inner, hinner, hnot⟩ := ih hn
    refine ⟨c :: inner, by rw [List.take_succ_cons, hinner, List.cons_append], fun hinfix => ?_⟩
    rcases List.infix_cons_iff.1 hinfix with hprefix | hinfix
    · -- the mark would open the characters, and so it is what comes first
      obtain ⟨hc, hslash⟩ := List.cons_prefix_cons.1 hprefix
      cases inner with
      | nil => cases (List.cons_prefix_cons.1 hslash).1
      | cons d inner =>
        obtain rfl : '/' = d := (List.cons_prefix_cons.1 hslash).1
        cases cs with
        | nil => simp at hinner
        | cons e cs =>
          cases n with
          | zero => simp at hinner
          | succ n =>
            rw [List.take_succ_cons, List.cons_append, List.cons_eq_cons] at hinner
            exact hopen cs hc.symm (by rw [hinner.1])
    · exact hnot hinfix
  | case3 => cases h

theorem Lexeme.word_fst_ne_gap {c : Char} {cs : List Char} : (word c cs).1 ≠ .gap := by
  unfold word
  dsimp only
  split
  · split <;> nofun
  · nofun

/-- **A stretch between tokens** is a run of blanks or a comment. -/
theorem gap_of_read {c : Char} {cs : List Char} {n : Nat}
    (h : Lexeme.read c cs = some (.gap, n)) : Gap (c :: cs.take n) (cs.drop n) := by
  unfold Lexeme.read at h
  split at h
  next hblank =>
    cases h
    refine gap_of_blanks (List.forall_mem_cons.2 ⟨hblank, fun d hd => ?_⟩)
    exact Lexeme.of_mem_take_runLength hd
  split at h
  next hline =>
    simp only [Bool.and_eq_true, beq_iff_eq] at hline
    obtain ⟨rfl, hslash⟩ := hline
    obtain ⟨cs, rfl⟩ := List.head?_eq_some_iff.1 hslash
    cases h
    have hrun : Lexeme.runLength (· != '\n') ('/' :: cs) = Lexeme.runLength (· != '\n') cs + 1 := by
      simp [Lexeme.runLength]
    rw [hrun, List.take_succ_cons, List.drop_succ_cons, ← List.append_nil (cs.take _)]
    refine .lineComment (fun hmem => ?_) (fun d hd => ?_) .nil
    · simpa using Lexeme.of_mem_take_runLength hmem
    · simpa using Lexeme.head?_drop_runLength (p := (· != '\n')) hd
  split at h
  next hblock =>
    simp only [Bool.and_eq_true, beq_iff_eq] at hblock
    obtain ⟨rfl, hstar⟩ := hblock
    obtain ⟨cs, rfl⟩ := List.head?_eq_some_iff.1 hstar
    obtain ⟨n, hn, heq⟩ := Option.map_eq_some_iff.1 h
    cases heq
    obtain ⟨inner, hinner, hnot⟩ := exists_of_blockComment? hn
    rw [List.take_succ_cons, show cs.take n = _ from hinner]
    exact .blockComment hnot .nil
  -- all other characters are tokens
  split at h
  · cases h
  split at h
  · simp at h
  split at h
  · simp at h
  split at h
  · exact absurd (congrArg Prod.fst (Option.some.inj h)) Lexeme.word_fst_ne_gap
  · simp at h

/-! ## Cuts -/

/-- Characters before `after` are cut into the tokens, the gaps before them and the one behind the
last of them. A token has the range of the characters that it is spelled with, counted from byte
`offset` at which the first character stands. -/
def CutInto (after : List Char) : (offset : Nat) → List Char → List Token → Prop
  | _, cs, [] => Gap cs after
  | offset, cs, t :: ts => ∃ gap rest, cs = gap ++ (t.text.toList ++ rest) ∧
      Gap gap (t.text.toList ++ rest ++ after) ∧ t.text ≠ "" ∧
      t.range = .ofLength (offset + byteLength gap) (byteLength t.text.toList) ∧
      CutInto after (offset + byteLength gap + byteLength t.text.toList) rest ts

/-- A gap before a cut belongs to the first gap of it. -/
theorem CutInto.gap_append {gap cs after : List Char} {offset : Nat} {tokens : List Token}
    (hgap : Gap gap (cs ++ after)) (h : CutInto after (offset + byteLength gap) cs tokens) :
    CutInto after offset (gap ++ cs) tokens := by
  cases tokens with
  | nil => exact hgap.append h
  | cons t ts =>
    obtain ⟨gap', rest, rfl, hgap', hne, hrange, hrest⟩ := h
    rw [List.append_assoc] at hgap
    have hsize : offset + byteLength gap + byteLength gap' = offset + byteLength (gap ++ gap') := by
      rw [byteLength_append, Nat.add_assoc]
    rw [hsize] at hrange hrest
    exact ⟨gap ++ gap', rest, (List.append_assoc ..).symm, hgap.append hgap', hne, hrange, hrest⟩

/-- **What is read is cut** into the tokens and the gaps between them. -/
theorem ReadsInto.cutInto {cs rest : List Char} {ss : List Stretch} (h : ReadsInto cs ss rest)
    (offset : Nat) : CutInto rest offset (charsOf ss) (tokensFrom offset ss) := by
  induction h generalizing offset with
  | done => exact .nil
  | stuck => exact .nil
  | @next c cs rest lexeme n ss hread hrest ih =>
    rw [charsOf_cons]
    cases lexeme with
    | gap =>
      refine .gap_append ?_ (ih _)
      rw [← hrest.eq_append]
      exact gap_of_read hread
    | token kind =>
      refine ⟨[], charsOf ss, ?_, .nil, ?_, ?_, ?_⟩
      · simp
      · simp
      · simp
      · simpa using ih _

/-! ## Identifiers -/

namespace Lexeme

variable {c : Char} {cs : List Char}

theorem not_isIdentContinue_of_isGapChar (h : isGapChar c = true) : isIdentContinue c = false := by
  have hall : (blanks.all fun c => !isIdentContinue c) = true := by decide
  simpa using List.all_eq_true.1 hall c (mem_blanks_of_isGapChar h)

theorem not_isIdentStart_of_isDigit (h : c.isDigit = true) : isIdentStart c = false := by
  have hall : ∀ n ∈ List.range' 48 10, isIdentStart (Char.ofNat n) = false := by decide
  simp only [Char.isDigit, Bool.and_eq_true, decide_eq_true_eq, ge_iff_le,
    UInt32.le_iff_toNat_le] at h
  have hzero : '0'.val.toNat = 48 := rfl
  have hnine : '9'.val.toNat = 57 := rfl
  rw [← Char.ofNat_toNat c]
  refine hall _ (List.mem_range'_1.2 ?_)
  show 48 ≤ c.val.toNat ∧ c.val.toNat < 48 + 10
  omega

/-- A character that may open an identifier opens a word. -/
theorem read_of_isIdentStart (h : isIdentStart c = true) : read c cs = some (word c cs) := by
  have hgap : isGapChar c ≠ true := fun hgap => by
    have hcontinue := isIdentContinue_of_isIdentStart h
    rw [not_isIdentContinue_of_isGapChar hgap] at hcontinue
    cases hcontinue
  have hdigit : c.isDigit ≠ true := fun hdigit => by
    rw [not_isIdentStart_of_isDigit hdigit] at h
    cases h
  have hne : ∀ d, isIdentStart d = false → (c == d) = false := by
    rintro d hd
    rw [beq_eq_false_iff_ne]
    rintro rfl
    rw [hd] at h
    cases h
  rw [read, if_neg hgap, hne '/' (by decide), hne '"' (by decide), hne '\'' (by decide)]
  simp [hdigit, h]

/-- An identifier goes on as long as there are characters of identifiers. -/
theorem not_isIdentContinue_of_word {d : Char} {n : Nat} (h : word c cs = (.token .ident, n))
    (hd : (cs.drop n).head? = some d) : isIdentContinue d = false := by
  unfold word at h
  dsimp only at h
  split at h
  next kind hreserved =>
    split at h
    · cases h
      rw [← List.drop_drop] at hd
      exact head?_drop_runLength hd
    · cases h
      exact absurd rfl (TokenKind.ne_ident_of_reserved _
        (TokenKind.mem_reserved_of_ofReserved? hreserved))
  next =>
    cases h
    rw [← List.drop_drop] at hd
    exact head?_drop_runLength hd

/-- An identifier starts with a character that may open one. -/
theorem isIdentStart_of_read {n : Nat} (h : read c cs = some (.token .ident, n)) :
    isIdentStart c = true := by
  obtain ⟨c', cs', heq, hstart⟩ := ((of_read h).1 rfl).opens
  rw [String.toList_ofList, List.cons_eq_cons] at heq
  rwa [heq.1]

end Lexeme

theorem le_start_of_mem_tokensFrom {offset : Nat} {ss : List Stretch} :
    ∀ t ∈ tokensFrom offset ss, offset ≤ t.range.start := by
  induction ss generalizing offset with
  | nil => nofun
  | cons s ss ih =>
    obtain ⟨_ | kind, cs⟩ := s
    · exact fun t ht => Nat.le_trans (Nat.le_add_right _ _) (ih t ht)
    · refine List.forall_mem_cons.2 ⟨Nat.le_refl _, fun t ht => ?_⟩
      exact Nat.le_trans (Nat.le_add_right _ _) (ih t ht)

namespace ReadsInto

variable {cs rest : List Char} {ss : List Stretch}

/-- No identifier stands where no character of an identifier does. -/
theorem lt_start_of_ident {offset : Nat} (h : ReadsInto cs ss rest)
    (hcs : ∀ c ∈ cs.head?, isIdentContinue c = false) :
    ∀ t ∈ tokensFrom offset ss, t.kind = .ident → offset < t.range.start := by
  cases h with
  | done => nofun
  | stuck => nofun
  | @next c cs _ lexeme n ss hread hrest =>
    have hsize : offset < offset + byteLength (c :: cs.take n) :=
      Nat.lt_add_of_pos_right (byteLength_pos (List.cons_ne_nil _ _))
    have hlater : ∀ t ∈ tokensFrom (offset + byteLength (c :: cs.take n)) ss,
        offset < t.range.start :=
      fun t ht => Nat.lt_of_lt_of_le hsize (le_start_of_mem_tokensFrom t ht)
    cases lexeme with
    | gap => exact fun t ht _ => hlater t ht
    | token kind =>
      refine List.forall_mem_cons.2 ⟨fun hkind => ?_, fun t ht _ => hlater t ht⟩
      obtain rfl : kind = .ident := hkind
      have hstart := isIdentContinue_of_isIdentStart (Lexeme.isIdentStart_of_read hread)
      rw [hcs c rfl] at hstart
      cases hstart

/-- **No two identifiers touch.** -/
theorem pairwise_idents (h : ReadsInto cs ss rest) (offset : Nat) :
    (tokensFrom offset ss).Pairwise fun t t' =>
      t.kind = .ident → t'.kind = .ident → t.range.stop < t'.range.start := by
  induction h generalizing offset with
  | done => exact .nil
  | stuck => exact .nil
  | @next c cs rest lexeme n ss hread hrest ih =>
    cases lexeme with
    | gap => exact ih _
    | token kind =>
      refine List.pairwise_cons.2 ⟨fun t ht hkind hkind' => ?_, ih _⟩
      obtain rfl : kind = .ident := hkind
      refine hrest.lt_start_of_ident (fun d hd => ?_) t ht hkind'
      rw [Lexeme.read_of_isIdentStart (Lexeme.isIdentStart_of_read hread)] at hread
      exact Lexeme.not_isIdentContinue_of_word (Option.some.inj hread) hd

end ReadsInto

/-! ## Texts -/

/-- The tokens stand in the text one behind the other with nothing but gaps between them, and no
two identifiers touch. -/
structure Partitions (text : String) (tokens : List Token) : Prop where
  cut : CutInto [] 0 text.toList tokens
  pos : ∀ t ∈ tokens, t.range.start < t.range.stop
  slice : ∀ t ∈ tokens, slice text t.range = some t.text
  apart : tokens.Pairwise fun t t' => t.range.stop ≤ t'.range.start
  idents_apart : tokens.Pairwise fun t t' =>
    t.kind = .ident → t'.kind = .ident → t.range.stop < t'.range.start

/-- A text is cut into tokens and gaps up to a character of it at the offset, at which no lexeme
starts. -/
structure FailsAt (text : String) (offset : Nat) : Prop where
  lt : offset < text.utf8ByteSize
  cut : ∃ before c after tokens, text.toList = before ++ c :: after ∧ offset = byteLength before ∧
    CutInto (c :: after) 0 before tokens ∧ Lexeme.read c after = none

/-- The tokens of a text that are read before the first character at which no lexeme starts. -/
def tokensRead (text : String) : List Token := tokensFrom 0 (stretchesFrom 0 text.toList)

/-- A text is read as stretches, and its tokens are those among them unless characters are left. -/
theorem exists_readsInto_toList (text : String) :
    ∃ rest, ReadsInto text.toList (stretchesFrom 0 text.toList) rest ∧
      tokenize text = if rest = [] then .ok (tokensRead text)
        else .error ⟨byteLength (charsOf (stretchesFrom 0 text.toList))⟩ := by
  obtain ⟨rest, hreads⟩ := exists_readsInto 0 text.toList
  have hanswer : tokenizeFrom 0 0 text.toList = _ := hreads.tokenizeFrom_eq
  rw [List.take_zero, byteLength_nil, Nat.zero_add, Nat.zero_add] at hanswer
  exact ⟨rest, hreads, hanswer⟩

end SourceSearch
