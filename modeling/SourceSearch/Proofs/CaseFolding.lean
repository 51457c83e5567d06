import SourceSearch.Proofs.NamePatterns
import SourceSearch.Proofs.TokenSlices

/-!
# Matching without regard to case

Where case does not matter, pattern and name are put into lower case and matched byte by byte. This
loses matches: a question mark stands for a byte, and a character may have more or fewer of them in
lower case; and the lower case of a capital sigma depends on the letters around it, which a pattern
need not show. A name keeps all its matches iff neither occurs in it
(`NamePattern.keepsMatches_iff_foldsInPlace`).

If neither occurs, a place in the name and the same place in its lower case go along with the
pattern (`FoldsInPlace.matches_ofListAfter`). If one does, a pattern is written down that shows it:
question marks for a character that changes its size (`keepsSize_of_keepsMatches`), and question
marks for what tells a sigma that it ends a word (`noSigmaInWord_of_keepsMatches`).
-/

set_option autoImplicit false

namespace SourceSearch

/-! ## Bytes of characters -/

/-- The bytes of characters. -/
def bytesOf (cs : List Char) : List UInt8 := cs.flatMap String.utf8EncodeChar

@[simp] theorem bytesOf_nil : bytesOf [] = [] := rfl

@[simp] theorem bytesOf_cons (c : Char) (cs : List Char) :
    bytesOf (c :: cs) = String.utf8EncodeChar c ++ bytesOf cs := List.flatMap_cons

@[simp] theorem bytesOf_append (cs ds : List Char) :
    bytesOf (cs ++ ds) = bytesOf cs ++ bytesOf ds :=
  List.flatMap_append

theorem bytesOf_eq_nil_iff {cs : List Char} : bytesOf cs = [] ↔ cs = [] := by
  cases cs with
  | nil => simp
  | cons c cs => simp [String.utf8EncodeChar_ne_nil]

@[simp] theorem length_bytesOf (cs : List Char) : (bytesOf cs).length = byteLength cs := by
  induction cs with
  | nil => rfl
  | cons c cs ih =>
    rw [bytesOf_cons, List.length_append, String.length_utf8EncodeChar, ih, byteLength_cons]

/-- A character has one first byte, and no byte after it is one. -/
theorem exists_utf8EncodeChar_eq_cons (c : Char) :
    ∃ first later, String.utf8EncodeChar c = first :: later ∧ first.IsUTF8FirstByte ∧
      ∀ byte ∈ later, ¬byte.IsUTF8FirstByte := by
  obtain ⟨first, later, hbytes⟩ :=
    List.exists_cons_of_ne_nil (String.utf8EncodeChar_ne_nil (c := c))
  have hfirst : ∀ i (hi : i < (first :: later).length),
      (first :: later)[i].IsUTF8FirstByte ↔ i = 0 := by
    intro i hi
    have hbound : i < (String.utf8EncodeChar c).length := hbytes ▸ hi
    have hget : (first :: later)[i] = (String.utf8EncodeChar c)[i] := by
      simp only [hbytes]
    rw [hget]
    exact UInt8.isUTF8FirstByte_getElem_utf8EncodeChar
  refine ⟨first, later, hbytes, (hfirst 0 (by simp)).2 rfl, fun byte hmem hbyte => ?_⟩
  obtain ⟨i, hi, rfl⟩ := List.getElem_of_mem hmem
  exact absurd ((hfirst (i + 1) (Nat.succ_lt_succ hi)).1 hbyte) (Nat.succ_ne_zero i)

/-- **The bytes of a character** are told from what follows them. -/
theorem utf8EncodeChar_append_inj {c d : Char} {rest rest' : List UInt8}
    (h : String.utf8EncodeChar c ++ rest = String.utf8EncodeChar d ++ rest') :
    c = d ∧ rest = rest' := by
  have hdecode : some c = some d := by
    rw [← ByteArray.utf8DecodeChar?_utf8EncodeChar_append (b := rest.toByteArray),
      ← ByteArray.utf8DecodeChar?_utf8EncodeChar_append (b := rest'.toByteArray),
      ← List.toByteArray_append, ← List.toByteArray_append, h]
  obtain rfl := Option.some.inj hdecode
  exact ⟨rfl, List.append_cancel_left h⟩

/-- A text whose bytes start with those of a character starts with the character. -/
theorem exists_eq_cons_of_bytesOf_eq {cs : List Char} {c : Char} {rest : List UInt8}
    (h : bytesOf cs = String.utf8EncodeChar c ++ rest) :
    ∃ ds, cs = c :: ds ∧ rest = bytesOf ds := by
  cases cs with
  | nil => exact absurd (List.append_eq_nil_iff.1 h.symm).1 String.utf8EncodeChar_ne_nil
  | cons d ds =>
    obtain ⟨rfl, rfl⟩ := utf8EncodeChar_append_inj ((bytesOf_cons d ds).symm.trans h)
    exact ⟨ds, rfl, rfl⟩

namespace Glob

/-- Patterns that follow each other match names that follow each other. -/
theorem Matches.append {p q n m : List UInt8} (h : Matches p n) (h' : Matches q m) :
    Matches (p ++ q) (n ++ m) := by
  induction h with
  | nil => exact h'
  | star skipped _ ih => exact List.append_assoc skipped _ m ▸ .star skipped ih
  | any byte _ ih => exact .any byte ih
  | byte byte ne_star _ ih => exact .byte byte ne_star ih

/-- Whatever its bytes are, a name matches itself. -/
theorem Matches.self (name : List UInt8) : Matches name name := by
  induction name with
  | nil => exact .nil
  | cons byte name ih =>
    by_cases hstar : byte = Glob.star
    · exact hstar ▸ .star [Glob.star] ih
    · exact .byte byte hstar ih

/-- As many question marks as there are bytes match them. -/
theorem Matches.replicate_anyByte (name : List UInt8) :
    Matches (List.replicate name.length anyByte) name := by
  induction name with
  | nil => exact .nil
  | cons byte name ih => exact .any byte ih

/-- Without stars a pattern matches only names of its own length. -/
theorem Matches.length_eq {pattern name : List UInt8} (hstar : Glob.star ∉ pattern)
    (h : Matches pattern name) : name.length = pattern.length := by
  obtain ⟨taken, rest, rfl, hlength, hrest⟩ :=
    Matches.exists_drop hstar ((List.append_nil pattern).symm ▸ h)
  rw [matches_nil_iff.1 hrest, List.append_nil, hlength]

end Glob

/-! ## Lower case -/

namespace Lowercase

theorem shiftOf_eq (rs : List Run) (n : Nat) :
    shiftOf rs n = 0 ∨ ∃ r ∈ rs, r.first ≤ n ∧ n ≤ r.last ∧ shiftOf rs n = r.shift := by
  induction rs with
  | nil => exact .inl rfl
  | cons r rs ih =>
    rw [shiftOf]
    split
    next => exact .inl rfl
    next hfirst =>
      split
      next hlast => exact .inr ⟨r, List.mem_cons_self, Nat.le_of_not_lt hfirst, hlast.1, rfl⟩
      next =>
        exact ih.imp_right fun ⟨other, hmem, hother⟩ =>
          ⟨other, List.mem_cons_of_mem r hmem, hother⟩

/-- A star is written by its own code point only. -/
theorem eq_of_star_eq_ofNat {n : Nat} (h : '*' = Char.ofNat n) : n = 42 := by
  by_cases hvalid : n.isValidChar
  · have hcode : (Char.ofNat n).toNat = n := by
      rw [Char.ofNat, dif_pos hvalid]
      rfl
    rw [← hcode, ← h]
    rfl
  · rw [Char.ofNat.eq_1 n, dif_neg hvalid] at h
    exact absurd h (by decide)

/-- **No lower case is a star** but that of a star itself. -/
theorem eq_star_of_mem_ofChar {c : Char} (h : '*' ∈ ofChar c) : c = '*' := by
  unfold ofChar at h
  split at h
  next hascii =>
    have hall : ∀ n < 128, '*' ∈ [(Char.ofNat n).toLower] → Char.ofNat n = '*' := by decide +kernel
    have hc := hall c.toNat hascii
    rw [Char.ofNat_toNat] at hc
    exact hc h
  next =>
    split at h
    next => exact absurd h (by decide)
    next =>
      have hcode := eq_of_star_eq_ofNat (List.mem_singleton.1 h)
      have hshift : ∀ r ∈ runs, 42 < r.first + r.shift := by decide +kernel
      rcases shiftOf_eq runs c.toNat with hnone | ⟨r, hr, hfirst, -, hrun⟩
      · exact Char.toNat_inj.1 (by rw [hnone] at hcode; simpa using hcode)
      · have := hshift r hr
        omega

/-- The capital sigma, whose lower case depends on the word that it stands in. -/
def capitalSigma : Char := Char.ofNat 0x3A3

theorem toNat_eq_capitalSigma_iff {c : Char} : c.toNat = 0x3A3 ↔ c = capitalSigma := by
  constructor
  · intro h
    exact Char.toNat_inj.1 (h.trans (by decide))
  · rintro rfl
    decide

theorem meetsCased_cons (c : Char) (cs : List Char) :
    meetsCased (c :: cs) = if isCaseIgnorable c then meetsCased cs else isCased c := by
  unfold meetsCased
  by_cases hc : isCaseIgnorable c = true
  · rw [List.dropWhile_cons_of_pos hc, if_pos hc]
  · rw [List.dropWhile_cons_of_neg hc, if_neg hc]
    rfl

/-- **A character** has a lower case of its own. It is another one for a capital sigma that ends a
word, and takes as many bytes even then. -/
theorem exists_ofListAfter_cons (before : List Char) (c : Char) (cs : List Char) :
    ∃ folded, ofListAfter before (c :: cs) = folded ++ ofListAfter (c :: before) cs ∧
      byteLength folded = byteLength (ofChar c) ∧
      (c ≠ capitalSigma → folded = ofChar c) ∧
      (c = capitalSigma → folded =
        [Char.ofNat (if meetsCased before && !meetsCased cs then 0x3C2 else 0x3C3)]) := by
  refine ⟨_, rfl, ?_, ?_, ?_⟩
  · split
    next hsigma =>
      rw [toNat_eq_capitalSigma_iff.1 hsigma]
      split <;> decide
    next => rfl
  · intro hne
    rw [if_neg (fun h => hne (toNat_eq_capitalSigma_iff.1 h))]
  · intro heq
    rw [if_pos (toNat_eq_capitalSigma_iff.2 heq)]

/-- How many bytes the lower case of characters takes. -/
def foldedLength (cs : List Char) : Nat := byteLength (cs.flatMap ofChar)

theorem foldedLength_cons (c : Char) (cs : List Char) :
    foldedLength (c :: cs) = byteLength (ofChar c) + foldedLength cs := by
  rw [foldedLength, List.flatMap_cons, byteLength_append, foldedLength]

/-- The lower case of the end of a text is the end of its lower case. -/
theorem exists_ofListAfter_append (before cs ds : List Char) :
    ∃ folded, ofListAfter before (cs ++ ds) = folded ++ ofListAfter (cs.reverse ++ before) ds ∧
      byteLength folded = foldedLength cs := by
  induction cs generalizing before with
  | nil => exact ⟨[], rfl, rfl⟩
  | cons c cs ih =>
    obtain ⟨first, hfirst, hfirstLength, -⟩ := exists_ofListAfter_cons before c (cs ++ ds)
    obtain ⟨folded, hfolded, hlength⟩ := ih (c :: before)
    refine ⟨first ++ folded, ?_, ?_⟩
    · rw [List.cons_append, hfirst, hfolded, List.append_assoc, List.reverse_cons,
        List.append_assoc]
      rfl
    · rw [byteLength_append, hfirstLength, hlength, foldedLength_cons]

theorem byteLength_ofListAfter (before cs : List Char) :
    byteLength (ofListAfter before cs) = foldedLength cs := by
  obtain ⟨folded, hfolded, hlength⟩ := exists_ofListAfter_append before cs []
  rw [List.append_nil] at hfolded
  rw [hfolded, ofListAfter, List.append_nil, hlength]

/-- No lower case has a star unless the text has one. -/
theorem star_mem_of_mem_ofListAfter {before cs : List Char} (h : '*' ∈ ofListAfter before cs) :
    '*' ∈ cs := by
  induction cs generalizing before with
  | nil => cases h
  | cons c cs ih =>
    obtain ⟨folded, hfolded, -, hplain, hsigma⟩ := exists_ofListAfter_cons before c cs
    rw [hfolded] at h
    rcases List.mem_append.1 h with h | h
    · by_cases hc : c = capitalSigma
      · have hnot : '*' ∉ folded := by
          rw [hsigma hc]
          split <;> decide
        exact absurd h hnot
      · rw [hplain hc] at h
        exact eq_star_of_mem_ofChar h ▸ List.mem_cons_self
    · exact List.mem_cons_of_mem c (ih h)

/-- A name that lower-casing changes byte by byte: each character keeps its size, and no capital
sigma stands behind a letter with case, where its lower case depends on what comes next. -/
structure FoldsInPlace (name : List Char) : Prop where
  keepsSize : ∀ c ∈ name, byteLength (ofChar c) = c.utf8Size
  noSigmaInWord : ∀ before after, name = before ++ capitalSigma :: after →
    meetsCased before.reverse = false

/-- A character that is no capital sigma behind a letter with case is put into its own lower
case. -/
theorem ofListAfter_cons {before : List Char} {c : Char}
    (h : c = capitalSigma → meetsCased before = false) (cs : List Char) :
    ofListAfter before (c :: cs) = ofChar c ++ ofListAfter (c :: before) cs := by
  obtain ⟨folded, hfolded, -, hplain, hsigma⟩ := exists_ofListAfter_cons before c cs
  rw [hfolded]
  by_cases hc : c = capitalSigma
  · rw [hsigma hc, h hc, Bool.false_and, if_neg (by decide), hc]
    rfl
  · rw [hplain hc]

/-- The lower case of such a name is that of its characters. -/
theorem FoldsInPlace.ofList_eq {name : List Char} (h : FoldsInPlace name) :
    ofList name = name.flatMap ofChar := by
  have hafter : ∀ cs before : List Char, before.reverse ++ cs = name →
      ofListAfter before cs = cs.flatMap ofChar := by
    intro cs
    induction cs with
    | nil => exact fun _ _ => rfl
    | cons c cs ih =>
      intro before hname
      rw [ofListAfter_cons ?_ cs, List.flatMap_cons, ih (c :: before)]
      · rw [List.reverse_cons, List.append_assoc]
        exact hname
      · rintro rfl
        have hcased := h.noSigmaInWord before.reverse cs hname.symm
        rwa [List.reverse_reverse] at hcased
  exact hafter name [] rfl

/-- A wildcard has no case, and nothing before it counts for what stands after it. -/
theorem ofListAfter_wildcard {c : Char} (hc : c = '*' ∨ c = '?') (before cs : List Char) :
    ofListAfter before (c :: cs) = c :: ofListAfter (c :: before) cs := by
  rw [ofListAfter]
  rcases hc with rfl | rfl <;> rfl

theorem meetsCased_wildcard {c : Char} (hc : c = '*' ∨ c = '?') (before : List Char) :
    meetsCased (c :: before) = false := by
  rw [meetsCased_cons]
  rcases hc with rfl | rfl <;> rfl

/-! ## A name and its lower case side by side -/

/-- The same place in a name and in its lower case: as many bytes before the same character, none of
which starts one. -/
def SamePlace (rest : List Char) (left left' : List UInt8) : Prop :=
  ∃ inner inner', left = inner ++ bytesOf rest ∧ left' = inner' ++ bytesOf (rest.flatMap ofChar) ∧
    inner.length = inner'.length ∧ ∀ byte ∈ inner, ¬byte.IsUTF8FirstByte

theorem samePlace_bytesOf (rest : List Char) :
    SamePlace rest (bytesOf rest) (bytesOf (rest.flatMap ofChar)) :=
  ⟨[], [], rfl, rfl, rfl, fun _ h => absurd h List.not_mem_nil⟩

/-- Where a character follows, it is the next one of the name. -/
theorem SamePlace.of_utf8EncodeChar {c : Char} {rest : List Char} {left left' : List UInt8}
    (h : SamePlace rest (String.utf8EncodeChar c ++ left) left') :
    ∃ later, rest = c :: later ∧ left = bytesOf later ∧ left' = bytesOf (rest.flatMap ofChar) := by
  obtain ⟨inner, inner', hinner, rfl, hlength, hlater⟩ := h
  cases inner with
  | nil =>
    obtain ⟨later, rfl, rfl⟩ := exists_eq_cons_of_bytesOf_eq hinner.symm
    obtain rfl := List.length_eq_zero_iff.1 hlength.symm
    exact ⟨later, rfl, rfl, rfl⟩
  | cons byte inner =>
    obtain ⟨first, behind, hbytes, hfirst, -⟩ := exists_utf8EncodeChar_eq_cons c
    rw [hbytes, List.cons_append, List.cons_append, List.cons.injEq] at hinner
    exact absurd (hinner.1 ▸ hfirst) (hlater byte List.mem_cons_self)

/-- Further on inside the same character. -/
theorem samePlace_skip_inner (rest : List Char) {skipped inner inner' : List UInt8}
    (hlength : (skipped ++ inner).length = inner'.length)
    (hlater : ∀ byte ∈ skipped ++ inner, ¬byte.IsUTF8FirstByte) :
    ∃ skipped' left' later,
      inner' ++ bytesOf (rest.flatMap ofChar) = skipped' ++ left' ∧
      skipped'.length = skipped.length ∧ later <:+ rest ∧
      SamePlace later (inner ++ bytesOf rest) left' := by
  rw [List.length_append] at hlength
  refine ⟨inner'.take skipped.length, inner'.drop skipped.length ++ bytesOf (rest.flatMap ofChar),
    rest, ?_, ?_, List.suffix_refl rest, inner, _, rfl, rfl, ?_, fun byte hmem => ?_⟩
  · rw [← List.append_assoc, List.take_append_drop]
  · rw [List.length_take, ← hlength]
    omega
  · rw [List.length_drop, ← hlength]
    omega
  · exact hlater byte (List.mem_append_right skipped hmem)

/-- **As many bytes further on** the places are the same again. -/
theorem SamePlace.skip {rest : List Char} (hsize : ∀ c ∈ rest, byteLength (ofChar c) = c.utf8Size)
    {skipped left whole' : List UInt8} (h : SamePlace rest (skipped ++ left) whole') :
    ∃ skipped' left' later, whole' = skipped' ++ left' ∧ skipped'.length = skipped.length ∧
      later <:+ rest ∧ SamePlace later left left' := by
  induction rest generalizing skipped whole' with
  | nil =>
    obtain ⟨inner, inner', hinner, rfl, hlength, hlater⟩ := h
    rw [bytesOf_nil, List.append_nil] at hinner
    subst hinner
    have hskip := samePlace_skip_inner [] hlength hlater
    rwa [bytesOf_nil, List.append_nil] at hskip
  | cons c rest ih =>
    obtain ⟨inner, inner', hinner, rfl, hlength, hlater⟩ := h
    rcases List.append_eq_append_iff.1 hinner with ⟨more, rfl, rfl⟩ | ⟨more, rfl, hmore⟩
    · exact samePlace_skip_inner (c :: rest) hlength hlater
    · cases more with
      | nil =>
        rw [List.nil_append] at hmore
        rw [← List.append_nil inner] at hlength hlater
        subst hmore
        have hskip := samePlace_skip_inner (c :: rest) hlength hlater
        rwa [List.nil_append, ← List.append_nil inner] at hskip
      | cons first more =>
        -- the character is begun: what is left of it stands before the rest of the name
        obtain ⟨hc, hrest⟩ := List.forall_mem_cons.1 hsize
        obtain ⟨first', behind, hbytes, -, hbehind⟩ := exists_utf8EncodeChar_eq_cons c
        rw [bytesOf_cons, hbytes, List.cons_append, List.cons_append, List.cons.injEq] at hmore
        have hsize : (bytesOf (ofChar c)).length = behind.length + 1 := by
          rw [length_bytesOf, hc, ← String.length_utf8EncodeChar, hbytes, List.length_cons]
        obtain ⟨opening, behind', hfolded⟩ := List.exists_cons_of_length_eq_add_one hsize
        rw [hfolded, List.length_cons, Nat.add_right_cancel_iff] at hsize
        have hsame : SamePlace rest (more ++ left) (behind' ++ bytesOf (rest.flatMap ofChar)) :=
          ⟨behind, behind', hmore.2.symm, rfl, hsize.symm, hbehind⟩
        obtain ⟨skipped', left', later, hwhole, hskipped, hsuffix, hplace⟩ := ih hrest hsame
        refine ⟨inner' ++ opening :: skipped', left', later, ?_, ?_,
          hsuffix.trans (List.suffix_cons c rest), hplace⟩
        · simp [hfolded, hwhole]
        · simp [hlength, hskipped]

variable {name : List Char}

/-- A letter with case that a pattern shows stands in the name as well, as long as the pattern shows
all that is passed. -/
theorem meetsCased_concat {before passed : List Char} {c : Char}
    (h : meetsCased before = true → meetsCased passed.reverse = true)
    (hc : meetsCased (c :: before) = true) : meetsCased (passed ++ [c]).reverse = true := by
  rw [List.reverse_append, List.reverse_singleton, List.singleton_append]
  rw [meetsCased_cons] at hc ⊢
  split at hc
  next hignorable =>
    rw [if_pos hignorable]
    exact h hc
  next hignorable =>
    rw [if_neg hignorable]
    exact hc

/-- **A pattern goes on matching** in lower case from the same place on. A sigma of the pattern
stands for one of the name, so it is behind no letter with case either; this is why the place is
followed as long as what was read of the pattern ends in such a letter. -/
theorem FoldsInPlace.matches_ofListAfter (hname : FoldsInPlace name)
    {pattern before passed rest : List Char} {left left' : List UInt8}
    (hrest : passed ++ rest = name) (hplace : SamePlace rest left left')
    (hbefore : meetsCased before = true →
      left = bytesOf rest ∧ meetsCased passed.reverse = true)
    (h : Glob.Matches (bytesOf pattern) left) :
    Glob.Matches (bytesOf (ofListAfter before pattern)) left' := by
  induction pattern generalizing before passed rest left left' with
  | nil =>
    obtain rfl := Glob.matches_nil_iff.1 h
    obtain ⟨inner, inner', hinner, rfl, hlength, -⟩ := hplace
    obtain ⟨rfl, hnil⟩ := List.append_eq_nil_iff.1 hinner.symm
    obtain rfl := bytesOf_eq_nil_iff.1 hnil
    obtain rfl := List.length_eq_zero_iff.1 hlength.symm
    exact .nil
  | cons c pattern ih =>
    have hsizes : ∀ d ∈ rest, byteLength (ofChar d) = d.utf8Size :=
      fun d hd => hname.keepsSize d (hrest ▸ List.mem_append_right passed hd)
    rw [bytesOf_cons] at h
    by_cases hwild : c = '*' ∨ c = '?'
    · -- what was read ends in no letter with case, so any place further on will do
      have hcontinue : ∀ {later behind behind'}, later <:+ rest → SamePlace later behind behind' →
          Glob.Matches (bytesOf pattern) behind →
          Glob.Matches (bytesOf (ofListAfter (c :: before) pattern)) behind' := by
        rintro later behind behind' ⟨mid, hmid⟩ hbehind hmatch
        have hlater : (passed ++ mid) ++ later = name := by rw [List.append_assoc, hmid, hrest]
        refine ih hlater hbehind (fun hcased => ?_) hmatch
        rw [meetsCased_wildcard hwild] at hcased
        cases hcased
      rw [ofListAfter_wildcard hwild, bytesOf_cons]
      rcases hwild with rfl | rfl
      · obtain ⟨skipped, behind, rfl, hmatch⟩ := Glob.matches_star_iff.1 h
        obtain ⟨skipped', behind', later, rfl, -, hlater, hbehind⟩ := hplace.skip hsizes
        exact .star skipped' (hcontinue hlater hbehind hmatch)
      · obtain ⟨byte, behind, rfl⟩ : ∃ byte behind, left = byte :: behind := by
          refine List.exists_cons_of_ne_nil fun hnil => ?_
          exact absurd (Glob.matches_cons_nil_iff.1 (hnil ▸ h)).1 (by decide)
        have hmatch := ((Glob.matches_cons_cons_iff (by decide)).1 h).2
        have hplace : SamePlace rest ([byte] ++ behind) left' := hplace
        obtain ⟨skipped', behind', later, rfl, hlength, hlater, hbehind⟩ := hplace.skip hsizes
        obtain ⟨byte', rfl⟩ := List.length_eq_one_iff.1 hlength
        exact .any byte' (hcontinue hlater hbehind hmatch)
    · rw [not_or] at hwild
      obtain ⟨behind, rfl, hmatch⟩ := (Glob.matches_append_iff fun byte hbyte =>
        ⟨ne_star_of_mem_utf8EncodeChar hwild.1 hbyte,
          ne_anyByte_of_mem_utf8EncodeChar hwild.2 hbyte⟩).1 h
      obtain ⟨later, rfl, rfl, rfl⟩ := hplace.of_utf8EncodeChar
      have hsigma : c = capitalSigma → meetsCased before = false := by
        rintro rfl
        by_contra hcased
        have hpassed := (hbefore (Bool.not_eq_false _ ▸ hcased)).2
        rw [hname.noSigmaInWord passed later hrest.symm] at hpassed
        cases hpassed
      have hlater : (passed ++ [c]) ++ later = name := by
        rw [List.append_assoc, List.singleton_append, hrest]
      rw [ofListAfter_cons hsigma, List.flatMap_cons, bytesOf_append, bytesOf_append]
      refine (Glob.Matches.self _).append (ih hlater (samePlace_bytesOf later) (fun hcased => ?_)
        hmatch)
      exact ⟨rfl, meetsCased_concat (fun hcased => (hbefore hcased).2) hcased⟩

/-! ## Patterns that lose their match -/

theorem foldedLength_append (cs ds : List Char) :
    foldedLength (cs ++ ds) = foldedLength cs + foldedLength ds := by
  rw [foldedLength, List.flatMap_append, byteLength_append, foldedLength, foldedLength]

theorem foldedLength_eq_byteLength {cs : List Char}
    (h : ∀ c ∈ cs, byteLength (ofChar c) = c.utf8Size) : foldedLength cs = byteLength cs := by
  induction cs with
  | nil => rfl
  | cons c cs ih =>
    obtain ⟨hc, hcs⟩ := List.forall_mem_cons.1 h
    rw [byteLength_cons, ← ih hcs, ← hc, foldedLength_cons]

/-- Question marks for so many bytes. -/
def questions (n : Nat) : List Char := List.replicate n '?'

theorem bytesOf_questions (n : Nat) : bytesOf (questions n) = List.replicate n Glob.anyByte := by
  induction n with
  | zero => rfl
  | succ n ih =>
    rw [questions, List.replicate_succ, bytesOf_cons, ← questions, ih, List.replicate_succ]
    rfl

theorem matches_questions (cs : List Char) :
    Glob.Matches (bytesOf (questions (byteLength cs))) (bytesOf cs) := by
  rw [bytesOf_questions, ← length_bytesOf]
  exact .replicate_anyByte _

theorem foldedLength_questions (n : Nat) : foldedLength (questions n) = n := by
  induction n with
  | zero => rfl
  | succ n ih =>
    rw [questions, List.replicate_succ, ← List.singleton_append, foldedLength_append, ← questions,
      ih, Nat.add_comm]
    rfl

theorem meetsCased_questions (n : Nat) : meetsCased (questions n) = false := by
  cases n with
  | zero => rfl
  | succ n => exact meetsCased_wildcard (.inr rfl) _

theorem reverse_questions (n : Nat) : (questions n).reverse = questions n := List.reverse_replicate

theorem star_not_mem_questions (n : Nat) : '*' ∉ questions n := by
  intro h
  exact absurd (List.eq_of_mem_replicate h) (by decide)

theorem star_not_mem_bytesOf {cs : List Char} (h : '*' ∉ cs) : Glob.star ∉ bytesOf cs := by
  intro hmem
  obtain ⟨c, hc, hbyte⟩ := List.mem_flatMap.1 hmem
  exact ne_star_of_mem_utf8EncodeChar (fun heq => h (heq ▸ hc)) hbyte rfl

/-- The text with question marks for its stars. -/
def withoutStars (cs : List Char) : List Char := cs.map fun c => if c = '*' then '?' else c

theorem star_not_mem_withoutStars (cs : List Char) : '*' ∉ withoutStars cs := by
  intro h
  obtain ⟨c, -, hc⟩ := List.mem_map.1 h
  split at hc
  next => exact absurd hc (by decide)
  next hne => exact hne hc

theorem foldedLength_withoutStars (cs : List Char) :
    foldedLength (withoutStars cs) = foldedLength cs := by
  induction cs with
  | nil => rfl
  | cons c cs ih =>
    rw [withoutStars, List.map_cons, foldedLength_cons, foldedLength_cons, ← ih, withoutStars]
    congr 1
    split
    next heq => exact heq ▸ rfl
    next => rfl

theorem matches_withoutStars (cs : List Char) :
    Glob.Matches (bytesOf (withoutStars cs)) (bytesOf cs) := by
  induction cs with
  | nil => exact .nil
  | cons c cs ih =>
    rw [withoutStars, List.map_cons, bytesOf_cons, bytesOf_cons, ← withoutStars]
    refine Glob.Matches.append ?_ ih
    split
    next heq => exact heq ▸ .any Glob.star .nil
    next => exact .self _

/-- **A character that changes its size** is the loss of a pattern with question marks in its
place. -/
theorem keepsSize_of_keepsMatches
    (h : ∀ pattern, Glob.Matches (bytesOf pattern) (bytesOf name) →
      Glob.Matches (bytesOf (ofList pattern)) (bytesOf (ofList name))) :
    ∀ c ∈ name, byteLength (ofChar c) = c.utf8Size := by
  intro c hc
  obtain ⟨before, after, rfl⟩ := List.append_of_mem hc
  have hmatch := h (withoutStars before ++ (questions c.utf8Size ++ withoutStars after)) (by
    rw [bytesOf_append, bytesOf_append, bytesOf_append, bytesOf_cons]
    refine (matches_withoutStars before).append (.append ?_ (matches_withoutStars after))
    simpa using matches_questions [c])
  have hstar :
      '*' ∉ ofList (withoutStars before ++ (questions c.utf8Size ++ withoutStars after)) := by
    intro hmem
    have := star_mem_of_mem_ofListAfter hmem
    simp [star_not_mem_withoutStars, star_not_mem_questions] at this
  have hlength := hmatch.length_eq (star_not_mem_bytesOf hstar)
  rw [length_bytesOf, length_bytesOf, ofList, ofList, byteLength_ofListAfter,
    byteLength_ofListAfter, ← List.singleton_append] at hlength
  simp only [foldedLength_append, foldedLength_withoutStars, foldedLength_questions] at hlength
  have hsingle : foldedLength [c] = byteLength (ofChar c) := foldedLength_cons c []
  omega

/-- The lower case of a capital sigma, by whether it ends a word. -/
def sigmaFor (final : Bool) : Char := Char.ofNat (if final then 0x3C2 else 0x3C3)

theorem sigmaFor_ne (final : Bool) : sigmaFor final ≠ '*' ∧ sigmaFor final ≠ '?' := by
  cases final <;> decide

theorem sigmaFor_inj {final final' : Bool} (h : sigmaFor final = sigmaFor final') :
    final = final' := by
  revert h
  cases final <;> cases final' <;> decide

/-- What stands around a capital sigma decides its lower case. -/
theorem exists_ofList_sigma (before after : List Char) :
    ∃ folded behind, ofList (before ++ capitalSigma :: after) =
        folded ++ sigmaFor (meetsCased before.reverse && !meetsCased after) :: behind ∧
      byteLength folded = foldedLength before := by
  obtain ⟨folded, hfolded, hlength⟩ := exists_ofListAfter_append [] before (capitalSigma :: after)
  obtain ⟨first, hfirst, -, -, hsigma⟩ :=
    exists_ofListAfter_cons (before.reverse ++ []) capitalSigma after
  refine ⟨folded, ofListAfter (capitalSigma :: (before.reverse ++ [])) after, ?_, hlength⟩
  rw [ofList, hfolded, hfirst, hsigma rfl, List.append_nil, List.singleton_append]
  rfl

/-- **A capital sigma** that ends a word in the name and none in the pattern, or the other way
round, takes different bytes. -/
theorem not_matches_of_sigma {opening before after after' : List Char}
    (hstar : '*' ∉ opening ++ capitalSigma :: after)
    (hlength : foldedLength opening = foldedLength before)
    (hne : (meetsCased opening.reverse && !meetsCased after) ≠
      (meetsCased before.reverse && !meetsCased after')) :
    ¬Glob.Matches (bytesOf (ofList (opening ++ capitalSigma :: after)))
      (bytesOf (ofList (before ++ capitalSigma :: after'))) := by
  intro h
  have hplain : '*' ∉ ofList (opening ++ capitalSigma :: after) :=
    fun hmem => hstar (star_mem_of_mem_ofListAfter hmem)
  obtain ⟨folded, behind, hfolded, hfoldedLength⟩ := exists_ofList_sigma opening after
  obtain ⟨folded', behind', hfolded', hfoldedLength'⟩ := exists_ofList_sigma before after'
  rw [hfolded] at h hplain
  rw [hfolded', bytesOf_append, bytesOf_append, bytesOf_cons, bytesOf_cons] at h
  simp only [List.mem_append, List.mem_cons, not_or] at hplain
  obtain ⟨taken, rest, htaken, htakenLength, hrest⟩ :=
    h.exists_drop (star_not_mem_bytesOf hplain.1)
  -- both sigmas stand behind equally many bytes
  have hsame : (bytesOf folded').length = taken.length := by
    rw [htakenLength, length_bytesOf, length_bytesOf, hfoldedLength, hfoldedLength', hlength]
  obtain ⟨-, rfl⟩ := List.append_inj htaken hsame
  obtain ⟨more, hmore, -⟩ := (Glob.matches_append_iff fun byte hbyte =>
    ⟨ne_star_of_mem_utf8EncodeChar (sigmaFor_ne _).1 hbyte,
      ne_anyByte_of_mem_utf8EncodeChar (sigmaFor_ne _).2 hbyte⟩).1 hrest
  exact hne (sigmaFor_inj (utf8EncodeChar_append_inj hmore).1.symm)

/-- A word before which nothing counts, at the start of what meets a letter with case. -/
theorem exists_word_of_meetsCased {cs : List Char} (h : meetsCased cs = true) :
    ∃ word rest, cs = word ++ rest ∧ '*' ∉ word ∧ ∀ others, meetsCased (word ++ others) = true := by
  induction cs with
  | nil => cases h
  | cons c cs ih =>
    rw [meetsCased_cons] at h
    split at h
    next hignorable =>
      obtain ⟨word, rest, rfl, hstar, hword⟩ := ih h
      refine ⟨c :: word, rest, rfl, ?_, fun others => ?_⟩
      · rw [List.mem_cons, not_or]
        exact ⟨fun heq => absurd (heq ▸ hignorable) (by decide), hstar⟩
      · rw [List.cons_append, meetsCased_cons, if_pos hignorable]
        exact hword others
    next hignorable =>
      refine ⟨[c], cs, rfl, ?_, fun others => ?_⟩
      · rw [List.mem_singleton]
        exact fun heq => absurd (heq ▸ h) (by decide)
      · rw [List.singleton_append, meetsCased_cons, if_neg hignorable]
        exact h

/-- **A capital sigma behind a letter with case** is the loss of a pattern that has question marks
for what stands after it: if the sigma ends a word, for what stands before it too. -/
theorem noSigmaInWord_of_keepsMatches
    (h : ∀ pattern, Glob.Matches (bytesOf pattern) (bytesOf name) →
      Glob.Matches (bytesOf (ofList pattern)) (bytesOf (ofList name)))
    (before after : List Char) (hname : name = before ++ capitalSigma :: after) :
    meetsCased before.reverse = false := by
  by_contra hcased
  rw [Bool.not_eq_false] at hcased
  have hsize := keepsSize_of_keepsMatches h
  subst hname
  cases hafter : meetsCased after with
  | false =>
    have hmatch : Glob.Matches
        (bytesOf (questions (byteLength before) ++ capitalSigma :: questions (byteLength after)))
        (bytesOf (before ++ capitalSigma :: after)) := by
      simp only [bytesOf_append, bytesOf_cons]
      exact (matches_questions before).append (.append (.self _) (matches_questions after))
    refine not_matches_of_sigma ?_ ?_ ?_ (h _ hmatch)
    · simp [star_not_mem_questions, show '*' ≠ capitalSigma by decide]
    · rw [foldedLength_questions,
        foldedLength_eq_byteLength fun c hc => hsize c (List.mem_append_left _ hc)]
    · simp [reverse_questions, meetsCased_questions, hcased, hafter]
  | true =>
    obtain ⟨word, rest, hrest, hstar, hword⟩ := exists_word_of_meetsCased hcased
    obtain rfl : before = rest.reverse ++ word.reverse := by
      rw [← List.reverse_append, ← hrest, List.reverse_reverse]
    have hmatch : Glob.Matches
        (bytesOf (questions (byteLength rest.reverse) ++ word.reverse ++
          capitalSigma :: questions (byteLength after)))
        (bytesOf (rest.reverse ++ word.reverse ++ capitalSigma :: after)) := by
      simp only [bytesOf_append, bytesOf_cons]
      exact ((matches_questions _).append (.self _)).append
        (.append (.self _) (matches_questions after))
    have hrestLength : foldedLength rest.reverse = byteLength rest.reverse :=
      foldedLength_eq_byteLength fun c hc =>
        hsize c (List.mem_append_left _ (List.mem_append_left _ hc))
    refine not_matches_of_sigma ?_ ?_ ?_ (h _ hmatch)
    · simp [star_not_mem_questions, hstar, show '*' ≠ capitalSigma by decide]
    · rw [foldedLength_append, foldedLength_append, foldedLength_questions, hrestLength]
    · simp [reverse_questions, meetsCased_questions, hword, hafter]

end Lowercase

open Lowercase in
/-- **Matching without regard to case** loses no match of a name iff lower-casing changes the name
byte by byte. -/
theorem NamePattern.keepsMatches_iff_foldsInPlace (name : String) :
    (∀ text, (⟨text, true⟩ : NamePattern).matches? name = true →
      (⟨text, false⟩ : NamePattern).matches? name = true) ↔ FoldsInPlace name.toList := by
  have hsensitive : ∀ text, (⟨text, true⟩ : NamePattern).matches? name = true ↔
      Glob.Matches (bytesOf text.toList) (bytesOf name.toList) := fun text => Glob.isMatch_iff
  have hinsensitive : ∀ text, (⟨text, false⟩ : NamePattern).matches? name = true ↔
      Glob.Matches (bytesOf (ofList text.toList)) (bytesOf (ofList name.toList)) := by
    intro text
    rw [matches?, Glob.isMatch_iff]
    simp only [bytes, Bool.false_eq_true, if_false, String.toList_ofList]
    rfl
  simp only [hsensitive, hinsensitive]
  constructor
  · intro h
    have hkeeps : ∀ pattern, Glob.Matches (bytesOf pattern) (bytesOf name.toList) →
        Glob.Matches (bytesOf (ofList pattern)) (bytesOf (ofList name.toList)) := by
      intro pattern hmatch
      have := h (String.ofList pattern)
      rw [String.toList_ofList] at this
      exact this hmatch
    exact ⟨keepsSize_of_keepsMatches hkeeps, noSigmaInWord_of_keepsMatches hkeeps⟩
  · intro h text hmatch
    rw [h.ofList_eq]
    exact h.matches_ofListAfter (List.nil_append _) (samePlace_bytesOf _)
      (fun hcased => absurd hcased (by decide)) hmatch

example : (⟨"??", true⟩ : NamePattern).matches? "\u023a" = true ∧
    (⟨"??", false⟩ : NamePattern).matches? "\u023a" = false := by decide +kernel

end SourceSearch
