import Mathlib.Data.List.DropRight
import SourceSearch.Text.Range

/-!
# Lines and columns of offsets

The table of line starts is made from the characters of a text, but offsets count bytes and may lie
inside a character. Since no character but the newline has the newline's byte in its UTF-8 form, the
table lists the offsets just behind these bytes (`tail_ofText`). It is ascending, and what it has up
to an offset is the table of the bytes before it (`takeWhile_afterNewlineBytes`). So the line of an
offset is the number of newlines before it, and the column is the number of bytes since the last of
them (`lineCol_eq`).

Since the table is ascending, the line of an offset is the last one that starts at it or before it
(`le_iff_le_line`), and offsets and their places are ordered alike (`before_iff_lt`).
-/

set_option autoImplicit false

namespace SourceSearch

/-- A place comes before another one: in an earlier line, or in the same line further left. -/
def LineCol.Before (p q : LineCol) : Prop := p.line < q.line ∨ p.line = q.line ∧ p.col < q.col

theorem LineCol.Before.not_before {p q : LineCol} (h : p.Before q) : ¬ q.Before p := by
  rcases h with h | ⟨h, h'⟩ <;> rintro (h'' | ⟨h'', h'''⟩) <;> omega

theorem LineCol.Before.ne {p q : LineCol} (h : p.Before q) : p ≠ q := by
  rintro rfl
  exact h.not_before h

namespace LineStarts

variable {offset : Nat} {bytes : List UInt8}

/-- The byte that ends a line. -/
def newlineByte : UInt8 := 10

/-- Offsets just behind the newlines among `bytes`, the first of which has offset `offset`. -/
def afterNewlineBytes (offset : Nat) : List UInt8 → List Nat
  | [] => []
  | byte :: bytes =>
    if byte = newlineByte then (offset + 1) :: afterNewlineBytes (offset + 1) bytes
    else afterNewlineBytes (offset + 1) bytes

/-! ## From characters to bytes -/

/-- The byte of the newline is in the UTF-8 form of no other character. -/
theorem newlineByte_notMem {c : Char} (hc : c ≠ '\n') : newlineByte ∉ String.utf8EncodeChar c := by
  -- a byte that stands alone is the number of the character, and each of several is at least 128
  have hbytes : (c.val.toNat ≤ 127 ∧ String.utf8EncodeChar c = [UInt8.ofNat c.val.toNat]) ∨
      ∀ byte ∈ String.utf8EncodeChar c, 128 ≤ byte.toNat := by
    unfold String.utf8EncodeChar
    dsimp only
    split
    next hle => exact Or.inl ⟨hle, rfl⟩
    next =>
      refine Or.inr ?_
      split
      · simp
        omega
      · split
        · simp
          omega
        · simp
          omega
  intro hmem
  rcases hbytes with ⟨hle, heq⟩ | hall
  · rw [heq, List.mem_singleton] at hmem
    have hval := congrArg UInt8.toNat hmem
    rw [UInt8.toNat_ofNat_of_lt' (Nat.lt_of_le_of_lt hle (by decide))] at hval
    exact hc (Char.toNat_inj.1 hval.symm)
  · exact absurd (hall newlineByte hmem) (by decide)

/-- Bytes without a newline only move what comes after them. -/
theorem afterNewlineBytes_append (h : newlineByte ∉ bytes) (rest : List UInt8) :
    afterNewlineBytes offset (bytes ++ rest) = afterNewlineBytes (offset + bytes.length) rest := by
  induction bytes generalizing offset with
  | nil => rfl
  | cons byte bytes ih =>
    rw [List.mem_cons, not_or] at h
    rw [List.cons_append, afterNewlineBytes, if_neg (Ne.symm h.1), ih h.2, List.length_cons,
      Nat.add_assoc, Nat.add_comm 1]

theorem afterNewlines_eq (offset : Nat) (cs : List Char) :
    afterNewlines offset cs = afterNewlineBytes offset (cs.flatMap String.utf8EncodeChar) := by
  induction cs generalizing offset with
  | nil => rfl
  | cons c cs ih =>
    rw [afterNewlines, List.flatMap_cons]
    split
    next heq =>
      subst heq
      have hbytes : String.utf8EncodeChar '\n' = [newlineByte] := by decide
      rw [hbytes, List.singleton_append, afterNewlineBytes, if_pos rfl, ih]
    next hne =>
      rw [afterNewlineBytes_append (newlineByte_notMem hne), String.length_utf8EncodeChar, ih]

/-- **The table of a text** lists the offsets just behind its newlines. -/
theorem tail_ofText (text : String) :
    (ofText text).tail = afterNewlineBytes 0 text.toByteArray.data.toList := by
  have hbytes : text.toByteArray.data.toList = text.toList.flatMap String.utf8EncodeChar := by
    rw [← String.utf8Encode_toList, List.utf8Encode, List.data_toByteArray]
  rw [hbytes, ← afterNewlines_eq]
  rfl

/-! ## The table of some bytes -/

theorem lt_of_mem_afterNewlineBytes {start : Nat} (h : start ∈ afterNewlineBytes offset bytes) :
    offset < start := by
  induction bytes generalizing offset with
  | nil => cases h
  | cons byte bytes ih =>
    rw [afterNewlineBytes] at h
    split at h
    · rcases List.mem_cons.1 h with rfl | h
      · exact Nat.lt_succ_self offset
      · exact Nat.lt_of_succ_lt (ih h)
    · exact Nat.lt_of_succ_lt (ih h)

/-- The table is ascending. -/
theorem pairwise_afterNewlineBytes (offset : Nat) (bytes : List UInt8) :
    (offset :: afterNewlineBytes offset bytes).Pairwise (· < ·) := by
  refine List.pairwise_cons.2 ⟨fun start => lt_of_mem_afterNewlineBytes, ?_⟩
  induction bytes generalizing offset with
  | nil => exact .nil
  | cons byte bytes ih =>
    rw [afterNewlineBytes]
    split
    · exact List.pairwise_cons.2 ⟨fun start => lt_of_mem_afterNewlineBytes, ih _⟩
    · exact ih _

/-- **What the table has up to an offset** is the table of the bytes before the offset. -/
theorem takeWhile_afterNewlineBytes (offset n : Nat) (bytes : List UInt8) :
    (afterNewlineBytes offset bytes).takeWhile (· ≤ offset + n) =
      afterNewlineBytes offset (bytes.take n) := by
  induction n generalizing offset bytes with
  | zero =>
    rw [List.take_zero, afterNewlineBytes, List.takeWhile_eq_nil_iff]
    intro hpos
    have hlt := lt_of_mem_afterNewlineBytes (List.getElem_mem hpos)
    simpa using hlt
  | succ n ih =>
    cases bytes with
    | nil => rfl
    | cons byte bytes =>
      have hrest := ih (offset + 1) bytes
      rw [Nat.add_right_comm, Nat.add_assoc] at hrest
      rw [List.take_succ_cons, afterNewlineBytes, afterNewlineBytes]
      split
      · rw [List.takeWhile_cons_of_pos (by simp), hrest]
      · exact hrest

theorem length_afterNewlineBytes (offset : Nat) (bytes : List UInt8) :
    (afterNewlineBytes offset bytes).length = bytes.count newlineByte := by
  induction bytes generalizing offset with
  | nil => rfl
  | cons byte bytes ih =>
    rw [afterNewlineBytes]
    split
    next heq => rw [List.length_cons, ih, heq, List.count_cons_self]
    next hne => rw [ih, List.count_cons_of_ne hne]

theorem afterNewlineBytes_concat (offset : Nat) (bytes : List UInt8) (byte : UInt8) :
    afterNewlineBytes offset (bytes ++ [byte]) = afterNewlineBytes offset bytes ++
      if byte = newlineByte then [offset + bytes.length + 1] else [] := by
  induction bytes generalizing offset with
  | nil => simp [afterNewlineBytes]
  | cons first bytes ih =>
    have hlength : offset + 1 + bytes.length + 1 = offset + (first :: bytes).length + 1 := by
      rw [List.length_cons]
      omega
    rw [List.cons_append, afterNewlineBytes, afterNewlineBytes, ih, hlength]
    split <;> rfl

/-- The last line starts as many bytes before the end as there are since the last newline. -/
theorem getLast_afterNewlineBytes (offset : Nat) (bytes : List UInt8) :
    (afterNewlineBytes offset bytes).getLast?.getD offset +
      (bytes.rtakeWhile (· != newlineByte)).length = offset + bytes.length := by
  induction bytes using List.reverseRecOn with
  | nil => simp [afterNewlineBytes]
  | append_singleton bytes byte ih =>
    rw [afterNewlineBytes_concat, List.rtakeWhile_concat]
    by_cases heq : byte = newlineByte
    · simp [heq, Nat.add_assoc]
    · simp [heq]
      omega

/-! ## Lines and columns -/

/-- **The line and the column** of an offset are the number of newlines before it and the number of
bytes since the last of them. -/
theorem lineCol_eq {text : String} (hoffset : offset ≤ text.utf8ByteSize) :
    (ofText text).lineCol offset =
      ⟨(text.toByteArray.data.toList.take offset).count newlineByte,
        ((text.toByteArray.data.toList.take offset).rtakeWhile (· != newlineByte)).length⟩ := by
  have htable := takeWhile_afterNewlineBytes 0 offset text.toByteArray.data.toList
  have hlast := getLast_afterNewlineBytes 0 (text.toByteArray.data.toList.take offset)
  rw [Nat.zero_add] at htable hlast
  have hlength : (text.toByteArray.data.toList.take offset).length = offset := by
    rw [List.length_take]
    exact Nat.min_eq_left hoffset
  rw [hlength] at hlast
  unfold lineCol
  dsimp only
  rw [tail_ofText, htable, length_afterNewlineBytes]
  congr 1
  omega

/-- The place behind the numbers of a list that are not too large holds the last of them. -/
theorem getElem?_length_takeWhile {α : Type} (p : α → Bool) (first : α) (rest : List α) :
    (first :: rest)[(rest.takeWhile p).length]? =
      some ((rest.takeWhile p).getLast?.getD first) := by
  induction rest generalizing first with
  | nil => rfl
  | cons next rest ih =>
    by_cases hnext : p next = true
    · rw [List.takeWhile_cons_of_pos hnext, List.length_cons, List.getElem?_cons_succ, ih,
        List.getLast?_cons, Option.getD_some]
    · rw [List.takeWhile_cons_of_neg hnext]
      rfl

/-- In an ascending list the numbers that are not too large stand first. -/
theorem le_iff_of_getElem? {first : Nat} {rest : List Nat}
    (hsorted : (first :: rest).Pairwise (· < ·)) (hfirst : first ≤ offset) {index start : Nat}
    (hstart : (first :: rest)[index]? = some start) :
    start ≤ offset ↔ index ≤ (rest.takeWhile (· ≤ offset)).length := by
  induction rest generalizing first index with
  | nil =>
    obtain ⟨rfl, rfl⟩ : index = 0 ∧ first = start := by
      simpa [List.getElem?_singleton, ite_eq_iff] using hstart
    simpa using hfirst
  | cons next rest ih =>
    obtain ⟨hbefore, hrest⟩ := List.pairwise_cons.1 hsorted
    cases index with
    | zero =>
      obtain rfl := Option.some.inj hstart
      simpa using hfirst
    | succ index =>
      rw [List.getElem?_cons_succ] at hstart
      by_cases hnext : next ≤ offset
      · rw [ih hrest hnext hstart, List.takeWhile_cons_of_pos (by simpa using hnext),
          List.length_cons, Nat.add_le_add_iff_right]
      · rw [List.takeWhile_cons_of_neg (by simpa using hnext)]
        have hle : next ≤ start := by
          rcases List.mem_cons.1 (List.mem_of_getElem? hstart) with rfl | hmem
          · exact Nat.le_refl _
          · exact Nat.le_of_lt ((List.pairwise_cons.1 hrest).1 start hmem)
        simp
        omega

variable {lines : LineStarts}

/-- **The start of its line and the column** add up to an offset. -/
theorem exists_start (lines : LineStarts) (offset : Nat) :
    ∃ start, lines.toList[(lines.lineCol offset).line]? = some start ∧
      start + (lines.lineCol offset).col = offset := by
  refine ⟨_, getElem?_length_takeWhile (· ≤ offset) 0 lines.tail, Nat.add_sub_of_le ?_⟩
  cases hlast : (lines.tail.takeWhile (· ≤ offset)).getLast? with
  | none => exact Nat.zero_le _
  | some start =>
    have hle := List.mem_takeWhile_imp (List.mem_of_getLast? hlast)
    simpa using hle

/-- **The line of an offset** is the last one that starts at the offset or before it. -/
theorem le_iff_le_line (hsorted : lines.toList.Pairwise (· < ·)) {index start : Nat}
    (hstart : lines.toList[index]? = some start) :
    start ≤ offset ↔ index ≤ (lines.lineCol offset).line :=
  le_iff_of_getElem? hsorted (Nat.zero_le _) hstart

/-- Later offsets have later places. -/
theorem before_of_lt (hsorted : lines.toList.Pairwise (· < ·)) {other : Nat} (h : other < offset) :
    (lines.lineCol other).Before (lines.lineCol offset) := by
  obtain ⟨start, hstart, hsum⟩ := lines.exists_start other
  obtain ⟨start', hstart', hsum'⟩ := lines.exists_start offset
  have hline : (lines.lineCol other).line ≤ (lines.lineCol offset).line :=
    (le_iff_le_line hsorted hstart).1 (by omega)
  rcases Nat.lt_or_eq_of_le hline with hlt | heq
  · exact Or.inl hlt
  · rw [heq, hstart'] at hstart
    obtain rfl := Option.some.inj hstart
    exact Or.inr ⟨heq, by omega⟩

/-- **Offsets and their places** are ordered alike. -/
theorem before_iff_lt (hsorted : lines.toList.Pairwise (· < ·)) {other : Nat} :
    (lines.lineCol other).Before (lines.lineCol offset) ↔ other < offset := by
  refine ⟨fun hbefore => ?_, before_of_lt hsorted⟩
  rcases Nat.lt_trichotomy other offset with hlt | rfl | hgt
  · exact hlt
  · exact absurd rfl hbefore.ne
  · exact absurd hbefore (before_of_lt hsorted hgt).not_before

end LineStarts

end SourceSearch
