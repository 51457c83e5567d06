import SourceSearch.Proofs.Words

/-!
# Tokens as slices of a text

Places are counted in bytes, and what is cut out of a text has to end between characters. A token
does, and what is cut out where it stands is what it is spelled with (`Token.IsOf.slice`). So a
range that goes from the start of a token to the end of one can be cut out as well, whatever stands
between the two (`TextRange.OnTokens.exists_slice`).
-/

set_option autoImplicit false

namespace SourceSearch

variable {text : String} {range : TextRange}

/-! ## Bytes -/

@[simp] theorem byteLength_append (before after : List Char) :
    byteLength (before ++ after) = byteLength before + byteLength after := by
  induction before with
  | nil => simp
  | cons c cs ih => rw [List.cons_append, byteLength_cons, byteLength_cons, ih, Nat.add_assoc]

/-- The bytes of a text are those of its characters. -/
theorem byteLength_toList (text : String) : byteLength text.toList = text.utf8ByteSize := by
  have hofList : ∀ cs, byteLength cs = (String.ofList cs).utf8ByteSize := by
    intro cs
    induction cs with
    | nil => simp
    | cons c cs ih =>
      rw [String.ofList_cons, String.utf8ByteSize_append, String.utf8ByteSize_singleton, ← ih]
      rfl
  rw [hofList, String.ofList_toList]

theorem byteLength_pos {cs : List Char} (h : cs ≠ []) : 0 < byteLength cs := by
  obtain ⟨c, cs, rfl⟩ := List.exists_cons_of_ne_nil h
  rw [byteLength_cons]
  exact Nat.add_pos_left c.utf8Size_pos _

/-- The bytes of a list that is not empty are one more than some number. -/
theorem exists_byteLength_cons (c : Char) (cs : List Char) :
    ∃ n, c.utf8Size + byteLength cs = n + 1 :=
  Nat.exists_eq_succ_of_ne_zero (byteLength_pos (List.cons_ne_nil c cs)).ne'

/-- The bytes of some characters are dropped with these characters. -/
theorem dropBytes?_append (before after : List Char) :
    dropBytes? (byteLength before) (before ++ after) = some after := by
  induction before with
  | nil => rw [byteLength_nil, List.nil_append, dropBytes?]
  | cons c cs ih =>
    obtain ⟨n, hn⟩ := exists_byteLength_cons c cs
    rw [byteLength_cons, hn, List.cons_append, dropBytes?, ← hn,
      if_pos (Nat.le_add_right _ _), Nat.add_sub_cancel_left, ih]

/-- The bytes of some characters are taken with these characters. -/
theorem takeBytes?_append (before after : List Char) :
    takeBytes? (byteLength before) (before ++ after) = some before := by
  induction before with
  | nil => rw [byteLength_nil, List.nil_append, takeBytes?]
  | cons c cs ih =>
    obtain ⟨n, hn⟩ := exists_byteLength_cons c cs
    rw [byteLength_cons, hn, List.cons_append, takeBytes?, ← hn,
      if_pos (Nat.le_add_right _ _), Nat.add_sub_cancel_left, ih, Option.map_some]

/-- **What stands between two parts** of a text is cut out at the bytes that it takes. -/
theorem slice_of_toList_eq {before inner after : List Char}
    (h : text.toList = before ++ (inner ++ after)) (hstart : range.start = byteLength before)
    (hstop : range.stop = byteLength before + byteLength inner) :
    slice text range = some (String.ofList inner) := by
  rw [slice, h, hstart, hstop, dropBytes?_append, Option.bind_some, Nat.add_sub_cancel_left,
    takeBytes?_append, Option.map_some]

/-! ## Tokens -/

/-- A token of a text. -/
def Token.IsOf (text : String) (token : Token) : Prop :=
  ∃ tokens, tokenize text = .ok tokens ∧ token ∈ tokens

theorem Token.IsOf.from {token : Token} (h : token.IsOf text) :
    token.From (WordOf text) := by
  obtain ⟨tokens, htokens, hmem⟩ := h
  exact tokens_from htokens token hmem

/-- The characters of a token stand in the text behind as many bytes as its range says. -/
theorem exists_eq_of_mem_tokenizeFrom {offset skip : Nat} {cs : List Char} {tokens : List Token}
    (h : tokenizeFrom offset skip cs = .ok tokens) :
    ∀ token ∈ tokens, ∃ before after, cs = before ++ (token.text.toList ++ after) ∧
      token.range = .ofLength (offset + byteLength before) (byteLength token.text.toList) := by
  induction cs generalizing offset skip tokens with
  | nil =>
    cases h
    simp
  | cons c cs ih =>
    -- what is found behind the first character
    have hlater : ∀ {skip tokens}, tokenizeFrom (offset + c.utf8Size) skip cs = .ok tokens →
        ∀ token ∈ tokens, ∃ before after, c :: cs = before ++ (token.text.toList ++ after) ∧
          token.range = .ofLength (offset + byteLength before) (byteLength token.text.toList) := by
      intro skip tokens hrest token hmem
      obtain ⟨before, after, heq, hrange⟩ := ih hrest token hmem
      refine ⟨c :: before, after, congrArg (c :: ·) heq, ?_⟩
      rw [byteLength_cons, ← Nat.add_assoc]
      exact hrange
    cases skip with
    | succ skip => exact hlater h
    | zero =>
      rw [tokenizeFrom] at h
      split at h
      next => cases h
      next => exact hlater h
      next kind n hread =>
        cases hrest : tokenizeFrom (offset + c.utf8Size) n cs with
        | error e => simp [hrest, bind, Except.bind] at h
        | ok rest =>
          simp only [hrest, bind, Except.bind, pure, Except.pure, Except.ok.injEq] at h
          subst h
          intro token hmem
          rcases List.mem_cons.1 hmem with rfl | hmem
          · exact ⟨[], cs.drop n, by simp, by simp⟩
          · exact hlater hrest token hmem

theorem Token.IsOf.exists_eq {token : Token} (h : token.IsOf text) :
    ∃ before after, text.toList = before ++ (token.text.toList ++ after) ∧
      token.range = .ofLength (byteLength before) (byteLength token.text.toList) := by
  obtain ⟨tokens, htokens, hmem⟩ := h
  obtain ⟨before, after, heq, hrange⟩ := exists_eq_of_mem_tokenizeFrom htokens token hmem
  rw [Nat.zero_add] at hrange
  exact ⟨before, after, heq, hrange⟩

/-- **A token is spelled** in the text where it stands. -/
theorem Token.IsOf.slice {token : Token} (h : token.IsOf text) :
    slice text token.range = some token.text := by
  obtain ⟨before, after, heq, hrange⟩ := h.exists_eq
  rw [slice_of_toList_eq heq (by rw [hrange]; rfl) (by rw [hrange]; rfl), String.ofList_toList]

/-! ## From token to token -/

/-- A token of the text starts at the offset. -/
def StartsAt (text : String) (offset : Nat) : Prop :=
  ∃ token : Token, token.IsOf text ∧ token.range.start = offset

/-- A token of the text ends at the offset. -/
def EndsAt (text : String) (offset : Nat) : Prop :=
  ∃ token : Token, token.IsOf text ∧ token.range.stop = offset

/-- A token starts between two characters. -/
theorem StartsAt.exists_eq {offset : Nat} (h : StartsAt text offset) :
    ∃ before after, text.toList = before ++ after ∧ offset = byteLength before := by
  obtain ⟨token, htoken, rfl⟩ := h
  obtain ⟨before, after, heq, hrange⟩ := htoken.exists_eq
  exact ⟨before, token.text.toList ++ after, heq, by rw [hrange]; rfl⟩

/-- A token ends between two characters. -/
theorem EndsAt.exists_eq {offset : Nat} (h : EndsAt text offset) :
    ∃ before after, text.toList = before ++ after ∧ offset = byteLength before := by
  obtain ⟨token, htoken, rfl⟩ := h
  obtain ⟨before, after, heq, hrange⟩ := htoken.exists_eq
  refine ⟨before ++ token.text.toList, after, by rw [heq, List.append_assoc], ?_⟩
  rw [hrange, byteLength_append]
  rfl

/-- A range goes from the start of a token of the text to the end of one behind it. -/
structure TextRange.OnTokens (text : String) (range : TextRange) : Prop where
  starts : StartsAt text range.start
  ends : EndsAt text range.stop
  pos : range.start < range.stop

theorem Token.IsOf.onTokens {token : Token} (h : token.IsOf text)
    (hpos : token.range.start < token.range.stop) : token.range.OnTokens text :=
  ⟨⟨token, h, rfl⟩, ⟨token, h, rfl⟩, hpos⟩

namespace TextRange.OnTokens

/-- **A range from token to token** lies in the text. -/
theorem stop_le (h : range.OnTokens text) : range.stop ≤ text.utf8ByteSize := by
  obtain ⟨before, after, heq, hstop⟩ := h.ends.exists_eq
  rw [← byteLength_toList, heq, byteLength_append, hstop]
  exact Nat.le_add_right _ _

/-- **A range from token to token** can be cut out of the text. -/
theorem exists_slice (h : range.OnTokens text) : ∃ inner, slice text range = some inner := by
  obtain ⟨before, after, heq, hstart⟩ := h.starts.exists_eq
  obtain ⟨before', after', heq', hstop⟩ := h.ends.exists_eq
  have hpos := h.pos
  rcases List.append_eq_append_iff.1 (heq.symm.trans heq') with
    ⟨inner, rfl, rfl⟩ | ⟨inner, rfl, rfl⟩
  · rw [byteLength_append] at hstop
    exact ⟨_, slice_of_toList_eq heq hstart hstop⟩
  · rw [byteLength_append] at hstart
    omega

end TextRange.OnTokens

end SourceSearch
