import SourceSearch.Json.Printer
import SourceSearch.Json.Reader
import Mathlib.Data.List.Forall2

/-!
# Values are read back from their text

A printed character is read as one part of a string, which stands for it. A value that is laid out
is read back whatever follows it, as long as that is not what a number goes on with; after a value
there is only a comma, a new line or the end. The items and the members after the first are read
back from the value before them, and what is left of the fuel is never less than what is left of
their text.
-/

set_option autoImplicit false

namespace SourceSearch.Json

/-! ## Strings -/

/-- What a part of a string stands for. A unit stands for a character of its own when it is no half
of a surrogate pair. -/
inductive StringPart.StandsFor : StringPart → Char → Prop
  | char (c : Char) : StandsFor (.char c) c
  | unit {n : Nat} (small : n < 0xD800) : StandsFor (.unit n) (Char.ofNat n)

/-- A unit that is no half of a surrogate pair is a character of its own. -/
theorem joinParts?_unit {n : Nat} (small : n < 0xD800) (parts : List StringPart) :
    joinParts? (.unit n :: parts) = (joinParts? parts).map (Char.ofNat n :: ·) := by
  have hlow : decide (0xD800 ≤ n) = false := by simpa using small
  have hhigh : decide (0xDC00 ≤ n) = false := by simpa using Nat.lt_trans small (by decide)
  rcases parts with _ | ⟨_ | _, parts⟩ <;> simp [joinParts?, hlow, hhigh]

theorem joinParts?_eq_some {parts : List StringPart} {cs : List Char}
    (h : List.Forall₂ StringPart.StandsFor parts cs) : joinParts? parts = some cs := by
  induction h with
  | nil => rfl
  | cons hpart _ ih =>
    cases hpart with
    | char c => rw [joinParts?, ih, Option.map_some]
    | unit small => rw [joinParts?_unit small, ih, Option.map_some]

theorem hexUnit?_hexDigit {n : Nat} (h : n < 32) :
    hexUnit? '0' '0' (hexDigit (n / 16)) (hexDigit (n % 16)) = some n := by
  revert h; revert n; decide

theorem stringParts?_shortEscape {e c : Char} (hu : e ≠ 'u') (he : shortEscape? e = some c)
    (cs : List Char) : stringParts? ('\\' :: e :: cs) =
      (stringParts? cs).map fun (parts, rest) => (.char c :: parts, rest) := by
  rw [stringParts?.eq_4]
  · rw [he]
    cases stringParts? cs <;> rfl
  · intro a b c d cs' h _
    exact hu h

theorem stringParts?_unicodeEscape {n : Nat} (h : n < 32) (cs : List Char) :
    stringParts? (['\\', 'u', '0', '0', hexDigit (n / 16), hexDigit (n % 16)] ++ cs) =
      (stringParts? cs).map fun (parts, rest) => (.unit n :: parts, rest) := by
  simp only [List.cons_append, List.nil_append]
  rw [stringParts?, hexUnit?_hexDigit h]
  cases stringParts? cs <;> rfl

theorem stringParts?_plain {c : Char} (hquote : c ≠ '"') (hback : c ≠ '\\')
    (hlow : 32 ≤ c.toNat) (cs : List Char) : stringParts? (c :: cs) =
      (stringParts? cs).map fun (parts, rest) => (.char c :: parts, rest) := by
  rw [stringParts?.eq_5]
  · rw [if_neg (by simp [hback, hlow])]
    cases stringParts? cs <;> rfl
  · exact hquote
  · intro a b c' d cs' h _
    exact hback h
  · intro a b h _
    exact hback h

/-- **A printed character is read as one part, which stands for it.** -/
theorem stringParts?_escapeChar (c : Char) : ∃ part : StringPart, part.StandsFor c ∧ ∀ cs,
    stringParts? (escapeChar c ++ cs) =
      (stringParts? cs).map fun (parts, rest) => (part :: parts, rest) := by
  have hshort : ∀ {e : Char}, e ≠ 'u' → shortEscape? e = some c →
      ∃ part : StringPart, part.StandsFor c ∧ ∀ cs, stringParts? (['\\', e] ++ cs) =
        (stringParts? cs).map fun (parts, rest) => (part :: parts, rest) :=
    fun hu he => ⟨.char c, .char c, stringParts?_shortEscape hu he⟩
  have hnat : ∀ {n : Nat}, c.toNat = n → c = Char.ofNat n := fun h => by
    rw [← h, Char.ofNat_toNat]
  unfold escapeChar
  split_ifs with hquote hback h8 h9 h10 h12 h13 hlow
  · exact hshort (by decide) (by rw [hquote]; rfl)
  · exact hshort (by decide) (by rw [hback]; rfl)
  · exact hshort (by decide) (by rw [hnat h8]; rfl)
  · exact hshort (by decide) (by rw [hnat h9]; rfl)
  · exact hshort (by decide) (by rw [hnat h10]; rfl)
  · exact hshort (by decide) (by rw [hnat h12]; rfl)
  · exact hshort (by decide) (by rw [hnat h13]; rfl)
  · refine ⟨.unit c.toNat, ?_, stringParts?_unicodeEscape hlow⟩
    have hpart := StringPart.StandsFor.unit (n := c.toNat) (by omega)
    rwa [Char.ofNat_toNat] at hpart
  · exact ⟨.char c, .char c, stringParts?_plain hquote hback (by omega)⟩

theorem stringParts?_flatMap_escapeChar (cs rest : List Char) : ∃ parts,
    List.Forall₂ StringPart.StandsFor parts cs ∧
      stringParts? (cs.flatMap escapeChar ++ '"' :: rest) = some (parts, rest) := by
  induction cs with
  | nil => exact ⟨[], .nil, by rw [List.flatMap_nil, List.nil_append, stringParts?]⟩
  | cons c cs ih =>
    obtain ⟨parts, hparts, hread⟩ := ih
    obtain ⟨part, hpart, hstep⟩ := stringParts?_escapeChar c
    refine ⟨part :: parts, .cons hpart hparts, ?_⟩
    rw [List.flatMap_cons, List.append_assoc, hstep, hread, Option.map_some]

/-- **A string is read back from its quoted text, whatever follows it.** -/
theorem string?_quote (text : String) (rest : List Char) :
    string? (text.toList.flatMap escapeChar ++ '"' :: rest) = some (some text, rest) := by
  obtain ⟨parts, hparts, hread⟩ := stringParts?_flatMap_escapeChar text.toList rest
  have htext : (joinParts? parts).map String.ofList = some text := by
    rw [joinParts?_eq_some hparts, Option.map_some, String.ofList_toList]
  rw [string?, hread, Option.map_some]
  exact congrArg (fun text => some (text, rest)) htext

/-! ## Values -/

theorem skipSpaces_cons {c : Char} (h : isSpace c = false) (cs : List Char) :
    skipSpaces (c :: cs) = c :: cs := by
  rw [skipSpaces, List.dropWhile_cons_of_neg (by simp [h])]

theorem skipSpaces_newline (level : Nat) (cs : List Char) :
    skipSpaces (newline level ++ cs) = skipSpaces cs := by
  have hblanks : ∀ n, skipSpaces (List.replicate n ' ' ++ cs) = skipSpaces cs := fun n => by
    induction n with
    | zero => rfl
    | succ n ih => rw [List.replicate_succ, List.cons_append]; exact ih
  exact hblanks (2 * level)

theorem value?_newline (fuel level : Nat) (cs : List Char) :
    value? fuel (newline level ++ cs) = value? fuel cs := by
  cases fuel with
  | zero => rfl
  | succ fuel => rw [value?, value?, skipSpaces_newline]

/-- What may follow a value: the end, or what no number goes on with. -/
def EndsValue : List Char → Prop
  | [] => True
  | c :: _ => c = ',' ∨ c = '\n'

theorem number?_zero {rest : List Char} (hrest : EndsValue rest) :
    number? ('0' :: rest) = some (true, rest) := by
  rcases rest with _ | ⟨c, rest⟩
  · rfl
  · rcases hrest with rfl | rfl <;> rfl

theorem value?_bracket {cs cs' : List Char} {c : Char} (hcs : skipSpaces cs = c :: cs')
    (hc : c ≠ ']') (fuel : Nat) : value? (fuel + 1) ('[' :: cs) =
      (items? fuel cs).map fun (items, rest) => (.array items, rest) := by
  rw [value?, skipSpaces_cons (by decide)]
  simp only [hcs]
  split
  next h => exact absurd (List.cons.inj h).1 hc
  next => rfl

theorem value?_brace {cs cs' : List Char} {c : Char} (hcs : skipSpaces cs = c :: cs')
    (hc : c ≠ '\x7d') (fuel : Nat) : value? (fuel + 1) ('\x7b' :: cs) =
      (members? fuel cs).map fun (members, rest) => (.object members, rest) := by
  rw [value?, skipSpaces_cons (by decide)]
  simp only [hcs]
  split
  next h => exact absurd (List.cons.inj h).1 hc
  next => rfl

/-- No value starts with a blank or with a closing bracket. -/
theorem layout_eq_cons (value : Json) (level : Nat) :
    ∃ c cs, value.layout level = c :: cs ∧ isSpace c = false ∧ c ≠ ']' := by
  rcases value with _ | (_ | _) | _ | text | (_ | _) | (_ | _)
  case string => exact ⟨_, _, by rw [layout, quote]; rfl, by decide, by decide⟩
  all_goals exact ⟨_, _, rfl, by decide, by decide⟩

theorem value?_quote (fuel : Nat) (text : String) (rest : List Char) :
    value? (fuel + 1) (quote text ++ rest) = some (.string (some text), rest) := by
  rw [quote, List.append_assoc, List.cons_append, value?, skipSpaces_cons (by decide)]
  simp only [List.singleton_append, string?_quote, Option.map_some]

theorem value?_zero (fuel : Nat) {rest : List Char} (hrest : EndsValue rest) :
    value? (fuel + 1) ('0' :: rest) = some (.number true, rest) := by
  rw [value?, skipSpaces_cons (by decide)]
  exact congrArg (Option.map fun r => (Json.number r.1, r.2)) (number?_zero hrest)

/-- The name of a member is read back from its quoted text. -/
theorem members?_quote {fuel : Nat} {value : Json} {cs cs' : List Char}
    (hvalue : value? fuel cs = some (value, cs')) (level : Nat) (name : String) :
    members? (fuel + 1) (newline level ++ (quote name ++ ':' :: ' ' :: cs)) =
      match skipSpaces cs' with
      | '\x7d' :: rest => some ([(some name, value)], rest)
      | ',' :: rest => do
        let (members, rest) ← members? fuel rest
        return ((some name, value) :: members, rest)
      | _ => none := by
  have hblank : value? fuel (' ' :: cs) = some (value, cs') := by
    rw [← hvalue]
    cases fuel <;> rfl
  rw [quote, List.append_assoc, List.cons_append, members?, skipSpaces_newline,
    skipSpaces_cons (by decide)]
  simp only [List.cons_append, List.nil_append, string?_quote, Option.bind_eq_bind,
    Option.bind_some, skipSpaces_cons (c := ':') (by decide), hblank]
  rfl

/-- No number goes on with what stands after an item. -/
theorem endsValue_layoutItems (items : List Json) (level outer : Nat) (cs : List Char) :
    EndsValue (layoutItems level items ++ (newline outer ++ cs)) := by
  cases items with
  | nil => exact .inr rfl
  | cons => exact .inl rfl

theorem endsValue_layoutMembers (members : List (Option String × Json)) (level outer : Nat)
    (cs : List Char) : EndsValue (layoutMembers level members ++ (newline outer ++ cs)) := by
  cases members with
  | nil => exact .inr rfl
  | cons => exact .inl rfl

mutual

/-- **A plain value is read back from its text.** -/
theorem value?_layout {limit : Nat} (value : Json) (hplain : value.isPlain limit = true)
    (level : Nat) {fuel : Nat} (hfuel : (value.layout level).length ≤ fuel) {rest : List Char}
    (hrest : EndsValue rest) : value? fuel (value.layout level ++ rest) = some (value, rest) := by
  obtain ⟨c, cs, hlayout, -, -⟩ := layout_eq_cons value level
  obtain ⟨fuel, rfl⟩ : ∃ n, fuel = n + 1 :=
    ⟨fuel - 1, by rw [hlayout, List.length_cons] at hfuel; omega⟩
  match value with
  | .null => rw [layout]; rfl
  | .bool true => rw [layout]; rfl
  | .bool false => rw [layout]; rfl
  | .number finite =>
    obtain rfl : finite = true := by rwa [isPlain] at hplain
    exact value?_zero fuel hrest
  | .string none => rw [isPlain] at hplain; contradiction
  | .string (some text) => exact value?_quote fuel text rest
  | .array [] => rw [layout]; rfl
  | .array (item :: items) =>
    obtain ⟨limit, rfl, hitem, hitems⟩ : ∃ n, limit = n + 1 ∧ item.isPlain n = true ∧
        arePlain n items = true := by
      cases limit with
      | zero => simp [isPlain] at hplain
      | succ n => exact ⟨n, rfl, by simpa [isPlain, arePlain] using hplain⟩
    simp only [layout, newline, List.length_cons, List.length_append] at hfuel
    obtain ⟨fuel, rfl⟩ : ∃ n, fuel = n + 1 := ⟨fuel - 1, by omega⟩
    have hread := @value?_layout limit item hitem (level + 1) fuel (by omega) _
      (endsValue_layoutItems items (level + 1) level (']' :: rest))
    obtain ⟨c, cs, hhead, hspace, hclose⟩ := layout_eq_cons item (level + 1)
    rw [layout]
    simp only [List.cons_append, List.nil_append, List.append_assoc]
    rw [value?_bracket (by rw [skipSpaces_newline, hhead]; exact skipSpaces_cons hspace _) hclose,
      items?_layoutItems items hitems (level + 1) level (by omega)
        ((value?_newline fuel _ _).trans hread)]
    rfl
  | .object [] => rw [layout]; rfl
  | .object ((name, value) :: members) =>
    obtain ⟨limit, name, rfl, rfl, hvalue, hmembers⟩ : ∃ n text, limit = n + 1 ∧
        name = some text ∧ value.isPlain n = true ∧ membersArePlain n members = true := by
      cases limit with
      | zero => simp [isPlain] at hplain
      | succ n =>
        simp only [isPlain, membersArePlain, Bool.and_eq_true] at hplain
        obtain ⟨⟨hname, hvalue⟩, hmembers⟩ := hplain
        obtain ⟨text, rfl⟩ := Option.isSome_iff_exists.1 hname
        exact ⟨n, text, rfl, rfl, hvalue, hmembers⟩
    simp only [layout, newline, List.length_cons, List.length_append] at hfuel
    obtain ⟨fuel, rfl⟩ : ∃ n, fuel = n + 1 := ⟨fuel - 1, by omega⟩
    have hread := @value?_layout limit value hvalue (level + 1) fuel (by omega) _
      (endsValue_layoutMembers members (level + 1) level ('\x7d' :: rest))
    rw [layout]
    simp only [List.cons_append, List.nil_append, List.append_assoc, Option.getD_some]
    rw [value?_brace (by rw [skipSpaces_newline]; exact skipSpaces_cons (by decide) _) (by decide),
      members?_layoutMembers members hmembers (level + 1) level (by omega) hread name]
    rfl

/-- **The items after an item are read back, up to the bracket.** -/
theorem items?_layoutItems {limit : Nat} (items : List Json)
    (hplain : arePlain limit items = true) (level outer : Nat) {fuel : Nat}
    (hfuel : (layoutItems level items).length ≤ fuel) {cs rest : List Char} {item : Json}
    (hitem : value? fuel cs =
      some (item, layoutItems level items ++ (newline outer ++ ']' :: rest))) :
    items? (fuel + 1) cs = some (item :: items, rest) := by
  rw [items?, hitem]
  match items with
  | [] =>
    have hskip : skipSpaces (layoutItems level [] ++ (newline outer ++ ']' :: rest)) =
        ']' :: rest :=
      (skipSpaces_newline outer _).trans (skipSpaces_cons (by decide) _)
    simp only [Option.bind_eq_bind, Option.bind_some, hskip]
    rfl
  | next :: items =>
    obtain ⟨hnext, hitems⟩ : next.isPlain limit = true ∧ arePlain limit items = true := by
      simpa [arePlain] using hplain
    rw [layoutItems]
    simp only [layoutItems, newline, List.length_cons, List.length_append] at hfuel
    obtain ⟨fuel, rfl⟩ : ∃ n, fuel = n + 1 := ⟨fuel - 1, by omega⟩
    have hvalue := @value?_layout limit next hnext level fuel (by omega) _
      (endsValue_layoutItems items level outer (']' :: rest))
    have hread := items?_layoutItems items hitems level outer (by omega)
      ((value?_newline fuel level _).trans hvalue)
    simp only [Option.bind_eq_bind, Option.bind_some, List.cons_append, List.append_assoc,
      skipSpaces_cons (c := ',') (by decide), hread]
    rfl

/-- **The members after a member are read back, up to the brace.** -/
theorem members?_layoutMembers {limit : Nat} (members : List (Option String × Json))
    (hplain : membersArePlain limit members = true) (level outer : Nat) {fuel : Nat}
    (hfuel : (layoutMembers level members).length ≤ fuel) {cs rest : List Char} {value : Json}
    (hvalue : value? fuel cs =
      some (value, layoutMembers level members ++ (newline outer ++ '\x7d' :: rest)))
    (name : String) : members? (fuel + 1) (newline level ++ (quote name ++ ':' :: ' ' :: cs)) =
      some ((some name, value) :: members, rest) := by
  rw [members?_quote hvalue]
  match members with
  | [] =>
    have hskip : skipSpaces (layoutMembers level [] ++ (newline outer ++ '\x7d' :: rest)) =
        '\x7d' :: rest :=
      (skipSpaces_newline outer _).trans (skipSpaces_cons (by decide) _)
    simp only [hskip]
  | (none, _) :: _ => simp [membersArePlain] at hplain
  | (some next, value) :: members =>
    obtain ⟨hnext, hmembers⟩ :
        value.isPlain limit = true ∧ membersArePlain limit members = true := by
      simpa [membersArePlain] using hplain
    rw [layoutMembers]
    simp only [layoutMembers, newline, List.length_cons, List.length_append] at hfuel
    obtain ⟨fuel, rfl⟩ : ∃ n, fuel = n + 1 := ⟨fuel - 1, by omega⟩
    have hvalue := @value?_layout limit value hnext level fuel (by omega) _
      (endsValue_layoutMembers members level outer ('\x7d' :: rest))
    have hread := members?_layoutMembers members hmembers level outer (by omega) hvalue next
    simp only [List.cons_append, List.nil_append, List.append_assoc, Option.getD_some,
      skipSpaces_cons (c := ',') (by decide), hread]
    rfl

end

/-- **What is printed is read back.** -/
theorem read?_print {limit : Nat} {value : Json} (hplain : value.isPlain limit = true) :
    read? value.print = some value := by
  have hfuel : (value.layout 0).length ≤ 2 * value.print.length + 2 := by
    rw [print, String.length_ofList]
    omega
  have hread := @value?_layout limit value hplain 0 _ hfuel [] trivial
  rw [List.append_nil] at hread
  have htext : value.print.toList = value.layout 0 := String.toList_ofList
  rw [read?, htext, hread]
  rfl

end SourceSearch.Json
