import SourceSearch.Json

/-!
# Reading JSON

The grammar is strict: no comments, no commas at the end, no control characters in strings, and
nothing but blanks after the value.
-/

set_option autoImplicit false

namespace SourceSearch.Json

/-- Blanks between the parts of a text. -/
def isSpace (c : Char) : Bool := c == ' ' || c == '\t' || c == '\n' || c == '\r'

/-- The text after its blanks. -/
def skipSpaces (cs : List Char) : List Char := cs.dropWhile isSpace

/-- The value of a hexadecimal digit. -/
def hexValue? (c : Char) : Option Nat :=
  if c.isDigit then some (c.toNat - 48)
  else if 'a' ≤ c && c ≤ 'f' then some (c.toNat - 87)
  else if 'A' ≤ c && c ≤ 'F' then some (c.toNat - 55)
  else none

/-- The value of four hexadecimal digits. -/
def hexUnit? (a b c d : Char) : Option Nat := do
  return (((← hexValue? a) * 16 + (← hexValue? b)) * 16 + (← hexValue? c)) * 16 + (← hexValue? d)

/-- The character of an escape of one letter. -/
def shortEscape? : Char → Option Char
  | '"' => some '"'
  | '\\' => some '\\'
  | '/' => some '/'
  | 'b' => some (Char.ofNat 8)
  | 'f' => some (Char.ofNat 12)
  | 'n' => some '\n'
  | 'r' => some '\r'
  | 't' => some '\t'
  | _ => none

/-- What a string is made of: characters, and units of sixteen bits written as escapes. -/
inductive StringPart
  | char (c : Char)
  | unit (n : Nat)

/-- The parts of a string up to its closing quote, and the text after it. -/
def stringParts? : List Char → Option (List StringPart × List Char)
  | [] => none
  | '"' :: cs => some ([], cs)
  | '\\' :: 'u' :: a :: b :: c :: d :: cs => do
    let n ← hexUnit? a b c d
    let (parts, rest) ← stringParts? cs
    return (.unit n :: parts, rest)
  | '\\' :: e :: cs => do
    let c ← shortEscape? e
    let (parts, rest) ← stringParts? cs
    return (.char c :: parts, rest)
  | c :: cs =>
    if c.toNat < 32 || c == '\\' then none
    else do
      let (parts, rest) ← stringParts? cs
      return (.char c :: parts, rest)

/-- The characters of a string; none when a surrogate is not followed by its other half. -/
def joinParts? : List StringPart → Option (List Char)
  | [] => some []
  | .char c :: parts => (joinParts? parts).map (c :: ·)
  | .unit high :: .unit low :: parts =>
    if 0xD800 ≤ high && high < 0xDC00 then
      if 0xDC00 ≤ low && low < 0xE000 then
        (joinParts? parts).map
          (Char.ofNat (0x10000 + (high - 0xD800) * 0x400 + (low - 0xDC00)) :: ·)
      else none
    else if 0xDC00 ≤ high && high < 0xE000 then none
    else (joinParts? (.unit low :: parts)).map (Char.ofNat high :: ·)
  | .unit n :: parts =>
    if 0xD800 ≤ n && n < 0xE000 then none
    else (joinParts? parts).map (Char.ofNat n :: ·)

/-- A string after its opening quote: its text, if it has one, and what follows. -/
def string? (cs : List Char) : Option (Option String × List Char) :=
  (stringParts? cs).map fun (parts, rest) => ((joinParts? parts).map String.ofList, rest)

/-- The number that decimal digits stand for. -/
def digitsValue (cs : List Char) : Nat := cs.foldl (fun n c => n * 10 + (c.toNat - 48)) 0

/-- Whether `digits` times ten to the power `exponent` rounds to a finite double. -/
def isFinite (digits : Nat) (exponent : Int) : Bool :=
  if digits = 0 || exponent ≤ 0 && (Nat.toDigits 10 digits).length ≤ 300 then true
  else
    let magnitude := (Nat.toDigits 10 digits).length + exponent
    if magnitude > 310 then false
    else if magnitude < 300 then true
    else
      let bound := Nat.pow 2 1024 - Nat.pow 2 970
      if exponent ≥ 0 then decide (digits * Nat.pow 10 exponent.toNat < bound)
      else decide (digits < bound * Nat.pow 10 (-exponent).toNat)

/-- The whole part of a number: one zero, or digits that do not start with a zero. -/
def wholePart? (cs : List Char) : Option (List Char × List Char) :=
  match cs with
  | '0' :: rest => if rest.head?.any Char.isDigit then none else some (['0'], rest)
  | _ =>
    let digits := cs.takeWhile Char.isDigit
    if digits.isEmpty then none else some (digits, cs.drop digits.length)

/-- The digits after the point, if there is a point. -/
def fractionPart? (cs : List Char) : Option (List Char × List Char) :=
  match cs with
  | '.' :: rest =>
    let digits := rest.takeWhile Char.isDigit
    if digits.isEmpty then none else some (digits, rest.drop digits.length)
  | _ => some ([], cs)

/-- The exponent, zero if there is none. -/
def exponentPart? (cs : List Char) : Option (Int × List Char) :=
  match cs with
  | e :: rest =>
    if e == 'e' || e == 'E' then
      let (sign, rest) : Int × List Char :=
        match rest with
        | '+' :: r => (1, r)
        | '-' :: r => (-1, r)
        | r => (1, r)
      let digits := rest.takeWhile Char.isDigit
      if digits.isEmpty then none
      else some (sign * digitsValue digits, rest.drop digits.length)
    else some (0, cs)
  | [] => some (0, [])

/-- A number, told by whether it is finite as a double. -/
def number? (cs : List Char) : Option (Bool × List Char) := do
  let unsigned := match cs with
    | '-' :: rest => rest
    | _ => cs
  let (whole, cs) ← wholePart? unsigned
  let (fraction, cs) ← fractionPart? cs
  let (exponent, cs) ← exponentPart? cs
  return (isFinite (digitsValue (whole ++ fraction)) (exponent - fraction.length), cs)

/-- What follows `word`, if the text starts with it. -/
def after? (word : String) (cs : List Char) : Option (List Char) :=
  if word.toList.isPrefixOf cs then some (cs.drop word.length) else none

mutual

/-- A value at the start of the text, and what follows it. The fuel bounds the nesting. -/
def value? : (fuel : Nat) → List Char → Option (Json × List Char)
  | 0, _ => none
  | fuel + 1, cs =>
    match skipSpaces cs with
    | [] => none
    | '"' :: cs => (string? cs).map fun (text, rest) => (.string text, rest)
    | '[' :: cs =>
      match skipSpaces cs with
      | ']' :: rest => some (.array [], rest)
      | _ => (items? fuel cs).map fun (items, rest) => (.array items, rest)
    | '\x7b' :: cs =>
      match skipSpaces cs with
      | '\x7d' :: rest => some (.object [], rest)
      | _ => (members? fuel cs).map fun (members, rest) => (.object members, rest)
    | 'n' :: cs => (after? "ull" cs).map fun rest => (.null, rest)
    | 't' :: cs => (after? "rue" cs).map fun rest => (.bool true, rest)
    | 'f' :: cs => (after? "alse" cs).map fun rest => (.bool false, rest)
    | cs => (number? cs).map fun (finite, rest) => (.number finite, rest)

/-- One or more items up to the closing bracket. -/
def items? : (fuel : Nat) → List Char → Option (List Json × List Char)
  | 0, _ => none
  | fuel + 1, cs => do
    let (item, cs) ← value? fuel cs
    match skipSpaces cs with
    | ']' :: rest => return ([item], rest)
    | ',' :: rest =>
      let (items, rest) ← items? fuel rest
      return (item :: items, rest)
    | _ => none

/-- One or more members up to the closing brace. -/
def members? : (fuel : Nat) → List Char → Option (List (Option String × Json) × List Char)
  | 0, _ => none
  | fuel + 1, cs => do
    match skipSpaces cs with
    | '"' :: cs =>
      let (name, cs) ← string? cs
      match skipSpaces cs with
      | ':' :: cs =>
        let (value, cs) ← value? fuel cs
        match skipSpaces cs with
        | '\x7d' :: rest => return ([(name, value)], rest)
        | ',' :: rest =>
          let (members, rest) ← members? fuel rest
          return ((name, value) :: members, rest)
        | _ => none
      | _ => none
    | _ => none

end

/-- The value of a text. -/
def read? (text : String) : Option Json :=
  match value? (2 * text.length + 2) text.toList with
  | some (value, rest) => if (skipSpaces rest).isEmpty then some value else none
  | none => none

end SourceSearch.Json
