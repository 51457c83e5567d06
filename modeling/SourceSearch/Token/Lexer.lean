import SourceSearch.Token
import SourceSearch.Text.Identifier

/-!
# From text to tokens

A lexeme is the longest run of characters that one rule accepts, and a reserved word wins over an
identifier of the same length. `Lexeme.read` says what the lexeme at a character is and how many
characters it takes beyond that one; `tokenize` walks the text by lexemes and keeps the tokens.
-/

set_option autoImplicit false

namespace SourceSearch

/-- The offset of the first character at which no lexeme starts. -/
structure LexError where
  offset : Nat
  deriving DecidableEq, Repr

/-- What a run of characters is: something between tokens, or a token. -/
inductive Lexeme
  | gap
  | token (kind : TokenKind)
  deriving DecidableEq, Repr

namespace Lexeme

/-- The blanks between tokens. -/
def isGapChar (c : Char) : Bool :=
  c == ' ' || c == '\t' || c == '\r' || c == '\n' || c.toNat == 12

/-- The characters of an identifier within ASCII. -/
def isWordChar (c : Char) : Bool := c.isAlphanum || c == '_' || c == '$'

/-- The length of the longest run of characters that satisfy `p`. -/
def runLength (p : Char → Bool) (cs : List Char) : Nat := (cs.takeWhile p).length

/-- The length of a comment's text and its closing mark, for the characters after its opening. -/
def blockComment? : List Char → Option Nat
  | '*' :: '/' :: _ => some 2
  | _ :: cs => (blockComment? cs).map (· + 1)
  | [] => none

/-- A digit, or a separator between digits. -/
def isDigitOrSeparator (c : Char) : Bool := c.isDigit || c == '_'

/-- A hexadecimal digit. -/
def isHexDigit (c : Char) : Bool :=
  c.isDigit || ('a' ≤ c && c ≤ 'f') || ('A' ≤ c && c ≤ 'F')

/-- The length of a point and the digits behind it, zero when no digit follows the point. -/
def fractionLength : List Char → Nat
  | '.' :: d :: cs => if d.isDigit then 2 + runLength isDigitOrSeparator cs else 0
  | _ => 0

/-- The length of an exponent, zero when its mark is not followed by a digit. -/
def exponentLength : List Char → Nat
  | e :: cs =>
    if e == 'e' || e == 'E' then
      let sign := match cs with
        | s :: _ => if s == '+' || s == '-' then 1 else 0
        | [] => 0
      let digits := runLength Char.isDigit (cs.drop sign)
      if digits = 0 then 0 else 1 + sign + digits
    else 0
  | [] => 0

/-- One when the head is a character of `marks`, else zero. -/
def markLength (marks : List Char) : List Char → Nat
  | c :: _ => if marks.contains c then 1 else 0
  | [] => 0

/-- The length of a decimal number after its first digit. -/
def decimalLength (cs : List Char) : Nat :=
  let whole := runLength isDigitOrSeparator cs
  let fraction := fractionLength (cs.drop whole)
  let exponent := exponentLength (cs.drop (whole + fraction))
  whole + fraction + exponent +
    markLength ['l', 'L', 'f', 'F', 'd', 'D'] (cs.drop (whole + fraction + exponent))

/-- The length of a hexadecimal number after its leading zero, if one stands there. -/
def hexLength? : List Char → Option Nat
  | x :: cs =>
    if x == 'x' || x == 'X' then
      let digits := runLength (fun c => isHexDigit c || c == '_') cs
      if digits = 0 then none
      else some (1 + digits + markLength ['l', 'L'] (cs.drop digits))
    else none
  | [] => none

/-- The length of a number after its first digit `c`. -/
def numberLength (c : Char) (cs : List Char) : Nat :=
  if c == '0' then (hexLength? cs).getD (decimalLength cs) else decimalLength cs

/-- The length of a string's text and closing quote, for the characters after the opening one. -/
def stringLength? : List Char → Option Nat
  | '"' :: _ => some 1
  | '\\' :: c :: cs => if c == '\n' then none else (stringLength? cs).map (· + 2)
  | '\\' :: [] => none
  | '\n' :: _ => none
  | _ :: cs => (stringLength? cs).map (· + 1)
  | [] => none

/-- The length of an escape of four hexadecimal digits and the closing quote behind it. -/
def codePointLength? : List Char → Option Nat
  | '\\' :: 'u' :: a :: b :: c :: d :: '\'' :: _ =>
    if [a, b, c, d].all isHexDigit then some 7 else none
  | _ => none

/-- The length of one character, or of a backslash and one character, and the closing quote behind
it. -/
def plainCharLength? : List Char → Option Nat
  | '\\' :: c :: '\'' :: _ => if c == '\n' then none else some 3
  | c :: '\'' :: _ => if c == '\\' || c == '\n' || c == '\'' then none else some 2
  | _ => none

/-- The length of a character literal after its opening quote. -/
def charLength? (cs : List Char) : Option Nat := codePointLength? cs <|> plainCharLength? cs

/-- The symbol that the characters open with, the longest one. -/
def symbol? (cs : List Char) : Option Symbol :=
  Symbol.all.find? (fun s => s.spelling.toList.isPrefixOf cs)

/-- A word that starts with `c`. A reserved word ends where the characters of words within ASCII
end, unless a character beyond ASCII that may open an identifier makes it longer. -/
def word (c : Char) (cs : List Char) : Lexeme × Nat :=
  let n := runLength isWordChar cs
  let rest := cs.drop n
  match TokenKind.ofReserved? (String.ofList (c :: cs.take n)) with
  | some kind =>
    if rest.head?.any isIdentStart then
      (.token .ident, n + runLength isIdentContinue rest)
    else (.token kind, n)
  | none => (.token .ident, n + runLength isIdentContinue rest)

/-- The lexeme that starts with `c`, with the number of characters that it takes from `cs`. -/
def read (c : Char) (cs : List Char) : Option (Lexeme × Nat) :=
  if isGapChar c then some (.gap, runLength isGapChar cs)
  else if c == '/' && cs.head? == some '/' then some (.gap, runLength (· != '\n') cs)
  else if c == '/' && cs.head? == some '*' then
    (blockComment? (cs.drop 1)).map fun n => (.gap, n + 1)
  else if c.isDigit then some (.token .number, numberLength c cs)
  else if c == '"' then (stringLength? cs).map fun n => (.token .stringLit, n)
  else if c == '\'' then (charLength? cs).map fun n => (.token .charLit, n)
  else if isIdentStart c then some (word c cs)
  else (symbol? (c :: cs)).map fun s => (.token (.symbol s), s.spelling.length - 1)

end Lexeme

/-- Tokens of the characters at byte `offset`, the first `skip` of which belong to a lexeme that is
already read. -/
def tokenizeFrom : (offset skip : Nat) → List Char → Except LexError (List Token)
  | _, _, [] => .ok []
  | offset, skip + 1, c :: cs => tokenizeFrom (offset + c.utf8Size) skip cs
  | offset, 0, c :: cs =>
    match Lexeme.read c cs with
    | none => .error ⟨offset⟩
    | some (.gap, n) => tokenizeFrom (offset + c.utf8Size) n cs
    | some (.token kind, n) => do
      let text := c :: cs.take n
      let rest ← tokenizeFrom (offset + c.utf8Size) n cs
      return ⟨kind, String.ofList text, .ofLength offset (byteLength text)⟩ :: rest

/-- The tokens of a text, in order. -/
def tokenize (text : String) : Except LexError (List Token) :=
  tokenizeFrom 0 0 text.toList

end SourceSearch
