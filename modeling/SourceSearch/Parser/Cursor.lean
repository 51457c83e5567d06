import SourceSearch.Tree

/-!
# Reading from a list of tokens

A `Parser` reads from the head of the tokens that are left and may fail with a message at an offset.
Nothing is consumed behind its back: to look ahead is to read from a copy of the cursor. Loops are
bounded by the number of tokens left, since every round but the last reads one.
-/

set_option autoImplicit false

namespace SourceSearch

/-- Why a text is no compilation unit, and where this shows. -/
structure ParseError where
  message : String
  offset : Nat
  deriving DecidableEq, Repr

/-- The message with its place. -/
def ParseError.display (e : ParseError) : String :=
  e.message ++ " at offset " ++ toString e.offset

/-- The tokens that are left, the end of the last token read (zero before the first), and the
length of the text. -/
structure Cursor where
  rest : List Token
  lastEnd : Nat
  textEnd : Nat

/-- Readers of tokens. -/
abbrev Parser := StateT Cursor (Except ParseError)

namespace Cursor

/-- The kind of the next token but `n`. -/
def kindAt (c : Cursor) (n : Nat) : Option TokenKind := c.rest[n]?.map (·.kind)

/-- The kind of the next token. -/
def kind? (c : Cursor) : Option TokenKind := c.rest.head?.map (·.kind)

/-- Whether the next token is of the kind. -/
def nextIs (c : Cursor) (kind : TokenKind) : Bool := c.kind? == some kind

/-- Where the next token starts; the end of the text when there is none. -/
def offset (c : Cursor) : Nat :=
  match c.rest with
  | t :: _ => t.range.start
  | [] => c.textEnd

/-- The cursor after the next token. -/
def advance (c : Cursor) : Cursor :=
  match c.rest with
  | t :: rest => { c with rest := rest, lastEnd := t.range.stop }
  | [] => c

/-- The cursor after the next `n` tokens. -/
def skip : Nat → Cursor → Cursor
  | 0, c => c
  | n + 1, c => skip n c.advance

/-- From `start` to the end of the last token read. -/
def rangeFrom (c : Cursor) (start : Nat) : TextRange := .upTo start c.lastEnd

/-- Whether the next token but `n` ends where the one after it starts. -/
def adjacent (c : Cursor) (n : Nat) : Bool :=
  match c.rest[n]?, c.rest[n + 1]? with
  | some a, some b => a.range.stop == b.range.start
  | _, _ => false

end Cursor

namespace Parser

/-- Fails with a message at the next token. -/
def fail {α : Type} (message : String) : Parser α := fun c => .error ⟨message, c.offset⟩

/-- Whether the next token is of the kind. -/
def nextIs (kind : TokenKind) : Parser Bool := return (← get).nextIs kind

/-- Whether the next two tokens are of these kinds. -/
def nextAre (first second : TokenKind) : Parser Bool := do
  let c ← get
  return c.nextIs first && c.kindAt 1 == some second

/-- Goes past the next `n` tokens. -/
def skip (n : Nat) : Parser Unit := modify (·.skip n)

/-- Reads a token of the kind if it comes next, and says whether it did. -/
def eat (kind : TokenKind) : Parser Bool := do
  if ← nextIs kind then
    modify (·.advance)
    return true
  else return false

/-- Reads a token of the kind. -/
def expect (kind : TokenKind) : Parser Token := do
  match (← get).rest with
  | t :: _ =>
    if t.kind = kind then
      modify (·.advance)
      return t
    else fail ("expected " ++ kind.name)
  | [] => fail ("expected " ++ kind.name)

/-- Where the next token starts. -/
def offset : Parser Nat := return (← get).offset

/-- From `start` to the end of the last token read. -/
def rangeFrom (start : Nat) : Parser TextRange := return (← get).rangeFrom start

/-- Reads an identifier. -/
def ident : Parser Ident := do
  let t ← expect .ident
  return ⟨t.text, t.range⟩

/-- Runs `p` without moving the cursor, and says whether it succeeds. -/
def succeeds {α : Type} (p : Parser α) : Parser Bool := fun c =>
  match p c with
  | .ok _ => .ok (true, c)
  | .error _ => .ok (false, c)

/-- Runs `p`, or `recover` from the same place when `p` fails. -/
def orElse {α : Type} (p recover : Parser α) : Parser α := fun c =>
  match p c with
  | .ok r => .ok r
  | .error _ => recover c

/-- At most `n` rounds of `p`, up to the first that answers nothing. -/
def manyUpTo {α : Type} (p : Parser (Option α)) : Nat → Parser (List α)
  | 0 => return []
  | n + 1 => do
    match ← p with
    | none => return []
    | some a => return a :: (← manyUpTo p n)

/-- The answers of `p`, run until it answers nothing. -/
def many {α : Type} (p : Parser (Option α)) : Parser (List α) := do
  manyUpTo p ((← get).rest.length + 1)

/-- At most `n` rounds of `step`, up to the first that answers nothing. -/
def growUpTo {α : Type} (step : α → Parser (Option α)) : Nat → α → Parser α
  | 0, a => return a
  | n + 1, a => do
    match ← step a with
    | none => return a
    | some b => growUpTo step n b

/-- Replaces `a` by the answers of `step` until it answers nothing. -/
def grow {α : Type} (step : α → Parser (Option α)) (a : α) : Parser α := do
  growUpTo step ((← get).rest.length + 1) a

/-- One or more items with commas between them. -/
def sepByComma {α : Type} (item : Parser α) : Parser (List α) := do
  let first ← item
  let others ← many do
    if ← eat Symbol.comma then return some (← item) else return none
  return first :: others

/-- Items up to a closing token, which is read; a text that ends before it has the `message`. -/
def manyUntil {α : Type} (close : TokenKind) (message : String) (item : Parser α) :
    Parser (List α) :=
  many do
    if ← eat close then return none
    else if (← get).rest.isEmpty then fail message
    else return some (← item)

/-- Items in parentheses with commas between them. -/
def parenthesized {α : Type} (item : Parser α) : Parser (List α) := do
  let _ ← expect Symbol.lParen
  if ← eat Symbol.rParen then return []
  let items ← sepByComma item
  let _ ← expect Symbol.rParen
  return items

/-- The tokens after the one that closes the last of `depth` open brackets, with the end of that
token. -/
def afterClosing (opening closing : TokenKind) : Nat → List Token → Option (Nat × List Token)
  | _, [] => none
  | depth, t :: rest =>
    if t.kind = opening then afterClosing opening closing (depth + 1) rest
    else if t.kind = closing then
      if depth ≤ 1 then some (t.range.stop, rest) else afterClosing opening closing (depth - 1) rest
    else afterClosing opening closing depth rest

/-- Reads from an opening token past the token that closes it. -/
def skipBalanced (opening closing : TokenKind) : Parser Unit := do
  let _ ← expect opening
  let c ← get
  match afterClosing opening closing 1 c.rest with
  | some (lastEnd, rest) => set { c with rest := rest, lastEnd := lastEnd }
  | none => throw ⟨"unbalanced " ++ opening.name, c.textEnd⟩

/-- Reads type arguments, if some come next. -/
def typeArguments : Parser Unit := do
  if ← nextIs Symbol.lt then skipBalanced Symbol.lt Symbol.gt

/-- The tokens from the next `;` or `,`, or from the `}`, that lies in no brackets opened on the
way, with the end of the token before it. -/
def declaratorEnd (lastEnd : Nat) : (depth : Nat) → List Token → Nat × List Token
  | _, [] => (lastEnd, [])
  | depth, t :: rest =>
    match t.kind, depth with
    | .symbol .lParen, _ | .symbol .lBrace, _ | .symbol .lBracket, _ =>
      declaratorEnd t.range.stop (depth + 1) rest
    | .symbol .rBrace, 0 | .symbol .semi, 0 | .symbol .comma, 0 => (lastEnd, t :: rest)
    | .symbol .rParen, _ | .symbol .rBracket, _ | .symbol .rBrace, _ =>
      declaratorEnd t.range.stop (depth - 1) rest
    | _, _ => declaratorEnd t.range.stop depth rest

/-- Goes to the end of a declarator whose value cannot be read. -/
def skipToDeclaratorEnd : Parser Unit :=
  modify fun c =>
    let (lastEnd, rest) := declaratorEnd c.lastEnd 0 c.rest
    { c with rest := rest, lastEnd := lastEnd }

end Parser

end SourceSearch
