/-!
# Byte ranges, lines and slices of a text

Places in a source text are counted in bytes of its UTF-8 form. `TextRange` is a half-open stretch
of bytes, `LineStarts` turns an offset into a line and a column, and `slice` cuts a stretch out of
the text when both ends fall between characters.
-/

set_option autoImplicit false

namespace SourceSearch

/-- A stretch of bytes `[start, stop)` of a source text. -/
structure TextRange where
  start : Nat
  stop : Nat
  start_le_stop : start ≤ stop := by omega
  deriving DecidableEq, Repr

namespace TextRange

instance : Inhabited TextRange := ⟨{ start := 0, stop := 0 }⟩

/-- The range from `start` to `stop`, empty at `start` when `stop` lies before it. -/
def upTo (start stop : Nat) : TextRange :=
  { start := start, stop := max stop start }

/-- The range of `length` bytes at `start`. -/
def ofLength (start length : Nat) : TextRange :=
  { start := start, stop := start + length }

/-- The smallest range that holds both ranges. -/
def cover (a b : TextRange) : TextRange :=
  { start := min a.start b.start, stop := max a.stop b.stop,
    start_le_stop := by have := a.start_le_stop; omega }

/-- Every byte of `b` lies in `a`, and so does its end. -/
def encloses (a b : TextRange) : Bool :=
  decide (a.start ≤ b.start ∧ b.stop ≤ a.stop)

end TextRange

/-- The number of bytes of a list of characters. -/
def byteLength (cs : List Char) : Nat :=
  cs.foldr (fun c n => c.utf8Size + n) 0

@[simp] theorem byteLength_nil : byteLength [] = 0 := rfl

@[simp] theorem byteLength_cons (c : Char) (cs : List Char) :
    byteLength (c :: cs) = c.utf8Size + byteLength cs := rfl

/-- What is left after `n` bytes; nothing when byte `n` is inside a character or past the end. -/
def dropBytes? : Nat → List Char → Option (List Char)
  | 0, cs => some cs
  | _ + 1, [] => none
  | n + 1, c :: cs => if c.utf8Size ≤ n + 1 then dropBytes? (n + 1 - c.utf8Size) cs else none

/-- The first `n` bytes; nothing when byte `n` is inside a character or past the end. -/
def takeBytes? : Nat → List Char → Option (List Char)
  | 0, _ => some []
  | _ + 1, [] => none
  | n + 1, c :: cs =>
    if c.utf8Size ≤ n + 1 then (takeBytes? (n + 1 - c.utf8Size) cs).map (c :: ·) else none

/-- The characters of `text` in `range`, unless an end is outside the text or inside a character. -/
def slice (text : String) (range : TextRange) : Option String :=
  (dropBytes? range.start text.toList).bind fun rest =>
    (takeBytes? (range.stop - range.start) rest).map String.ofList

/-- A line and a column, both counted from zero, the column in bytes. -/
structure LineCol where
  line : Nat
  col : Nat
  deriving DecidableEq, Repr

/-- People count lines and columns from one. -/
def LineCol.display (p : LineCol) : String :=
  toString (p.line + 1) ++ ":" ++ toString (p.col + 1)

/-- The offsets at which the lines of a text start, in ascending order, the first of them zero. -/
structure LineStarts where
  tail : List Nat
  deriving DecidableEq, Repr

namespace LineStarts

/-- Offsets just after the newlines of `cs`, whose first byte has offset `offset`. -/
def afterNewlines (offset : Nat) : List Char → List Nat
  | [] => []
  | c :: cs =>
    if c = '\n' then (offset + 1) :: afterNewlines (offset + 1) cs
    else afterNewlines (offset + c.utf8Size) cs

/-- The table of a text. -/
def ofText (text : String) : LineStarts := ⟨afterNewlines 0 text.toList⟩

/-- All line starts. -/
def toList (lines : LineStarts) : List Nat := 0 :: lines.tail

/-- The number of lines; a text without a newline has one. -/
def count (lines : LineStarts) : Nat := lines.toList.length

/-- The last line that starts at or before `offset`, and how far `offset` lies behind that start. -/
def lineCol (lines : LineStarts) (offset : Nat) : LineCol :=
  let before := lines.tail.takeWhile (· ≤ offset)
  { line := before.length, col := offset - before.getLast?.getD 0 }

end LineStarts

end SourceSearch
