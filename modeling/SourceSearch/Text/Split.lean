/-!
# Splitting texts at a character

Names are dotted and paths are slashed. A text without the separator is one part, so the parts of
the empty text are one empty part.
-/

set_option autoImplicit false

namespace SourceSearch.Text

/-- The parts between separators. -/
def splitAtChar (sep : Char) : List Char → List (List Char)
  | [] => [[]]
  | c :: cs =>
    if c = sep then [] :: splitAtChar sep cs
    else
      match splitAtChar sep cs with
      | [] => [[c]]
      | part :: parts => (c :: part) :: parts

/-- The characters after the last one that satisfies `p`; all of them when none does. -/
def afterLast (p : Char → Bool) (cs : List Char) : List Char :=
  (cs.reverse.takeWhile (!p ·)).reverse

/-- The characters before the last one that satisfies `p`; none of them when none does. -/
def beforeLast (p : Char → Bool) (cs : List Char) : List Char :=
  ((cs.reverse.dropWhile (!p ·)).drop 1).reverse

/-- The parts of `text` between separators. -/
def split (sep : Char) (text : String) : List String :=
  (splitAtChar sep text.toList).map String.ofList

/-- The part after the last dot. -/
def lastSegment (name : String) : String := String.ofList (afterLast (· == '.') name.toList)

/-- What stands before the last dot, nothing when there is no dot. -/
def qualifier (name : String) : String := String.ofList (beforeLast (· == '.') name.toList)

/-- `name` inside `outer`; the empty outer name adds nothing. -/
def qualify (outer name : String) : String :=
  if outer = "" then name else outer ++ "." ++ name

/-- Takes `suffix` off the end, if it is there. -/
def dropEnding? (suffix cs : List Char) : Option (List Char) :=
  if suffix.isSuffixOf cs then some (cs.take (cs.length - suffix.length)) else none

theorem splitAtChar_ne_nil (sep : Char) (cs : List Char) : splitAtChar sep cs ≠ [] := by
  induction cs with
  | nil => simp [splitAtChar]
  | cons c cs ih =>
    simp only [splitAtChar]
    split
    · simp
    · split <;> simp

end SourceSearch.Text
