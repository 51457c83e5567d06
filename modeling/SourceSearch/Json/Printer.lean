import SourceSearch.Json

/-!
# Writing JSON

Values are laid out over lines with two blanks for each level; an empty array or object takes no
lines. In strings only quotes, backslashes and control characters are escaped.
-/

set_option autoImplicit false

namespace SourceSearch.Json

/-- A hexadecimal digit, in lower case. -/
def hexDigit (n : Nat) : Char := if n < 10 then Char.ofNat (48 + n) else Char.ofNat (87 + n)

/-- A character inside a string. -/
def escapeChar (c : Char) : List Char :=
  if c = '"' then ['\\', '"']
  else if c = '\\' then ['\\', '\\']
  else if c.toNat = 8 then ['\\', 'b']
  else if c.toNat = 9 then ['\\', 't']
  else if c.toNat = 10 then ['\\', 'n']
  else if c.toNat = 12 then ['\\', 'f']
  else if c.toNat = 13 then ['\\', 'r']
  else if c.toNat < 32 then
    ['\\', 'u', '0', '0', hexDigit (c.toNat / 16), hexDigit (c.toNat % 16)]
  else [c]

/-- A string in quotes. -/
def quote (text : String) : List Char :=
  '"' :: text.toList.flatMap escapeChar ++ ['"']

/-- A new line at the level. -/
def newline (level : Nat) : List Char := '\n' :: List.replicate (2 * level) ' '

mutual

/-- The text of a value that stands at the level. -/
def layout (level : Nat) : Json → List Char
  | .null => "null".toList
  | .bool true => "true".toList
  | .bool false => "false".toList
  | .number _ => "0".toList
  | .string text => quote (text.getD "")
  | .array [] => ['[', ']']
  | .array (item :: items) =>
    '[' :: newline (level + 1) ++ item.layout (level + 1) ++ layoutItems (level + 1) items ++
      newline level ++ [']']
  | .object [] => ['\x7b', '\x7d']
  | .object ((name, value) :: members) =>
    '\x7b' :: newline (level + 1) ++ quote (name.getD "") ++ [':', ' '] ++
      value.layout (level + 1) ++ layoutMembers (level + 1) members ++ newline level ++ ['\x7d']

/-- The text of the items after the first. -/
def layoutItems (level : Nat) : List Json → List Char
  | [] => []
  | item :: items => ',' :: newline level ++ item.layout level ++ layoutItems level items

/-- The text of the members after the first. -/
def layoutMembers (level : Nat) : List (Option String × Json) → List Char
  | [] => []
  | (name, value) :: members =>
    ',' :: newline level ++ quote (name.getD "") ++ [':', ' '] ++ value.layout level ++
      layoutMembers level members

end

/-- The text of a value. -/
def print (value : Json) : String := String.ofList (value.layout 0)

end SourceSearch.Json
