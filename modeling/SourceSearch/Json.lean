/-!
# JSON values

Values as they stand in a text, with the members of an object in order and repetitions kept. A
string with half of a surrogate pair has no text, and a number can be too large for a double; both
are values all the same, and matter only to those who look at them.
-/

set_option autoImplicit false

namespace SourceSearch

/-- A value of a JSON text. -/
inductive Json
  | null
  | bool (value : Bool)
  | number (finite : Bool)
  | string (text : Option String)
  | array (items : List Json)
  | object (members : List (Option String × Json))

namespace Json

/-- A string with that text. -/
def ofText (text : String) : Json := .string (some text)

/-- An array of strings. -/
def ofTexts (texts : List String) : Json := .array (texts.map ofText)

/-- An object with the named members. -/
def ofMembers (members : List (String × Json)) : Json :=
  .object (members.map fun m => (some m.1, m.2))

mutual

/-- Whether all strings of a value have a text, all its numbers are finite, and no more than `limit`
arrays and objects stand around each other. -/
def isPlain (limit : Nat) : Json → Bool
  | .null => true
  | .bool _ => true
  | .number finite => finite
  | .string text => text.isSome
  | .array items =>
    match limit with
    | 0 => false
    | limit + 1 => arePlain limit items
  | .object members =>
    match limit with
    | 0 => false
    | limit + 1 => membersArePlain limit members

/-- Whether the items of an array are plain. -/
def arePlain (limit : Nat) : List Json → Bool
  | [] => true
  | item :: items => item.isPlain limit && arePlain limit items

/-- Whether the names and the values of the members of an object are plain. -/
def membersArePlain (limit : Nat) : List (Option String × Json) → Bool
  | [] => true
  | (name, value) :: members =>
    name.isSome && value.isPlain limit && membersArePlain limit members

end

end Json

end SourceSearch
