import SourceSearch.Declared

/-!
# Static types

The type that an expression has by its declarations alone, and what a name or an expression can
stand for.
-/

set_option autoImplicit false

namespace SourceSearch

/-- The static type of an expression. A named type that nothing declares keeps its simple name. -/
inductive StaticType
  | primitive (name : String)
  | named (key : TypeKey)
  | array (element : StaticType)
  | unresolved (name : String)
  | null
  | unknown
  deriving DecidableEq, Repr

namespace StaticType

/-- The simple name with array brackets, as signatures have it. -/
def erasedName? : StaticType → Option String
  | .primitive name => some name
  | .unresolved name => some name
  | .named key => some key.simpleName
  | .array element => element.erasedName?.map (· ++ "[]")
  | .null => none
  | .unknown => none

/-- The array type of so many dimensions over a type. -/
def arrayOf (type : StaticType) : (dims : Nat) → StaticType
  | 0 => type
  | dims + 1 => .array (type.arrayOf dims)

def describe : StaticType → String
  | .primitive name => name
  | .named key => key.describe
  | .array element => element.describe ++ "[]"
  | .unresolved name => "?" ++ name
  | .null => "null"
  | .unknown => "<unknown>"

end StaticType

/-- What a name or an expression stands for. -/
inductive Meaning
  | value (type : StaticType)
  | type (key : TypeKey)
  | package (name : String)
  | unknown
  deriving DecidableEq, Repr

/-- The type of a value; nothing else has one. -/
def Meaning.staticType : Meaning → StaticType
  | .value t => t
  | _ => .unknown

/-- Local variables with their types, the one declared last first. -/
structure Locals where
  vars : List (String × StaticType)
  deriving DecidableEq, Repr

namespace Locals

/-- No variables. -/
def none : Locals := ⟨[]⟩

/-- Declares a variable, which hides others of its name. -/
def declare (locals : Locals) (name : String) (type : StaticType) : Locals :=
  ⟨(name, type) :: locals.vars⟩

/-- The type of the variable of that name. -/
def get? (locals : Locals) (name : String) : Option StaticType := locals.vars.lookup name

end Locals

end SourceSearch
