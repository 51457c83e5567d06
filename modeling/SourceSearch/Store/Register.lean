/-!
# Registers

A register holds values under names in the order in which the names first came. A name that gets
another value keeps its place.
-/

set_option autoImplicit false

namespace SourceSearch

/-- Values under names, in the order of the names' first appearance. -/
structure Register (α : Type) where
  entries : List (String × α)
  deriving DecidableEq, Repr

namespace Register

variable {α : Type}

/-- The register without entries. -/
def empty : Register α := ⟨[]⟩

/-- The value under a name. -/
def get? (register : Register α) (name : String) : Option α := register.entries.lookup name

/-- Whether there is a value under the name. -/
def contains (register : Register α) (name : String) : Bool := (register.get? name).isSome

/-- The values, in order. -/
def values (register : Register α) : List α := register.entries.map (·.2)

/-- Puts a value under a name, at the end unless the name is known. -/
def insert (register : Register α) (name : String) (value : α) : Register α :=
  if register.contains name then
    ⟨register.entries.map fun e => if e.1 = name then (name, value) else e⟩
  else ⟨register.entries ++ [(name, value)]⟩

end Register

end SourceSearch
