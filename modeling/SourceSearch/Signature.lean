import SourceSearch.Identity
import SourceSearch.Text.Blank

/-!
# Signatures of parameter types

A parameter type can be written as in source text (`java.lang.Object`, `int[]`, `X...`) or as a
descriptor (`Ljava.lang.Object;`, `[I`). Both are reduced to the simple name with array brackets.
-/

set_option autoImplicit false

namespace SourceSearch.Signature

/-- The class name inside `QName;`, `Lpkg.Name;` or `TVar;`. -/
def descriptorClass? (cs : List Char) : Option (List Char) :=
  match Text.dropEnding? [';'] cs with
  | some (mark :: name) =>
    if (mark == 'Q' || mark == 'L' || mark == 'T') && !name.isEmpty then some name else none
  | _ => none

/-- The primitive type of a one-letter descriptor. -/
def descriptorPrimitive? : List Char → Option String
  | ['B'] => some "byte"
  | ['C'] => some "char"
  | ['D'] => some "double"
  | ['F'] => some "float"
  | ['I'] => some "int"
  | ['J'] => some "long"
  | ['S'] => some "short"
  | ['Z'] => some "boolean"
  | ['V'] => some "void"
  | _ => none

/-- The name without type arguments, package and outer types. -/
def simpleName (cs : List Char) : List Char :=
  Text.afterLast (fun c => c == '.' || c == '/' || c == '$') (cs.takeWhile (· != '<'))

/-- Takes pairs of brackets off the end and counts them, in at most `fuel` rounds. -/
def dropBrackets : (fuel : Nat) → List Char → List Char × Nat
  | 0, cs => (cs, 0)
  | fuel + 1, cs =>
    match Text.dropEnding? ['[', ']'] cs with
    | some rest =>
      let (name, dims) := dropBrackets fuel rest
      (name, dims + 1)
    | none => (cs, 0)

/-- The name of a type in source form and its array dimensions. -/
def sourceForm (cs : List Char) : List Char × Nat :=
  let (name, dims) := dropBrackets cs.length cs
  match Text.dropEnding? ['.', '.', '.'] name with
  | some element => (element, dims + 1)
  | none => (name, dims)

/-- The simple name with array brackets. -/
def erase (signature : String) : String :=
  let cs := trimBlank signature.toList
  let opening := (cs.takeWhile (· == '[')).length
  let rest := cs.drop opening
  let (name, dims) :=
    match descriptorClass? rest, descriptorPrimitive? rest with
    | some name, _ => (simpleName name, 0)
    | none, some primitive => (primitive.toList, 0)
    | none, none =>
      let (name, dims) := sourceForm rest
      (simpleName name, dims)
  String.ofList (name ++ (List.replicate (opening + dims) ['[', ']']).flatten)

end SourceSearch.Signature

namespace SourceSearch

/-- The handle of a method, its parameter types given as signatures. -/
def MethodHandle.ofSignatures (owner : TypeKey) (selector : String) (signatures : List String) :
    MethodHandle :=
  ⟨owner, selector, signatures.map Signature.erase⟩

end SourceSearch
