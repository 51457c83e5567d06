import SourceSearch.Parser.Cursor

/-!
# Names, written types and modifiers

The parts of declarations that hold neither expressions nor statements.
-/

set_option autoImplicit false

namespace SourceSearch.Parser

/-- Reads `.name`, if both tokens come next. -/
def dottedName? : Parser (Option String) := do
  if ← nextAre Symbol.dot .ident then
    skip 1
    return some (← ident).text
  else return none

/-- Reads identifiers with dots between them. -/
def qualifiedName : Parser (List String) := do
  let first ← ident
  return first.text :: (← many dottedName?)

/-- Reads pairs of empty brackets and counts them. -/
def dims : Parser Nat := do
  let pairs ← many do
    if ← nextAre Symbol.lBracket Symbol.rBracket then
      skip 2
      return some ()
    else return none
  return pairs.length

/-- Reads a type without array brackets behind it. -/
def elementType : Parser TypeRef := do
  let start ← offset
  match (← get).rest with
  | ⟨.primitive _, text, range⟩ :: _ =>
    skip 1
    return ⟨[text], 0, range⟩
  | _ =>
    let first ← ident
    typeArguments
    let others ← many do
      match ← dottedName? with
      | some name =>
        typeArguments
        return some name
      | none => return none
    return ⟨first.text :: others, 0, ← rangeFrom start⟩

/-- Reads a type. -/
def typeRef : Parser TypeRef := do
  let element ← elementType
  return { element with dims := ← dims }

/-- Reads types with commas between them. -/
def typeList : Parser (List TypeRef) := sepByComma typeRef

/-- Reads an annotation. -/
def annotation : Parser Unit := do
  let _ ← expect Symbol.at
  let _ ← qualifiedName
  if ← nextIs Symbol.lParen then skipBalanced Symbol.lParen Symbol.rParen

/-- Reads one more modifier or annotation, if one comes next. The word `default` before a colon is a
label and no modifier. -/
def modifier? (mods : Modifiers) : Parser (Option Modifiers) := do
  let c ← get
  match c.kind? with
  | some (.symbol .at) =>
    if c.kindAt 1 == some (.keyword .interfaceKw) then return none
    else
      annotation
      return some mods
  | some (.modifier m) =>
    if m = .defaultMod ∧ c.kindAt 1 = some (.symbol .colon) then return none
    else
      skip 1
      return some (mods.add m)
  | _ => return none

/-- Reads modifiers and annotations. -/
def modifiers : Parser Modifiers := grow modifier? {}

/-- Whether a type declaration comes next, its modifiers being read. -/
def nextIsTypeDecl : Parser Bool := do
  let c ← get
  match c.kind? with
  | some (.keyword .classKw) | some (.keyword .interfaceKw) | some (.keyword .enumKw) => return true
  | some (.symbol .at) => return c.kindAt 1 == some (.keyword .interfaceKw)
  | _ => return false

/-- Reads a parameter of a method. -/
def param : Parser Param := do
  let _ ← modifiers
  let type ← typeRef
  let isVarargs ← eat Symbol.ellipsis
  let name ← ident
  let extra ← dims
  return ⟨type.addDims (extra + if isVarargs then 1 else 0), name, isVarargs⟩

/-- Reads the parameters of a method. -/
def params : Parser (List Param) := parenthesized param

/-- Whether a type, a name and a token that continues a declaration come next. -/
def nextIsLocalDecl : Parser Bool :=
  succeeds do
    let _ ← typeRef
    let _ ← ident
    let c ← get
    match c.kind? with
    | some (.symbol .eq) | some (.symbol .semi) | some (.symbol .comma)
    | some (.symbol .lBracket) | some (.symbol .colon) => return ()
    | _ => fail "expected local declaration"

end SourceSearch.Parser
