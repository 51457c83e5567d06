import SourceSearch.Parser.Statements
import SourceSearch.Token.Lexer

/-!
# Declarations

Declarations have to parse; what is inside them need not. A body that does not parse is skipped to
its closing brace, and an initial value that does not parse is skipped to the end of its declarator,
so that one statement out of the grammar does not hide the declarations around it.
-/

set_option autoImplicit false

namespace SourceSearch.Parser

/-- Reads an enum constant. One with arguments or a body is given a value that creates it. -/
def enumConstant (g : Grammar) (enumName : String) : Parser Member := do
  let start ← offset
  let _ ← many do
    if ← nextIs Symbol.at then
      annotation
      return some ()
    else return none
  let name ← ident
  let args ← if ← nextIs Symbol.lParen then arguments g else pure []
  let body ← if ← nextIs Symbol.lBrace then some <$> classBody g "" else pure none
  let range ← rangeFrom start
  let type : TypeRef := ⟨[enumName], 0, name.range⟩
  let init : Option Expr :=
    if args.isEmpty && body.isNone then none else some ⟨.new type args body, range⟩
  return .field ⟨{ isPublic := true, isStatic := true, isFinal := true }, type, name, true, range⟩
    init

/-- Reads the constants at the start of an enum's body. -/
def enumConstants (g : Grammar) (enumName : String) : Parser (List Member) := do
  let constants ← many do
    if (← nextIs Symbol.semi) || (← nextIs Symbol.rBrace) then return none
    else
      let constant ← enumConstant g enumName
      if !(← eat Symbol.comma) && !(← nextIs Symbol.rBrace) && !(← nextIs Symbol.semi) then
        let _ ← expect Symbol.semi
      return some constant
  let _ ← eat Symbol.semi
  return constants

/-- Reads the members of an enum in braces. -/
def enumBody (g : Grammar) (enumName : String) : Parser (List Member) := do
  let _ ← expect Symbol.lBrace
  let constants ← enumConstants g enumName
  let members ← manyUntil Symbol.rBrace "unterminated type body" (g.member enumName)
  return constants ++ members.flatten

/-- Reads the word or words that open a type declaration. -/
def typeDeclKind : Parser TypeDeclKind := do
  match (← get).kind? with
  | some (.keyword .classKw) => skip 1; return .classDecl
  | some (.keyword .interfaceKw) => skip 1; return .interfaceDecl
  | some (.keyword .enumKw) => skip 1; return .enumDecl
  | some (.symbol .at) =>
    skip 1
    let _ ← expect Keyword.interfaceKw
    return .interfaceDecl
  | _ =>
    skip 1
    fail "expected type declaration"

/-- Reads the superclass and the interfaces of a type. -/
def supertypes (kind : TypeDeclKind) : Parser (Option TypeRef × List TypeRef) := do
  let (superclass, extended) ←
    if ← eat Keyword.extendsKw then
      if kind = .interfaceDecl then (fun types => (none, types)) <$> typeList
      else (fun type => (some type, [])) <$> typeRef
    else pure (none, [])
  let implemented ← if ← eat Keyword.implementsKw then typeList else pure []
  return (superclass, extended ++ implemented)

/-- Reads a type declaration whose modifiers are read and which starts at `start`. -/
def typeDecl (g : Grammar) (mods : Modifiers) (start : Nat) : Parser TypeDecl := do
  let kind ← typeDeclKind
  let name ← ident
  typeArguments
  let (superclass, interfaces) ← supertypes kind
  let members ← if kind = .enumDecl then enumBody g name.text else classBody g name.text
  return ⟨⟨kind, mods, name, superclass, interfaces, ← rangeFrom start⟩, members⟩

/-- Reads a method body, or skips one that does not parse. -/
def methodBody (g : Grammar) : Parser MethodBody := do
  if ← eat Symbol.semi then return .absent
  else if ← eat Modifier.defaultMod then
    skipToDeclaratorEnd
    let _ ← expect Symbol.semi
    return .absent
  else
    orElse (.block <$> block g) do
      let start ← offset
      skipBalanced Symbol.lBrace Symbol.rBrace
      return .unparsed (← rangeFrom start)

/-- Reads a method from its parameters on. -/
def methodRest (g : Grammar) (mods : Modifiers) (returnType : Option TypeRef) (name : Ident)
    (start : Nat) : Parser Member := do
  let parameters ← params
  let extra ← dims
  let throws ← if ← eat Keyword.throwsKw then typeList else pure []
  let body ← methodBody g
  return .method
    ⟨mods, returnType.map (·.addDims extra), name, parameters, throws, ← rangeFrom start⟩ body

/-- Reads an initial value, or skips one that does not parse. -/
def fieldValue (g : Grammar) : Parser (Option Expr) :=
  orElse (some <$> g.initializer) do
    skipToDeclaratorEnd
    return none

/-- Reads what follows the name of a field. -/
def fieldRest (g : Grammar) (mods : Modifiers) (type : TypeRef) (start : Nat) (name : Ident) :
    Parser Member := do
  let extra ← dims
  let init ← if ← eat Symbol.eq then fieldValue g else pure none
  return .field ⟨mods, type.addDims extra, name, false, ← rangeFrom start⟩ init

/-- Reads the fields of one declaration, the name of the first one being read. -/
def fieldsRest (g : Grammar) (mods : Modifiers) (type : TypeRef) (start : Nat) (name : Ident) :
    Parser (List Member) := do
  let first ← fieldRest g mods type start name
  let others ← many do
    if ← eat Symbol.comma then
      return some (← fieldRest g mods type start (← ident))
    else return none
  let _ ← expect Symbol.semi
  return first :: others

/-- Whether a constructor of the named type comes next, its modifiers being read. -/
def nextIsConstructor (typeName : String) : Parser Bool := do
  return (← nextAre .ident Symbol.lParen) && (← get).rest.head?.any (·.text == typeName)

/-- Reads one declaration of a type's body, which can declare several fields or nothing at all. -/
def member (g : Grammar) (typeName : String) : Parser (List Member) := do
  if ← eat Symbol.semi then return []
  else
    let start ← offset
    if (← nextIs Symbol.lBrace) || (← nextAre Modifier.staticMod Symbol.lBrace) then
      let isStatic ← eat Modifier.staticMod
      let body ← block g
      return [.initializer isStatic body (← rangeFrom start)]
    else
      let mods ← modifiers
      if ← nextIsTypeDecl then return [.type (← typeDecl g mods start)]
      else
        typeArguments
        if ← nextIsConstructor typeName then
          let name ← ident
          return [← methodRest g mods none name start]
        else
          let type ← typeRef
          let name ← ident
          if ← nextIs Symbol.lParen then return [← methodRest g mods (some type) name start]
          else fieldsRest g mods type start name

/-- Reads a statement. -/
def stmt (g : Grammar) : Parser Stmt := do
  let c ← get
  match c.kind? with
  | none => fail "expected statement"
  | some (.symbol .lBrace) => return .block (← block g)
  | some (.symbol .semi) => skip 1; return .empty
  | some (.keyword k) =>
    match keywordStmt? g k with
    | some rest => skip 1; rest
    | none => plainStmt g (typeDecl g)
  | some kind =>
    if kind = .ident ∧ c.kindAt 1 = some (.symbol .colon) then
      skip 2
      g.stmt
    else if kind = .modifier .synchronizedMod ∧ c.kindAt 1 = some (.symbol .lParen) then
      skip 1
      let lock ← parenExpr g
      return .synchronized lock (← block g)
    else plainStmt g (typeDecl g)

/-- The readers over the readers that go further inside. -/
def Grammar.step (g : Grammar) : Grammar where
  expr := Parser.expr g
  conditional := Parser.conditional g
  binary := Parser.binary g
  unary := Parser.unary g
  initializer := Parser.initializer g
  stmt := Parser.stmt g
  member := Parser.member g

/-- The grammar of texts that nest at most `depth` deep. -/
def Grammar.ofDepth : (depth : Nat) → Grammar
  | 0 => .empty
  | depth + 1 => (ofDepth depth).step

/-- Reads the package declaration, if there is one. -/
def packageDecl? : Parser (Option PackageDecl) := do
  let before ← get
  let _ ← modifiers
  if ← eat Keyword.packageKw then
    let start ← offset
    let segments ← qualifiedName
    let range ← rangeFrom start
    let _ ← expect Symbol.semi
    return some ⟨segments, range⟩
  else
    set before
    return none

/-- Reads an import, if one comes next. -/
def importDecl? : Parser (Option ImportDecl) := do
  if ← eat Keyword.importKw then
    let isStatic ← eat Modifier.staticMod
    let start ← offset
    let segments ← qualifiedName
    let onDemand ← nextAre Symbol.dot Symbol.star
    if onDemand then skip 2
    let range ← rangeFrom start
    let _ ← expect Symbol.semi
    return some ⟨segments, onDemand, isStatic, range⟩
  else return none

/-- Reads a type declaration at the top of a unit, or a semicolon between two of them; nothing at
the end of the text. -/
def topLevel? (g : Grammar) : Parser (Option (List TypeDecl)) := do
  if (← get).rest.isEmpty then return none
  else if ← eat Symbol.semi then return some []
  else
    let start ← offset
    let mods ← modifiers
    return some [← typeDecl g mods start]

/-- Reads a whole unit. -/
def compilationUnit (g : Grammar) : Parser CompilationUnit := do
  let package ← packageDecl?
  let imports ← many importDecl?
  let types ← many (topLevel? g)
  return ⟨package, imports, types.flatten⟩

end SourceSearch.Parser

namespace SourceSearch

/-- The tree of a text, or the first error in its declarations. -/
def parse (text : String) : Except ParseError CompilationUnit :=
  match tokenize text with
  | .error e => .error ⟨"unexpected character", e.offset⟩
  | .ok tokens =>
    (Parser.compilationUnit (.ofDepth (tokens.length + 1))).run' ⟨tokens, 0, text.utf8ByteSize⟩

end SourceSearch
