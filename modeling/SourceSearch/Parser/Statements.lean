import SourceSearch.Parser.Expressions

/-!
# Statements

A statement is told by its first token. What starts with none of the words of statements is a local
class, a local declaration or an expression: the first when the word of a type declaration follows
the modifiers, the second when there are modifiers or when a type, a name and a token that continues
a declaration stand next.
-/

set_option autoImplicit false

namespace SourceSearch.Parser

/-- Reads an expression in parentheses. -/
def parenExpr (g : Grammar) : Parser Expr := do
  let _ ← expect Symbol.lParen
  let e ← g.expr
  let _ ← expect Symbol.rParen
  return e

/-- Reads one variable of a local declaration. -/
def localVar (g : Grammar) (type : TypeRef) : Parser LocalVar := do
  let name ← ident
  let extra ← dims
  let init ← if ← eat Symbol.eq then some <$> g.initializer else pure none
  return ⟨type.addDims extra, name, init⟩

/-- Reads a type and the variables of that type. -/
def localVars (g : Grammar) : Parser (List LocalVar) := do
  let type ← typeRef
  sepByComma (localVar g type)

/-- Reads modifiers, and says whether there were any. -/
def modifiersRead : Parser (Modifiers × Bool) := do
  let before := (← get).rest.length
  let mods ← modifiers
  return (mods, (← get).rest.length != before)

/-- Reads the head of a loop over a collection up to the colon. -/
def forEachVar : Parser LocalVar := do
  let _ ← modifiers
  let type ← typeRef
  let name ← ident
  return ⟨type, name, none⟩

/-- Reads the first part of the head of a loop, which is not empty and does not run over a
collection. -/
def forInit (g : Grammar) (isDecl : Bool) : Parser (List Stmt) := do
  if isDecl then
    let _ ← modifiers
    return [.locals (← localVars g)]
  else
    return (← sepByComma g.expr).map .expr

/-- Reads a loop that counts, after its opening parenthesis. -/
def countingLoop (g : Grammar) (isDecl : Bool) : Parser Stmt := do
  let init ← if ← nextIs Symbol.semi then pure [] else forInit g isDecl
  let _ ← expect Symbol.semi
  let cond ← if ← nextIs Symbol.semi then pure none else some <$> g.expr
  let _ ← expect Symbol.semi
  let update ← if ← nextIs Symbol.rParen then pure [] else sepByComma g.expr
  let _ ← expect Symbol.rParen
  return .for init cond update (← g.stmt)

/-- Reads a loop after the word `for`. -/
def forLoop (g : Grammar) : Parser Stmt := do
  let _ ← expect Symbol.lParen
  if ← nextIs Symbol.semi then countingLoop g false
  else
    let start ← get
    let (_, anyModifier) ← modifiersRead
    if anyModifier || (← nextIsLocalDecl) then
      set start
      let var ← forEachVar
      if ← eat Symbol.colon then
        let iterable ← g.expr
        let _ ← expect Symbol.rParen
        return .forEach var iterable (← g.stmt)
      else
        set start
        countingLoop g true
    else countingLoop g false

/-- Reads the resources of a try statement, if there are any. -/
def resources (g : Grammar) : Parser (List Stmt) := do
  if ← eat Symbol.lParen then
    let declared ← many do
      if ← nextIs Symbol.rParen then return none
      else
        let _ ← modifiers
        let vars ← localVars g
        if !(← eat Symbol.semi) && !(← nextIs Symbol.rParen) then
          let _ ← expect Symbol.rParen
        return some (.locals vars)
    let _ ← expect Symbol.rParen
    return declared
  else return []

/-- Reads a handler, if one comes next. Of several types it keeps the first. -/
def catchClause? (g : Grammar) : Parser (Option CatchClause) := do
  if ← eat Keyword.catchKw then
    let _ ← expect Symbol.lParen
    let _ ← modifiers
    let type ← typeRef
    let _ ← many do
      if ← eat Symbol.pipe then return some (← typeRef) else return none
    let name ← ident
    let _ ← expect Symbol.rParen
    return some ⟨⟨type, name, false⟩, ← block g⟩
  else return none

/-- Reads a try statement after its word. -/
def tryStmt (g : Grammar) : Parser Stmt := do
  let declared ← resources g
  let body ← block g
  let catches ← many (catchClause? g)
  let cleanup ← if ← eat Keyword.finallyKw then some <$> block g else pure none
  if catches.isEmpty && cleanup.isNone then fail "try without catch or finally"
  else return .try { body with stmts := declared ++ body.stmts } catches cleanup

/-- Reads a label of a switch or one more statement of its last group; the groups stand last first.
-/
def switchPart? (g : Grammar) (cases : List SwitchCase) : Parser (Option (List SwitchCase)) := do
  if ← eat Symbol.rBrace then return none
  else if ← eat Keyword.caseKw then
    let labels ← sepByComma g.conditional
    let _ ← expect Symbol.colon
    return some (⟨labels, []⟩ :: cases)
  else if ← eat Modifier.defaultMod then
    let _ ← expect Symbol.colon
    return some (⟨[], []⟩ :: cases)
  else
    let stmt ← g.stmt
    match cases with
    | [] => fail "statement before first case label"
    | last :: others => return some (⟨last.labels, last.body ++ [stmt]⟩ :: others)

/-- Reads a switch after its word. -/
def switchStmt (g : Grammar) : Parser Stmt := do
  let selector ← parenExpr g
  let _ ← expect Symbol.lBrace
  return .switch selector (← grow (switchPart? g) []).reverse

/-- Reads the end of a jump, with or without the label it goes to. -/
def jumpEnd : Parser Unit := do
  let _ ← eat .ident
  let _ ← expect Symbol.semi

/-- Reads a statement that starts with the keyword, which is read, if there is such a statement. -/
def keywordStmt? (g : Grammar) : Keyword → Option (Parser Stmt)
  | .ifKw => some do
    let cond ← parenExpr g
    let thenBranch ← g.stmt
    let elseBranch ← if ← eat Keyword.elseKw then some <$> g.stmt else pure none
    return .ifThen cond thenBranch elseBranch
  | .whileKw => some do
    let cond ← parenExpr g
    return .while cond (← g.stmt)
  | .doKw => some do
    let body ← g.stmt
    let _ ← expect Keyword.whileKw
    let cond ← parenExpr g
    let _ ← expect Symbol.semi
    return .doWhile body cond
  | .forKw => some (forLoop g)
  | .returnKw => some do
    let value ← if ← nextIs Symbol.semi then pure none else some <$> g.expr
    let _ ← expect Symbol.semi
    return .return value
  | .throwKw => some do
    let value ← g.expr
    let _ ← expect Symbol.semi
    return .throw value
  | .breakKw => some do
    jumpEnd
    return .break
  | .continueKw => some do
    jumpEnd
    return .continue
  | .tryKw => some (tryStmt g)
  | .switchKw => some (switchStmt g)
  | .assertKw => some do
    let cond ← g.expr
    let message ← if ← eat Symbol.colon then some <$> g.expr else pure none
    let _ ← expect Symbol.semi
    return .assert cond message
  | _ => none

/-- Reads a local class, a local declaration or an expression, with the token that ends it. The
reader of type declarations is given. -/
def plainStmt (g : Grammar) (typeDecl : Modifiers → Nat → Parser TypeDecl) : Parser Stmt := do
  let start ← offset
  let (mods, anyModifier) ← modifiersRead
  if ← nextIsTypeDecl then return .localClass (← typeDecl mods start)
  else if anyModifier || (← nextIsLocalDecl) then
    let vars ← localVars g
    let _ ← expect Symbol.semi
    return .locals vars
  else
    let e ← g.expr
    let _ ← expect Symbol.semi
    return .expr e

end SourceSearch.Parser
