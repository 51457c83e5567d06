import SourceSearch.Parser.Grammar

/-!
# Expressions

Operators bind by the usual levels, from `||` at one to `*` at ten, and all of them to the left but
for assignment, the conditional and the operators on one operand. Three questions need more than the
next token: whether parentheses open a lambda, whether they hold the type of a cast, and whether
adjacent angle brackets make a shift or a shifting assignment.
-/

set_option autoImplicit false

namespace SourceSearch

/-- The kind of a number's literal, told by its text. -/
def Literal.ofNumber (text : String) : Literal :=
  let cs := text.toList.map Char.toLower
  let last := cs.getLast?
  if last == some 'l' then .long
  else if ['0', 'x'].isPrefixOf cs then .int
  else if last == some 'f' then .float
  else if last == some 'd' || cs.contains '.' || cs.contains 'e' then .double
  else .int

/-- The names of a chain `a.b.c`. -/
def ExprKind.nameChain? : ExprKind → Option (List String)
  | .name ident => some [ident.text]
  | .fieldAccess ⟨target, _⟩ field => (nameChain? target).map (· ++ [field.text])
  | _ => none

namespace Cursor

/-- Whether the closing parenthesis of the `depth` open ones is followed by an arrow, no statement
or brace being on the way. -/
def arrowFollows : (depth : Nat) → List Token → Bool
  | _, [] => false
  | depth, t :: rest =>
    match t.kind with
    | .symbol .lParen => arrowFollows (depth + 1) rest
    | .symbol .rParen =>
      if depth ≤ 1 then rest.head?.any (·.kind == .symbol .arrow)
      else arrowFollows (depth - 1) rest
    | .symbol .semi | .symbol .lBrace | .symbol .rBrace => false
    | _ => arrowFollows depth rest

/-- Whether a lambda comes next. -/
def nextIsLambda (c : Cursor) : Bool :=
  match c.kind? with
  | some .ident => c.kindAt 1 == some (.symbol .arrow)
  | some (.symbol .lParen) => arrowFollows 0 c.rest
  | _ => false

/-- The number of tokens of the shifting assignment that comes next. -/
def shiftAssignWidth? (c : Cursor) : Option Nat :=
  if c.nextIs Symbol.gt && c.adjacent 0 then
    if c.kindAt 1 == some Symbol.gtEq then some 2
    else if c.kindAt 1 == some Symbol.gt && c.adjacent 1 && c.kindAt 2 == some Symbol.gtEq then
      some 3
    else none
  else none

/-- The number of tokens of the assignment operator that comes next, zero when none does. -/
def assignWidth (c : Cursor) : Nat :=
  match c.shiftAssignWidth?, c.kind? with
  | some width, _ => width
  | none, some (.symbol s) =>
    match s with
    | .eq | .plusEq | .minusEq | .starEq | .slashEq | .percentEq | .ampEq | .pipeEq | .caretEq
    | .shlEq => 1
    | _ => 0
  | none, _ => 0

/-- An operator between operands, or the test of a type. -/
inductive Operator
  | op (op : BinaryOp)
  | instanceOf
  deriving DecidableEq, Repr

/-- The operator that comes next, its level and its number of tokens. -/
def operator? (c : Cursor) : Option (Operator × Nat × Nat) :=
  if c.shiftAssignWidth?.isSome then none
  else
    match c.kind? with
    | some (.keyword .instanceofKw) => some (.instanceOf, 7, 1)
    | some (.symbol s) =>
      match s with
      | .orOr => some (.op .or, 1, 1)
      | .andAnd => some (.op .and, 2, 1)
      | .pipe => some (.op .bitOr, 3, 1)
      | .caret => some (.op .bitXor, 4, 1)
      | .amp => some (.op .bitAnd, 5, 1)
      | .eqEq => some (.op .eq, 6, 1)
      | .notEq => some (.op .notEq, 6, 1)
      | .gt =>
        if c.kindAt 1 == some Symbol.gt && c.adjacent 0 then
          if c.kindAt 2 == some Symbol.gt && c.adjacent 1 then some (.op .ushr, 8, 3)
          else some (.op .shr, 8, 2)
        else some (.op .gt, 7, 1)
      | .lt => some (.op .lt, 7, 1)
      | .ltEq => some (.op .ltEq, 7, 1)
      | .gtEq => some (.op .gtEq, 7, 1)
      | .shl => some (.op .shl, 8, 1)
      | .plus => some (.op .add, 9, 1)
      | .minus => some (.op .sub, 9, 1)
      | .star => some (.op .mul, 10, 1)
      | .slash => some (.op .div, 10, 1)
      | .percent => some (.op .rem, 10, 1)
      | _ => none
    | _ => none

/-- The operator before an operand that comes next. -/
def signOp? (c : Cursor) : Option UnaryOp :=
  match c.kind? with
  | some (.symbol .minus) => some .neg
  | some (.symbol .plus) => some .plus
  | some (.symbol .bang) => some .not
  | some (.symbol .tilde) => some .bitNot
  | some (.symbol .plusPlus) => some .preInc
  | some (.symbol .minusMinus) => some .preDec
  | _ => none

/-- Whether the next token can only start the operand of a cast. -/
def nextIsCastOperand (c : Cursor) : Bool :=
  match c.kind? with
  | some .ident | some .number | some .stringLit | some .charLit => true
  | some (.keyword k) =>
    match k with
    | .trueKw | .falseKw | .nullKw | .thisKw | .superKw | .newKw => true
    | _ => false
  | some (.symbol .lParen) | some (.symbol .bang) | some (.symbol .tilde) => true
  | _ => false

end Cursor

namespace Parser

/-- Reads arguments in parentheses. -/
def arguments (g : Grammar) : Parser (List Expr) := parenthesized g.expr

/-- Reads a block. -/
def block (g : Grammar) : Parser Block := do
  let start ← offset
  let _ ← expect Symbol.lBrace
  let stmts ← manyUntil Symbol.rBrace "unterminated block" g.stmt
  return ⟨stmts, ← rangeFrom start⟩

/-- Reads the items of an array in braces; a comma may follow the last one. -/
def arrayItems (g : Grammar) : Parser (List Expr) := do
  let _ ← expect Symbol.lBrace
  let items ← many do
    if ← nextIs Symbol.rBrace then return none
    else
      let e ← g.initializer
      if !(← eat Symbol.comma) && !(← nextIs Symbol.rBrace) then
        let _ ← expect Symbol.rBrace
      return some e
  let _ ← expect Symbol.rBrace
  return items

/-- Reads an array in braces. -/
def arrayInit (g : Grammar) : Parser Expr := do
  let start ← offset
  let items ← arrayItems g
  return ⟨.arrayInit items, ← rangeFrom start⟩

/-- Reads the members of a class body in braces. -/
def classBody (g : Grammar) (typeName : String) : Parser (List Member) := do
  let _ ← expect Symbol.lBrace
  let members ← manyUntil Symbol.rBrace "unterminated type body" (g.member typeName)
  return members.flatten

/-- Reads what follows `new`, which stands at `start`. -/
def creation (g : Grammar) (start : Nat) : Parser Expr := do
  let type ← elementType
  if ← nextIs Symbol.lBracket then
    let lengths ← many do
      if ← eat Symbol.lBracket then
        if ← eat Symbol.rBracket then return some none
        else
          let length ← g.expr
          let _ ← expect Symbol.rBracket
          return some (some length)
      else return none
    let init ← if ← nextIs Symbol.lBrace then some <$> arrayItems g else pure none
    return ⟨.newArray { type with dims := lengths.length } (lengths.filterMap id) init,
      ← rangeFrom start⟩
  else
    let args ← arguments g
    let body ← if ← nextIs Symbol.lBrace then some <$> classBody g "" else pure none
    return ⟨.new type args body, ← rangeFrom start⟩

/-- Reads an operand without operators on it. -/
def primary (g : Grammar) : Parser Expr := do
  let start ← offset
  let finish (kind : ExprKind) : Parser Expr := do return ⟨kind, ← rangeFrom start⟩
  match (← get).rest with
  | [] => fail "expected expression"
  | ⟨kind, text, range⟩ :: _ =>
    match kind with
    | .number => skip 1; finish (.literal (.ofNumber text))
    | .stringLit => skip 1; finish (.literal .string)
    | .charLit => skip 1; finish (.literal .char)
    | .keyword .trueKw | .keyword .falseKw => skip 1; finish (.literal .boolean)
    | .keyword .nullKw => skip 1; finish (.literal .null)
    | .keyword .thisKw =>
      skip 1
      if ← nextIs Symbol.lParen then finish (.constructorCall false (← arguments g))
      else finish .this
    | .keyword .superKw =>
      skip 1
      if ← nextIs Symbol.lParen then finish (.constructorCall true (← arguments g))
      else finish .super
    | .symbol .lParen =>
      skip 1
      let inner ← g.expr
      let _ ← expect Symbol.rParen
      finish (.paren inner)
    | .keyword .newKw => skip 1; creation g start
    | .ident =>
      skip 1
      if ← nextIs Symbol.lParen then finish (.call none ⟨text, range⟩ (← arguments g))
      else finish (.name ⟨text, range⟩)
    | .primitive _ =>
      let type ← typeRef
      let _ ← expect Symbol.dot
      let _ ← expect Keyword.classKw
      finish (.classLiteral type)
    | _ => fail "expected expression"

/-- Reads what follows the point behind an operand that starts at `start`. -/
def selection (g : Grammar) (start : Nat) (target : Expr) : Parser Expr := do
  let finish (kind : ExprKind) : Parser Expr := do return ⟨kind, ← rangeFrom start⟩
  match (← get).kind? with
  | some (.symbol .lt) =>
    typeArguments
    let name ← ident
    finish (.call (some target) name (← arguments g))
  | some .ident =>
    let name ← ident
    if ← nextIs Symbol.lParen then finish (.call (some target) name (← arguments g))
    else finish (.fieldAccess target name)
  | some (.keyword .classKw) =>
    skip 1
    match target.kind.nameChain? with
    | some segments => finish (.classLiteral ⟨segments, 0, target.range⟩)
    | none => fail "expected type before .class"
  | some (.keyword .thisKw) => skip 1; finish .this
  | some (.keyword .newKw) => primary g
  | _ => fail "expected member name after '.'"

/-- Reads one more selection, index or operator behind an operand that starts at `start`. -/
def suffix? (g : Grammar) (start : Nat) (e : Expr) : Parser (Option Expr) := do
  let finish (kind : ExprKind) : Parser (Option Expr) := do return some ⟨kind, ← rangeFrom start⟩
  match (← get).kind? with
  | some (.symbol .dot) => skip 1; some <$> selection g start e
  | some (.symbol .lBracket) =>
    skip 1
    let index ← g.expr
    let _ ← expect Symbol.rBracket
    finish (.arrayAccess e index)
  | some (.symbol .plusPlus) => skip 1; finish (.unary .postInc e)
  | some (.symbol .minusMinus) => skip 1; finish (.unary .postDec e)
  | some (.symbol .colonColon) =>
    skip 1
    typeArguments
    match (← get).rest with
    | ⟨.keyword .newKw, _, range⟩ :: _ => skip 1; finish (.methodRef e ⟨"new", range⟩)
    | _ => finish (.methodRef e (← ident))
  | _ => return none

/-- Reads an operand and all that stands behind it. -/
def operand (g : Grammar) : Parser Expr := do
  let start ← offset
  grow (suffix? g start) (← primary g)

/-- Reads a lambda parameter in parentheses. -/
def lambdaParam : Parser LambdaParam := do
  if (← nextAre .ident Symbol.comma) || (← nextAre .ident Symbol.rParen) then
    return ⟨none, ← ident⟩
  else
    let _ ← modifiers
    let type ← typeRef
    let name ← ident
    return ⟨some (type.addDims (← dims)), name⟩

/-- Reads a lambda. -/
def lambda (g : Grammar) : Parser Expr := do
  let start ← offset
  let params ← if ← nextIs .ident then (fun name => [⟨none, name⟩]) <$> ident
    else parenthesized lambdaParam
  let _ ← expect Symbol.arrow
  let body ← if ← nextIs Symbol.lBrace then .block <$> block g else .expr <$> g.expr
  return ⟨.lambda params body, ← rangeFrom start⟩

/-- Reads the type of a cast in parentheses. -/
def castType : Parser TypeRef := do
  let _ ← expect Symbol.lParen
  let type ← typeRef
  let _ ← expect Symbol.rParen
  return type

/-- Reads the type of a cast, if a cast comes next. Parentheses around the name of a class make a
cast only before a token that cannot continue an expression. -/
def castType? : Parser (Option TypeRef) := fun c =>
  match c.kindAt 1 with
  | some (.primitive _) => (castType c).map fun (type, after) => (some type, after)
  | some .ident =>
    match castType c with
    | .ok (type, after) =>
      if after.nextIsCastOperand then .ok (some type, after) else .ok (none, c)
    | .error _ => .ok (none, c)
  | _ => .ok (none, c)

/-- Reads an operand with the operators before it. -/
def unary (g : Grammar) : Parser Expr := do
  let start ← offset
  match (← get).signOp? with
  | some op =>
    skip 1
    let e ← g.unary
    return ⟨.unary op e, ← rangeFrom start⟩
  | none =>
    if ← nextIs Symbol.lParen then
      match ← castType? with
      | some type =>
        let e ← if (← get).nextIsLambda then lambda g else g.unary
        return ⟨.cast type e, ← rangeFrom start⟩
      | none => operand g
    else operand g

/-- Reads one more operator of level `least` or above and what is right of it. -/
def operatorTail? (g : Grammar) (least start : Nat) (lhs : Expr) : Parser (Option Expr) := do
  match (← get).operator? with
  | none => return none
  | some (operator, level, width) =>
    if level < least then return none
    else
      skip width
      match operator with
      | .instanceOf =>
        let type ← typeRef
        let _ ← eat .ident
        return some ⟨.instanceOf lhs type, ← rangeFrom start⟩
      | .op op =>
        let rhs ← g.binary (level + 1)
        return some ⟨.binary op lhs rhs, ← rangeFrom start⟩

/-- Reads operands with operators of level `least` or above between them. -/
def binary (g : Grammar) (least : Nat) : Parser Expr := do
  let start ← offset
  grow (operatorTail? g least start) (← unary g)

/-- Reads a condition with its two values, or a plain operation. -/
def conditional (g : Grammar) : Parser Expr := do
  let start ← offset
  let cond ← binary g 0
  if ← eat Symbol.question then
    let thenExpr ← g.expr
    let _ ← expect Symbol.colon
    let elseExpr ← g.conditional
    return ⟨.conditional cond thenExpr elseExpr, ← rangeFrom start⟩
  else return cond

/-- Reads an expression. -/
def expr (g : Grammar) : Parser Expr := do
  if (← get).nextIsLambda then lambda g
  else
    let start ← offset
    let target ← conditional g
    let width := (← get).assignWidth
    if width > 0 then
      skip width
      let value ← g.expr
      return ⟨.assign target value, ← rangeFrom start⟩
    else if ← nextIs Symbol.arrow then fail "unexpected '->'"
    else return target

/-- Reads the initial value of a variable. -/
def initializer (g : Grammar) : Parser Expr := do
  if ← nextIs Symbol.lBrace then arrayInit g else expr g

end Parser

end SourceSearch
