import SourceSearch.Parser.Names

/-!
# The recursive part of the grammar

Expressions, statements and members contain each other. The readers of each kind are written over a
`Grammar`, the readers that they use further inside, so that each is a plain definition; the grammar
of a text ties the knot once for every token, which is as deep as a text can nest, since a reader
goes further inside only after it has read a token.
-/

set_option autoImplicit false

namespace SourceSearch.Parser

/-- The readers that others use further inside. -/
structure Grammar where
  expr : Parser Expr
  conditional : Parser Expr
  binary : (least : Nat) → Parser Expr
  unary : Parser Expr
  initializer : Parser Expr
  stmt : Parser Stmt
  member : (typeName : String) → Parser (List Member)

/-- The grammar that reads nothing. -/
def Grammar.empty : Grammar where
  expr := fail "nested too deep"
  conditional := fail "nested too deep"
  binary _ := fail "nested too deep"
  unary := fail "nested too deep"
  initializer := fail "nested too deep"
  stmt := fail "nested too deep"
  member _ := fail "nested too deep"

end SourceSearch.Parser
