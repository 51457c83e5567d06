import SourceSearch.Text.Range

/-!
# Tokens

The words, literals and symbols of a source text. Blanks and comments are no tokens. A closing
angle bracket is always a token of its own, so that nested type arguments close one at a time; the
right shifts are read by the parser from adjacent brackets.
-/

set_option autoImplicit false

namespace SourceSearch

/-- The words that may precede a declaration. -/
inductive Modifier
  | publicMod | protectedMod | privateMod | staticMod | finalMod | abstractMod | nativeMod
  | synchronizedMod | transientMod | volatileMod | strictfpMod | defaultMod
  deriving DecidableEq, Repr

/-- The primitive types, with the word for no value at all. -/
inductive Primitive
  | void | boolean | byte | char | short | int | long | float | double
  deriving DecidableEq, Repr

/-- The other reserved words. -/
inductive Keyword
  | packageKw | importKw | classKw | interfaceKw | enumKw | extendsKw | implementsKw | throwsKw
  | returnKw | newKw | thisKw | superKw | ifKw | elseKw | whileKw | doKw | forKw | breakKw
  | continueKw | switchKw | caseKw | throwKw | tryKw | catchKw | finallyKw | assertKw
  | instanceofKw | nullKw | trueKw | falseKw
  deriving DecidableEq, Repr

/-- Punctuation and operators. -/
inductive Symbol
  | lParen | rParen | lBrace | rBrace | lBracket | rBracket | semi | comma | dot | ellipsis | at
  | question | colon | arrow | colonColon | eq | eqEq | notEq | lt | gt | ltEq | gtEq | shl
  | andAnd | orOr | bang | tilde | plus | minus | star | slash | percent | amp | pipe | caret
  | plusPlus | minusMinus | plusEq | minusEq | starEq | slashEq | percentEq | ampEq | pipeEq
  | caretEq | shlEq
  deriving DecidableEq, Repr

namespace Modifier

/-- All modifiers. -/
def all : List Modifier :=
  [.publicMod, .protectedMod, .privateMod, .staticMod, .finalMod, .abstractMod, .nativeMod,
   .synchronizedMod, .transientMod, .volatileMod, .strictfpMod, .defaultMod]

/-- The word itself. -/
def spelling : Modifier → String
  | .publicMod => "public"
  | .protectedMod => "protected"
  | .privateMod => "private"
  | .staticMod => "static"
  | .finalMod => "final"
  | .abstractMod => "abstract"
  | .nativeMod => "native"
  | .synchronizedMod => "synchronized"
  | .transientMod => "transient"
  | .volatileMod => "volatile"
  | .strictfpMod => "strictfp"
  | .defaultMod => "default"

/-- The name used in messages. -/
def name : Modifier → String
  | .publicMod => "Public"
  | .protectedMod => "Protected"
  | .privateMod => "Private"
  | .staticMod => "Static"
  | .finalMod => "Final"
  | .abstractMod => "Abstract"
  | .nativeMod => "Native"
  | .synchronizedMod => "Synchronized"
  | .transientMod => "Transient"
  | .volatileMod => "Volatile"
  | .strictfpMod => "Strictfp"
  | .defaultMod => "Default"

end Modifier

namespace Primitive

/-- All primitive types. -/
def all : List Primitive :=
  [.void, .boolean, .byte, .char, .short, .int, .long, .float, .double]

/-- The word itself. -/
def spelling : Primitive → String
  | .void => "void"
  | .boolean => "boolean"
  | .byte => "byte"
  | .char => "char"
  | .short => "short"
  | .int => "int"
  | .long => "long"
  | .float => "float"
  | .double => "double"

/-- The name used in messages. -/
def name : Primitive → String
  | .void => "Void"
  | .boolean => "Boolean"
  | .byte => "Byte"
  | .char => "Char"
  | .short => "Short"
  | .int => "Int"
  | .long => "Long"
  | .float => "Float"
  | .double => "Double"

/-- The primitive type of that spelling. -/
def ofSpelling? (word : String) : Option Primitive :=
  all.find? (·.spelling == word)

end Primitive

namespace Keyword

/-- All keywords. -/
def all : List Keyword :=
  [.packageKw, .importKw, .classKw, .interfaceKw, .enumKw, .extendsKw, .implementsKw, .throwsKw,
   .returnKw, .newKw, .thisKw, .superKw, .ifKw, .elseKw, .whileKw, .doKw, .forKw, .breakKw,
   .continueKw, .switchKw, .caseKw, .throwKw, .tryKw, .catchKw, .finallyKw, .assertKw,
   .instanceofKw, .nullKw, .trueKw, .falseKw]

/-- The word itself. -/
def spelling : Keyword → String
  | .packageKw => "package"
  | .importKw => "import"
  | .classKw => "class"
  | .interfaceKw => "interface"
  | .enumKw => "enum"
  | .extendsKw => "extends"
  | .implementsKw => "implements"
  | .throwsKw => "throws"
  | .returnKw => "return"
  | .newKw => "new"
  | .thisKw => "this"
  | .superKw => "super"
  | .ifKw => "if"
  | .elseKw => "else"
  | .whileKw => "while"
  | .doKw => "do"
  | .forKw => "for"
  | .breakKw => "break"
  | .continueKw => "continue"
  | .switchKw => "switch"
  | .caseKw => "case"
  | .throwKw => "throw"
  | .tryKw => "try"
  | .catchKw => "catch"
  | .finallyKw => "finally"
  | .assertKw => "assert"
  | .instanceofKw => "instanceof"
  | .nullKw => "null"
  | .trueKw => "true"
  | .falseKw => "false"

/-- The name used in messages. -/
def name : Keyword → String
  | .packageKw => "Package"
  | .importKw => "Import"
  | .classKw => "Class"
  | .interfaceKw => "Interface"
  | .enumKw => "Enum"
  | .extendsKw => "Extends"
  | .implementsKw => "Implements"
  | .throwsKw => "Throws"
  | .returnKw => "Return"
  | .newKw => "New"
  | .thisKw => "This"
  | .superKw => "Super"
  | .ifKw => "If"
  | .elseKw => "Else"
  | .whileKw => "While"
  | .doKw => "Do"
  | .forKw => "For"
  | .breakKw => "Break"
  | .continueKw => "Continue"
  | .switchKw => "Switch"
  | .caseKw => "Case"
  | .throwKw => "Throw"
  | .tryKw => "Try"
  | .catchKw => "Catch"
  | .finallyKw => "Finally"
  | .assertKw => "Assert"
  | .instanceofKw => "Instanceof"
  | .nullKw => "Null"
  | .trueKw => "True"
  | .falseKw => "False"

end Keyword

namespace Symbol

/-- All symbols, a longer one before every shorter one. -/
def all : List Symbol :=
  [.ellipsis, .shlEq, .arrow, .colonColon, .eqEq, .notEq, .ltEq, .gtEq, .shl, .andAnd, .orOr,
   .plusPlus, .minusMinus, .plusEq, .minusEq, .starEq, .slashEq, .percentEq, .ampEq, .pipeEq,
   .caretEq, .lParen, .rParen, .lBrace, .rBrace, .lBracket, .rBracket, .semi, .comma, .dot, .at,
   .question, .colon, .eq, .lt, .gt, .bang, .tilde, .plus, .minus, .star, .slash, .percent, .amp,
   .pipe, .caret]

/-- The characters of the symbol. -/
def spelling : Symbol → String
  | .lParen => "("
  | .rParen => ")"
  | .lBrace => "\x7b"
  | .rBrace => "\x7d"
  | .lBracket => "["
  | .rBracket => "]"
  | .semi => ";"
  | .comma => ","
  | .dot => "."
  | .ellipsis => "..."
  | .at => "@"
  | .question => "?"
  | .colon => ":"
  | .arrow => "->"
  | .colonColon => "::"
  | .eq => "="
  | .eqEq => "=="
  | .notEq => "!="
  | .lt => "<"
  | .gt => ">"
  | .ltEq => "<="
  | .gtEq => ">="
  | .shl => "<<"
  | .andAnd => "&&"
  | .orOr => "||"
  | .bang => "!"
  | .tilde => "~"
  | .plus => "+"
  | .minus => "-"
  | .star => "*"
  | .slash => "/"
  | .percent => "%"
  | .amp => "&"
  | .pipe => "|"
  | .caret => "^"
  | .plusPlus => "++"
  | .minusMinus => "--"
  | .plusEq => "+="
  | .minusEq => "-="
  | .starEq => "*="
  | .slashEq => "/="
  | .percentEq => "%="
  | .ampEq => "&="
  | .pipeEq => "|="
  | .caretEq => "^="
  | .shlEq => "<<="

/-- The name used in messages. -/
def name : Symbol → String
  | .lParen => "LParen"
  | .rParen => "RParen"
  | .lBrace => "LBrace"
  | .rBrace => "RBrace"
  | .lBracket => "LBracket"
  | .rBracket => "RBracket"
  | .semi => "Semi"
  | .comma => "Comma"
  | .dot => "Dot"
  | .ellipsis => "Ellipsis"
  | .at => "At"
  | .question => "Question"
  | .colon => "Colon"
  | .arrow => "Arrow"
  | .colonColon => "ColonColon"
  | .eq => "Eq"
  | .eqEq => "EqEq"
  | .notEq => "NotEq"
  | .lt => "Lt"
  | .gt => "Gt"
  | .ltEq => "LtEq"
  | .gtEq => "GtEq"
  | .shl => "Shl"
  | .andAnd => "AndAnd"
  | .orOr => "OrOr"
  | .bang => "Bang"
  | .tilde => "Tilde"
  | .plus => "Plus"
  | .minus => "Minus"
  | .star => "Star"
  | .slash => "Slash"
  | .percent => "Percent"
  | .amp => "Amp"
  | .pipe => "Pipe"
  | .caret => "Caret"
  | .plusPlus => "PlusPlus"
  | .minusMinus => "MinusMinus"
  | .plusEq => "PlusEq"
  | .minusEq => "MinusEq"
  | .starEq => "StarEq"
  | .slashEq => "SlashEq"
  | .percentEq => "PercentEq"
  | .ampEq => "AmpEq"
  | .pipeEq => "PipeEq"
  | .caretEq => "CaretEq"
  | .shlEq => "ShlEq"

end Symbol

/-- The kinds of tokens. -/
inductive TokenKind
  | ident | number | stringLit | charLit
  | modifier (m : Modifier)
  | primitive (p : Primitive)
  | keyword (k : Keyword)
  | symbol (s : Symbol)
  deriving DecidableEq, Repr

namespace TokenKind

/-- The name used in messages. -/
def name : TokenKind → String
  | .ident => "Ident"
  | .number => "Number"
  | .stringLit => "StringLit"
  | .charLit => "CharLit"
  | .modifier m => m.name
  | .primitive p => p.name
  | .keyword k => k.name
  | .symbol s => s.name

/-- The reserved words with what they stand for. -/
def reserved : List (String × TokenKind) :=
  Keyword.all.map (fun k => (k.spelling, .keyword k)) ++
  Modifier.all.map (fun m => (m.spelling, .modifier m)) ++
  Primitive.all.map (fun p => (p.spelling, .primitive p))

/-- What a word is when it is reserved. -/
def ofReserved? (word : String) : Option TokenKind := reserved.lookup word

instance : Coe Modifier TokenKind := ⟨.modifier⟩
instance : Coe Keyword TokenKind := ⟨.keyword⟩
instance : Coe Symbol TokenKind := ⟨.symbol⟩

end TokenKind

/-- A token with its text and the bytes it takes. -/
structure Token where
  kind : TokenKind
  text : String
  range : TextRange
  deriving DecidableEq, Repr

end SourceSearch
