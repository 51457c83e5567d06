import SourceSearch.Binding.Expressions

/-!
# Snippets

A snippet is a written type or a few statements that stand in no file. It is read inside a class
made for the purpose, and bound at a place of choice.
-/

set_option autoImplicit false

namespace SourceSearch

namespace Snippet

/-- The members of the class around a snippet. -/
def read (text : String) : Except ParseError (Option TypeDecl) := do
  return (← parse text).types.head?

/-- The written type of a snippet. -/
def typeRef? (text : String) : Except ParseError (Option TypeRef) := do
  let decl ← read ("class $T \x7b " ++ text ++ " $f; \x7d")
  return (decl.bind (·.fields.head?)).map (·.1.type)

/-- The body of a snippet's method. -/
def body (text : String) : Except ParseError MethodBody := do
  let decl ← read ("class $Eval \x7b void $eval() \x7b " ++ text ++ " \x7d \x7d")
  return ((decl.bind (·.methods.head?)).map (·.2)).getD .absent

end Snippet

/-- What binding says of a statement. -/
inductive Judgement
  | variable (name : String) (type : StaticType)
  | value (meaning : Meaning)
  | call (meaning : Meaning) (binding : BoundCall)
  | skipped
  deriving DecidableEq, Repr

namespace BoundWorkspace

/-- What binding says of an expression. -/
def judgeExpr (s : BoundWorkspace) (scope : NameScope) (locals : Locals) (e : Expr) : Judgement :=
  match e.kind with
  | .call target name args =>
    .call (s.meaning scope locals e) (s.call scope locals target name args)
  | _ => .value (s.meaning scope locals e)

/-- What binding says of variables, and the locals with them. -/
def judgeVars (s : BoundWorkspace) (scope : NameScope) (locals : Locals) :
    List LocalVar → List Judgement × Locals
  | [] => ([], locals)
  | v :: vs =>
    let type := s.localType scope locals v
    let (others, last) := s.judgeVars scope (locals.declare v.name.text type) vs
    (.variable v.name.text type :: others, last)

mutual

/-- What binding says of a statement, and the locals after it. Of statements that hold others only
blocks are looked into. -/
def judgeStmt (s : BoundWorkspace) (scope : NameScope) (locals : Locals) :
    Stmt → List Judgement × Locals
  | .block b => (s.judgeBlock scope locals b, locals)
  | .locals vars => s.judgeVars scope locals vars
  | .expr e => ([s.judgeExpr scope locals e], locals)
  | .throw e => ([s.judgeExpr scope locals e], locals)
  | .return (some e) => ([s.judgeExpr scope locals e], locals)
  | _ => ([.skipped], locals)

def judgeStmts (s : BoundWorkspace) (scope : NameScope) (locals : Locals) :
    List Stmt → List Judgement × Locals
  | [] => ([], locals)
  | st :: rest =>
    let (first, afterFirst) := s.judgeStmt scope locals st
    let (others, last) := s.judgeStmts scope afterFirst rest
    (first ++ others, last)

def judgeBlock (s : BoundWorkspace) (scope : NameScope) (locals : Locals) : Block → List Judgement
  | ⟨stmts, _⟩ => (s.judgeStmts scope locals stmts).1

end

end BoundWorkspace

end SourceSearch
