import Shellwright.Expr.Parser
import Shellwright.Stmt

/-!
# Reading statements

The first token decides what a statement is. A body stands between braces and is one level deeper
than its statement; a level beyond the budget is refused at the token where its brace should be,
whether or not it is one. Between the braces of a pipe every statement is read whole before anything
but a command is refused.
-/
namespace Shellwright

open Shellwright.Parser

namespace Stmt

/-- A pipe holds commands only. -/
def invocation : Stmt → Except SyntaxError.Cause Invocation
  | run command => .ok command
  | s => .error (.nonRunInPipe s.construct)

/-- An expression stands alone only if it is a call. -/
def ofExpr : Expr → Except SyntaxError.Cause Stmt
  | .call name args => .ok (.expr (.call name args))
  | e => .error (.invalidStatement e.text)

/-- Items between braces. -/
def block {α : Type} (item : Parser α) : Parser (List α) :=
  symbol '\x7b' *> untilClose '\x7d' item

def declaration (binding : Binding) (value : Parser Expr) : Parser Stmt :=
  keyword binding.keyword *> identifier >>= fun name => symbol '=' *> .decl binding name <$> value

/-- A statement, given how to read its expressions, a body and the commands of a pipe. -/
def parserWith (expression : Parser Expr) (body : Parser (List Stmt))
    (commands : Parser (List Invocation)) : Parser Stmt :=
  peek fun
    | .keyword .val => declaration .val expression
    | .keyword .var => declaration .var expression
    | .keyword .run => keyword .run *> .run <$> commaList expression
    | .keyword .if_ => keyword .if_ *> expression >>= fun cond => .ifThen cond <$> body
    | .keyword .for_ => keyword .for_ *> identifier >>= fun name =>
      keyword .in_ *> expression >>= fun iterable => .forIn name iterable <$> body
    | .keyword .pipe => keyword .pipe *> .pipe <$> commands
    | .keyword .in_ => fail fun _ => .unknownKeyword .in_
    | .ident _ => expression.require ofExpr
    | _ => fail .unexpectedToken

/-- A statement whose bodies hold statements read by `inner`. -/
def parserOver (expression : Parser Expr) (inner : Parser Stmt) : Parser Stmt :=
  parserWith expression (block inner) (block (inner.require invocation))

/-- A statement with at most `budget` blocks, pipes and calls in each other. -/
def parser : (budget : Nat) → Parser Stmt
  | 0 => parserWith (Expr.parser 0) (fail fun _ => .nestingTooDeep) (fail fun _ => .nestingTooDeep)
  | budget + 1 => parserOver (Expr.parser (budget + 1)) (parser budget)

end Stmt

end Shellwright
