import Shellwright.Expr
import Shellwright.Parser

/-!
# Reading expressions

A name directly before an opening parenthesis is a call. Calls may be nested as deeply as the budget
says; the parenthesis that goes beyond it is blamed.
-/
namespace Shellwright

open Shellwright.Parser

/-- Arguments up to the closing parenthesis, behind the opening one. -/
def Expr.arguments (expr : Parser Expr) : Parser (List Expr) :=
  peek fun
    | .symbol ')' => skip []
    | _ => commaList expr <* symbol ')'

/-- An expression, given how to go on behind the name of a call. -/
def Expr.parserWith (call : String → Parser Expr) : Parser Expr :=
  peek fun
    | .string text => skip (.string text)
    | .number digits => skip (.number digits)
    | .ident name => (skip (.var name)).thenIf (.symbol '(') fun _ => call name
    | _ => fail .expectedExpression

/-- An expression with at most `budget` calls in each other. -/
def Expr.parser : (budget : Nat) → Parser Expr
  | 0 => parserWith fun _ => fail fun _ => .nestingTooDeep
  | budget + 1 => parserWith fun name => symbol '(' *> .call name <$> arguments (parser budget)

end Shellwright
