import Shellwright.Stmt

/-!
# Values of a program

The texts of the string literals and variables that stand where a value stands, in the order of the
text. These, and nothing else, are to be quoted in a script.
-/
namespace Shellwright

/-- The text of a value between its quotes, if it is quoted. -/
def Expr.quoted : Expr → List String
  | string text => [text]
  | var name => ["$" ++ name]
  | number _ | call _ _ => []

/-- The values that a built-in function is given. -/
def Expr.quotedArguments : Expr → List String
  | call _ args => args.flatMap Expr.quoted
  | _ => []

/-- The values among the words of a command: all but the first. -/
def Invocation.quoted (c : Invocation) : List String := c.tail.flatMap Expr.quoted

namespace Stmt

mutual

def quoted : Stmt → List String
  | decl _ _ value => value.quoted
  | run command => Invocation.quoted command
  | ifThen cond body => cond.quotedArguments ++ quotedList body
  | forIn _ _ body => quotedList body
  | pipe commands => commands.flatMap Invocation.quoted
  | expr value => value.quotedArguments

def quotedList : List Stmt → List String
  | [] => []
  | s :: ss => s.quoted ++ quotedList ss

end

end Stmt

def Program.quoted (p : Program) : List String := Stmt.quotedList p

end Shellwright
