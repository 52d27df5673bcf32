import Shellwright.Fault
import Shellwright.Script
import Shellwright.Stmt
import Shellwright.Text.Blank

/-!
# From programs to scripts

Values are quoted, so that the shell neither splits nor expands them; command words and the patterns
of `glob` stay bare. The first fault in the order of the text is reported: a statement before its
body, a command before its arguments, the number of arguments before the arguments.
-/
namespace Shellwright

namespace Script

/-- A reference to a variable. -/
def reference (name : String) : String := "$" ++ name

def misplaced {α : Type} (e : Expr) (role : Role) : Except Fault α :=
  .error (.unsupported (.misplaced e role))

namespace Word

/-- An argument, or what is assigned to a variable. -/
def ofValue : Expr → Except Fault Word
  | .string text => .ok (quoted text)
  | .number digits => .ok (bare digits)
  | .var name => .ok (quoted (reference name))
  | e => misplaced e .value

def ofCommand : Expr → Except Fault Word
  | .string text => .ok (bare text)
  | .var name => .ok (bare (reference name))
  | e => misplaced e .command

def ofPattern : Expr → Except Fault Word
  | .string text => .ok (bare text)
  | .var name => .ok (bare (reference name))
  | e => misplaced e .globPattern

end Word

/-- The argument of a function that takes exactly one. -/
def soleArgument (function : String) : List Expr → Except Fault Expr
  | [e] => .ok e
  | args => .error (.arity function args.length)

/-- The words of a command; a blank command word is left out. -/
def words : Invocation → Except Fault (List Word)
  | [] => .error (.unsupported .emptyRun)
  | command :: args => do
    let command ← Word.ofCommand command
    let args ← args.mapM Word.ofValue
    return if Text.allBlank command.text then args else command :: args

/-- The path that a condition asks about. -/
def tested : Expr → Except Fault Word
  | .call "exists" args => do Word.ofValue (← soleArgument "exists" args)
  | e => misplaced e .condition

/-- The pattern that a loop runs over. -/
def iterated : Expr → Except Fault Word
  | .call "glob" args => do Word.ofPattern (← soleArgument "glob" args)
  | e => misplaced e .iterable

/-- What an expression that stands alone prints. -/
def printed : Expr → Except Fault Word
  | .call "print" args => do Word.ofValue (← soleArgument "print" args)
  | e => misplaced e .statement

namespace Command

mutual

def ofStmt : Stmt → Except Fault Command
  | .decl _ name value => return assign name (← Word.ofValue value)
  | .run command => return simple (← words command)
  | .ifThen cond body => do
    let path ← tested cond
    return ifExists path (← ofStmts body)
  | .forIn name iterable body => do
    let pattern ← iterated iterable
    return forEach name pattern (← ofStmts body)
  | .pipe commands => return pipeline (← commands.mapM words)
  | .expr value => return simple [.bare "echo", ← printed value]

def ofStmts : List Stmt → Except Fault (List Command)
  | [] => return []
  | s :: ss => do
    let c ← ofStmt s
    return c :: (← ofStmts ss)

end

end Command

def ofProgram (p : Program) : Except Fault Script := Command.ofStmts p

end Script

/-- The text of a program's script. -/
def Program.emit (p : Program) : Except Fault String := Script.text <$> Script.ofProgram p

end Shellwright
