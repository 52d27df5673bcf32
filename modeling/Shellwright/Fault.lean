import Shellwright.Expr

/-!
# Faults

Why a program has no script: something stands where the shell has no counterpart for it, or a
built-in function is given too few or too many arguments.
-/
namespace Shellwright

/-- The part that an expression plays in its statement. -/
inductive Role where
  | value
  | command
  | condition
  | iterable
  | globPattern
  | statement
deriving DecidableEq

def Role.phrase : Role → String
  | value => "as a value"
  | command => "as a command"
  | condition => "as a condition"
  | iterable => "as an iterable"
  | globPattern => "as a glob pattern"
  | statement => "as a statement"

/-- What the shell has no counterpart for, by the words that it is reported with. -/
structure Unsupported where
  text : String
deriving DecidableEq

namespace Unsupported

def emptyRun : Unsupported := ⟨"run without a command"⟩

/-- An expression that plays a part it cannot play. -/
def misplaced (e : Expr) (role : Role) : Unsupported := ⟨e.text ++ " " ++ role.phrase⟩

end Unsupported

inductive Fault where
  | unsupported (construct : Unsupported)
  | arity (function : String) (found : Nat)
deriving DecidableEq

def Fault.message : Fault → String
  | unsupported construct => "unsupported construct: " ++ construct.text
  | arity function found =>
    "syntax error: " ++ function ++ "() expects exactly one argument, got " ++ toString found

end Shellwright
