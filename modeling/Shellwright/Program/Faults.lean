import Shellwright.Fault
import Shellwright.Stmt

/-!
# All faults of a program

The faults in the order of the text, collected over the whole program: those of a statement before
those of its body, those of a command word before those of its arguments. Each is given with the
words that it is reported with, in which an expression is written as it would be in a source.
-/
namespace Shellwright

namespace Expr

/-- An expression in a place where it cannot stand. -/
def unfit (e : Expr) (place : String) : Fault := .unsupported ⟨e.text ++ " as " ++ place⟩

/-- Where a value stands, a call is a fault. -/
def valueFaults (e : Expr) : List Fault :=
  match e with
  | call _ _ => [e.unfit "a value"]
  | _ => []

/-- Where a bare word stands, a number or a call is a fault. -/
def bareFaults (place : String) (e : Expr) : List Fault :=
  match e with
  | number _ | call _ _ => [e.unfit place]
  | _ => []

/-- Where a call of `function` stands, anything else is a fault, and so is a number of arguments
other than one; the faults of its argument are given by `argument`. -/
def builtinFaults (function place : String) (argument : Expr → List Fault) (e : Expr) :
    List Fault :=
  match e with
  | call name args =>
    if name = function then
      match args with
      | [arg] => argument arg
      | _ => [.arity function args.length]
    else [e.unfit place]
  | _ => [e.unfit place]

end Expr

def Invocation.faults : Invocation → List Fault
  | [] => [.unsupported ⟨"run without a command"⟩]
  | command :: args => command.bareFaults "a command" ++ args.flatMap Expr.valueFaults

namespace Stmt

mutual

def faults : Stmt → List Fault
  | decl _ _ value => value.valueFaults
  | run command => Invocation.faults command
  | ifThen cond body =>
    cond.builtinFaults "exists" "a condition" Expr.valueFaults ++ faultsList body
  | forIn _ iterable body =>
    iterable.builtinFaults "glob" "an iterable" (Expr.bareFaults "a glob pattern") ++
      faultsList body
  | pipe commands => commands.flatMap Invocation.faults
  | expr value => value.builtinFaults "print" "a statement" Expr.valueFaults

def faultsList : List Stmt → List Fault
  | [] => []
  | s :: ss => s.faults ++ faultsList ss

end

end Stmt

def Program.faults (p : Program) : List Fault := Stmt.faultsList p

end Shellwright
