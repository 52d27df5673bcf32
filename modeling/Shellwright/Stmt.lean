import Shellwright.Expr
import Shellwright.Keyword

/-!
# Statements and programs
-/
namespace Shellwright

/-- How a variable is introduced. -/
inductive Binding where
  | val
  | var
deriving DecidableEq

def Binding.keyword : Binding → Keyword
  | val => .val
  | var => .var

/-- A command and its arguments. -/
abbrev Invocation := List Expr

inductive Stmt where
  | decl (binding : Binding) (name : String) (value : Expr)
  | run (command : Invocation)
  | ifThen (cond : Expr) (body : List Stmt)
  | forIn (name : String) (iterable : Expr) (body : List Stmt)
  | pipe (commands : List Invocation)
  | expr (value : Expr)

/-- A program is its statements in order. -/
abbrev Program := List Stmt

namespace Stmt

/-- What a message calls a statement. -/
def construct : Stmt → String
  | decl binding _ _ => binding.keyword.text
  | run _ => "run"
  | ifThen _ _ => "if"
  | forIn _ _ _ => "for"
  | pipe _ => "pipe"
  | expr _ => "expression statement"

mutual

def decEq : (s t : Stmt) → Decidable (s = t)
  | decl b n e, decl b' n' e' => decidable_of_iff (b = b' ∧ n = n' ∧ e = e') (by simp)
  | run c, run c' => decidable_of_iff (c = c') (by simp)
  | ifThen e ss, ifThen e' ss' =>
    have := decEqList ss ss'
    decidable_of_iff (e = e' ∧ ss = ss') (by simp)
  | forIn n e ss, forIn n' e' ss' =>
    have := decEqList ss ss'
    decidable_of_iff (n = n' ∧ e = e' ∧ ss = ss') (by simp)
  | pipe cs, pipe cs' => decidable_of_iff (cs = cs') (by simp)
  | expr e, expr e' => decidable_of_iff (e = e') (by simp)
  | decl _ _ _, run _ | decl _ _ _, ifThen _ _ | decl _ _ _, forIn _ _ _ | decl _ _ _, pipe _
  | decl _ _ _, expr _ | run _, decl _ _ _ | run _, ifThen _ _ | run _, forIn _ _ _
  | run _, pipe _ | run _, expr _ | ifThen _ _, decl _ _ _ | ifThen _ _, run _
  | ifThen _ _, forIn _ _ _ | ifThen _ _, pipe _ | ifThen _ _, expr _ | forIn _ _ _, decl _ _ _
  | forIn _ _ _, run _ | forIn _ _ _, ifThen _ _ | forIn _ _ _, pipe _ | forIn _ _ _, expr _
  | pipe _, decl _ _ _ | pipe _, run _ | pipe _, ifThen _ _ | pipe _, forIn _ _ _
  | pipe _, expr _ | expr _, decl _ _ _ | expr _, run _ | expr _, ifThen _ _
  | expr _, forIn _ _ _ | expr _, pipe _ => isFalse (by simp)

def decEqList : (ss ts : List Stmt) → Decidable (ss = ts)
  | [], [] => isTrue rfl
  | s :: ss, t :: ts =>
    have := decEq s t
    have := decEqList ss ts
    decidable_of_iff (s = t ∧ ss = ts) (by simp)
  | [], _ :: _ | _ :: _, [] => isFalse (by simp)

end

instance : DecidableEq Stmt := decEq

end Stmt

end Shellwright
