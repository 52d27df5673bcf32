import Shellwright.Stmt

/-!
# Source texts

A program written out again, one statement to a line. Bodies stand between braces that are set off
by a space.
-/
namespace Shellwright

def Invocation.source (c : Invocation) : String := "run " ++ ", ".intercalate (c.map Expr.text)

namespace Stmt

/-- Lines between braces. -/
def bracedLines (lines : List String) : String := "\x7b " ++ "\n".intercalate lines ++ " \x7d"

mutual

def source : Stmt → String
  | decl binding name value => binding.keyword.text ++ " " ++ name ++ " = " ++ value.text
  | run command => Invocation.source command
  | ifThen cond body => "if " ++ cond.text ++ " " ++ bracedLines (sources body)
  | forIn name iterable body =>
    "for " ++ name ++ " in " ++ iterable.text ++ " " ++ bracedLines (sources body)
  | pipe commands => "pipe " ++ bracedLines (commands.map Invocation.source)
  | expr value => value.text

def sources : List Stmt → List String
  | [] => []
  | s :: ss => s.source :: sources ss

end

@[simp] theorem sources_eq_map (ss : List Stmt) : sources ss = ss.map source := by
  induction ss with
  | nil => rfl
  | cons s ss ih => simp [sources, ih]

end Stmt

def Program.source (p : Program) : String := "\n".intercalate (p.map Stmt.source)

end Shellwright
