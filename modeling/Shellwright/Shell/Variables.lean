import Shellwright.Shell.Numeral
import Shellwright.Shell.State

/-!
# Variables

How variables get their values, become local to a command or a function, and are passed on to other
programs.
-/
namespace Shellwright.Shell.Eval

/-- Gives a variable a value. -/
def assign (name value : String) : Eval Unit := do
  let old := (← variableOf name).getD {}
  if old.readOnly then fault (name ++ ": is read only")
  if name = "OPTIND" ∧ (natural? value).isNone then fault (illegalNumber value)
  let exported := old.exported || (← isOn 'a')
  putVariable name (some { old with value := some value, exported })

/-- Gives a variable a value if its name can be one. -/
def assignChecked (name value : String) : Eval Unit := do
  unless isName name.toList do fault (name ++ ": bad variable name")
  assign name value

/-- The name and the value of an assignment. -/
def splitAssignment (text : String) : String × String :=
  let cs := text.toList
  (String.ofList (cs.takeWhile (· ≠ '=')), String.ofList ((cs.dropWhile (· ≠ '=')).drop 1))

/-- Remembers a variable in the innermost scope, so that it is as before when the scope ends. -/
def remember (name : String) : Eval Unit := do
  let old ← variableOf name
  modifyProcess fun p =>
    { p with scopes := match p.scopes with
        | scope :: scopes => ((name, old) :: scope) :: scopes
        | [] => [] }

def openScope : Eval Unit := modifyProcess fun p => { p with scopes := [] :: p.scopes }

/-- Makes all variables that were local to the innermost scope what they were before. -/
def closeScope : Eval Unit := do
  match (← process).scopes with
  | [] => return ()
  | scope :: scopes =>
    modifyProcess fun p => { p with scopes }
    scope.forM fun (name, old) => putVariable name old

/-- Gives a variable a value for the innermost scope and the programs started in it. -/
def assignLocally (name value : String) : Eval Unit := do
  remember name
  assign name value
  putVariable name ((← variableOf name).map fun v => { v with exported := true })

/-- What programs that are started are given. -/
def environment : Eval (List (String × String)) := do
  return (← process).bindings.filterMap fun (name, v) =>
    if v.exported then v.value.map (name, ·) else none

/-- The characters that separate fields if nothing else is said. -/
def defaultSeparators : String := " \t\n"

end Shellwright.Shell.Eval
