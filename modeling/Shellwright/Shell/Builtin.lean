import Shellwright.Shell.Condition
import Shellwright.Shell.Echo
import Shellwright.Shell.Expansion

/-!
# Built-in commands

The commands that a shell carries out itself and that run no other commands. Each takes its
arguments and gives its exit code.
-/
namespace Shellwright.Shell

abbrev Builtin := List String → Eval Nat

namespace Builtin

open Eval
open Text (bytes)

/-- Prints a text for a command. -/
def print (name text : String) : Eval Nat := do
  if ← write 1 (bytes text) then return 0
  complain (name ++ ": I/O error")
  return 1

def natural (text : String) : Eval Nat :=
  match natural? text with
  | some n => return n
  | none => fault (illegalNumber text)

/-- The letters of the options in front of arguments, each of which has to be one of `allowed`. -/
def optionLetters (allowed : List Char) : List String → Eval (List Char × List String)
  | [] => return ([], [])
  | arg :: args =>
    match arg.toList with
    | ['-'] => return ([], arg :: args)
    | ['-', '-'] => return ([], args)
    | '-' :: letters => do
      match letters.find? fun c => !(allowed.contains c) with
      | some c => fault ("Illegal option -" ++ String.singleton c)
      | none =>
        let (more, args) ← optionLetters allowed args
        return (letters ++ more, args)
    | _ => return ([], arg :: args)

/-! ## Leaving -/

def exit : Builtin := fun args => do
  match args with
  | [] => pure ()
  | arg :: _ => setStatus (← natural arg)
  throw .leave

def giveBack : Builtin := fun args => do
  match args with
  | [] => pure ()
  | arg :: _ => setStatus (← natural arg)
  throw .giveBack

/-- The number of loops that an argument asks for, of those that there are. -/
def loopCount (args : List String) : Eval Nat := do
  let n ← match args with
    | [] => pure 1
    | arg :: _ => natural arg
  if n = 0 then fault (illegalNumber (args.headD ""))
  return min n (← process).loops

def breakLoop : Builtin := fun args => do
  let n ← loopCount args
  setStatus 0
  if n > 0 then throw (.breakLoops n)
  return 0

def continueLoop : Builtin := fun args => do
  let n ← loopCount args
  setStatus 0
  if n > 0 then throw (.continueLoop n)
  return 0

/-! ## Parameters and variables -/

def shift : Builtin := fun args => do
  let n ← match args with
    | [] => pure 1
    | arg :: _ => natural arg
  if n > (← process).parameters.length then fault "can't shift that many"
  modifyProcess fun p => { p with parameters := p.parameters.drop n }
  return 0

/-- A value in quotes such that a shell reads it back. -/
def singleQuoted (value : String) : String :=
  "'" ++ String.join (value.toList.map fun c =>
    if c = '\x27' then "'\"'\"'" else String.singleton c) ++ "'"

/-- The variables that are wanted as commands, by their names. -/
def listVariables (command : String) (wanted : Variable → Bool) : Eval String := do
  let listed := ((← process).bindings.filter fun (_, v) => wanted v).mergeSort
    fun a b => !(decide (b.1 < a.1))
  return String.join (listed.map fun (name, v) =>
    command ++ name ++ (v.value.map fun value => "=" ++ singleQuoted value).getD "" ++ "\n")

def setOptions : Builtin := fun args => do
  if args = [] then return ← print "set" (← listVariables "" (·.value.isSome))
  match Settings.scan false (args.length + 1) args { on := (← process).options } with
  | .error message => fault message
  | .ok s =>
    modifyProcess fun p => { p with options := s.on }
    if s.cleared ∨ ¬ s.rest.isEmpty then
      modifyProcess fun p => { p with parameters := s.rest }
    match s.listing with
    | some asCommands => print "set" (s.listed false asCommands)
    | none => return 0

/-- Gives variables a mark, and a value if there is one. -/
def markVariables (command : String) (mark : Variable → Variable) (has : Variable → Bool) :
    Builtin :=
  fun args => do
    let (letters, names) ← optionLetters ['p'] args
    if names = [] ∨ letters ≠ [] then
      return ← print command (← listVariables (command ++ " ") has)
    names.forM fun arg => do
      let (name, value) := splitAssignment arg
      unless isName name.toList do fault (name ++ ": bad variable name")
      if arg.contains '=' then assign name value
      putVariable name (some (mark ((← variableOf name).getD {})))
    return 0

def exportVariables : Builtin :=
  markVariables "export" (fun v => { v with exported := true }) (·.exported)

def protectVariables : Builtin :=
  markVariables "readonly" (fun v => { v with readOnly := true }) (·.readOnly)

/-- The variables that a shell itself has a use for. They stay exported when they lose their
values. -/
def lastingNames : List String :=
  ["IFS", "MAIL", "MAILPATH", "OPTIND", "PATH", "PS1", "PS2", "PS4"]

def unsetVariables : Builtin := fun args => do
  let (letters, names) ← optionLetters ['v', 'f'] args
  names.forM fun name => do
    if letters.getLast? = some 'f' then
      modifyProcess fun p => { p with functions := p.functions.filter (·.1 ≠ name) }
    else
      let old ← variableOf name
      if (old.map (·.readOnly)).getD false then fault (name ++ ": is read only")
      unless isName name.toList do fault (name ++ ": bad variable name")
      let bare := old.map ({ · with value := none })
      putVariable name (if lastingNames.contains name then bare else none)
  return 0

def localVariables : Builtin := fun args => do
  if (← process).scopes.isEmpty then fault "not in a function"
  args.forM fun arg => do
    let (name, value) := splitAssignment arg
    unless isName name.toList do fault (name ++ ": bad variable name")
    remember name
    if arg.contains '=' then assign name value
  return 0

/-! ## Tests and texts -/

def echo : Builtin := fun args => print "echo" (Echo.builtin args)

def test (args : List String) : Eval Nat := do
  match Condition.holds ⟨(← world).files, (← process).directory⟩ args with
  | .ok value => return if value then 0 else 1
  | .error message => fault message

/-- The test whose last argument is a bracket. -/
def bracket : Builtin := fun args => do
  match args.getLast? with
  | some word =>
    if word.startsWith "]" then test args.dropLast else fault "missing ]"
  | none => fault "missing ]"

/-! ## Signals -/

def killUsage : String :=
  "Usage: kill [-s sigspec | -signum | -sigspec] [pid | job]... or\nkill -l [exitstatus]"

/-- The process that every system starts with, and that no signal ends. -/
def firstOfAll : Nat := 1

/-- Sends a signal to a process, and says whether there is one. -/
def send (signal target : Nat) : Eval Bool := do
  let w ← world
  let self := (← process).self
  if target ≠ 0 ∧ target ≠ firstOfAll ∧ ¬ w.alive.contains target then return false
  if Signal.isHarmless signal ∨ target = firstOfAll then return true
  let targets := if target = 0 then w.alive else [target]
  modifyWorld fun w =>
    { w with doomed := w.doomed ++ (targets.filter (· ≠ self)).map (·, signal) }
  if targets.contains self then throw (.killed signal)
  return true

def sendAll (signal : Nat) : List String → (status : Nat) → Eval Nat
  | [], status => return status
  | target :: targets, status => do
    if target.startsWith "%" then fault ("No such job: " ++ target)
    let found ← match target.toList with
      | '-' :: group => do
        let n ← natural (String.ofList group)
        if n ≤ 1 then send signal 0 else pure false
      | _ => do send signal (← natural target)
    if found then sendAll signal targets status
    else
      complain "No such process\n"
      sendAll signal targets 1

/-- What is asked for in front of the processes. -/
structure KillRequest where
  signal : Option Nat := none
  list : Bool := false
  rest : List String

def killLetters : (letters : List Char) → KillRequest → Eval KillRequest
  | [], r => return r
  | 'l' :: cs, r => killLetters cs { r with list := true }
  | 's' :: cs, r => do
    let (name, rest) ← match cs, r.rest with
      | [], [] => fault "No arg for -s option"
      | [], name :: rest => pure (name, rest)
      | cs, rest => pure (String.ofList cs, rest)
    match Signal.ofText? name with
    | some signal => return { r with signal := some signal, rest }
    | none => fault ("invalid signal number or name: " ++ name)
  | c :: _, _ => fault ("Illegal option -" ++ String.singleton c)

def killOptions : (fuel : Nat) → KillRequest → Eval KillRequest
  | 0, r => return r
  | fuel + 1, r => do
    match r.rest with
    | [] => return r
    | arg :: args =>
      match arg.toList with
      | ['-'] => return r
      | ['-', '-'] => return { r with rest := args }
      | '-' :: letters => killOptions fuel (← killLetters letters { r with rest := args })
      | _ => return r

def listSignals (arg : Option String) : Eval Nat := do
  match arg with
  | none =>
    print "kill" ("0\n" ++ String.join ((List.range Signal.count).map fun i =>
      Signal.name (i + 1) ++ "\n"))
  | some text =>
    let n ← natural text
    let signal := if n > 128 then n - 128 else n
    if 0 < signal ∧ signal ≤ Signal.count then print "kill" (Signal.name signal ++ "\n")
    else fault ("invalid signal number or exit status: " ++ text)

def kill : Builtin := fun args => do
  let r ← match args with
    | [] => fault killUsage
    | arg :: rest =>
      match arg.toList with
      | '-' :: name =>
        match Signal.ofText? (String.ofList name) with
        | some signal => pure { signal := some signal, rest }
        | none => killOptions (args.length + 1) { rest := args }
      | _ => pure { rest := args }
  if r.list then
    if r.signal.isSome then fault killUsage
    listSignals r.rest.head?
  else if r.rest = [] then fault killUsage
  else sendAll (r.signal.getD Signal.terminate) r.rest 0

/-! ## Directories -/

def pathOf (place : Place) : String := "/" ++ "/".intercalate place

def changeDirectory : Builtin := fun args => do
  let target ← match args with
    | [] => do pure ((← value? "HOME").getD "")
    | arg :: _ => pure arg
  if target = "" then return 0
  let p ← process
  match (← world).files.find p.directory target with
  | .ok (place, .dir) =>
    modifyProcess fun p => { p with directory := place }
    assign "OLDPWD" (pathOf p.directory)
    assign "PWD" (pathOf place)
    return 0
  | _ => fault ("can't cd to " ++ target)

def printDirectory : Builtin := fun _ => do
  print "pwd" (pathOf (← process).directory ++ "\n")

/-- Waits for processes, all of which have ended. -/
def wait : Builtin := fun args => do
  match args with
  | [] => return 0
  | arg :: _ => if (← process).background = natural? arg then return 0 else return 127

/-- The built-in commands that run no others. -/
def table : List (String × Builtin) :=
  [(":", fun _ => return 0), ("true", fun _ => return 0), ("false", fun _ => return 1),
   ("[", bracket), ("break", breakLoop), ("cd", changeDirectory), ("continue", continueLoop),
   ("echo", echo), ("exit", exit), ("export", exportVariables), ("kill", kill),
   ("local", localVariables), ("pwd", printDirectory), ("readonly", protectVariables),
   ("return", giveBack), ("set", setOptions), ("shift", shift), ("test", test),
   ("unset", unsetVariables), ("wait", wait)]

end Builtin

end Shellwright.Shell
