/-!
# Command line arguments

What the arguments ask for. There are two commands, each with one file and one option that takes a
value. The value of an option stands in the same argument, or is the next one; a next argument that
looks like an option is no value. Behind a double dash every argument is a file.
-/
namespace Shellwright.Cli

inductive Request where
  /-- Compile a file to a file, or to the standard output if none is named. -/
  | compile (file : String) (output : Option String)
  /-- Compile a file and have `shell` run the script. -/
  | run (file : String) (shell : String)
  | version
deriving DecidableEq

/-- The spellings of an option. -/
structure Flag where
  long : String
  short : Option Char

/-- What one argument is to a command that knows one option. -/
inductive Argument where
  | file (path : String)
  /-- The option with its value. -/
  | attached (value : String)
  /-- The option; its value is the next argument. -/
  | detached
  | unknown
deriving DecidableEq

/-- An option together with the value behind its equals sign, if there is one. -/
def splitValue (cs : List Char) : String × Option String :=
  match cs.dropWhile (· ≠ '=') with
  | [] => (String.ofList cs, none)
  | _ :: value => (String.ofList (cs.takeWhile (· ≠ '=')), some (String.ofList value))

def Flag.classify (flag : Flag) (arg : String) : Argument :=
  match arg.toList with
  | '-' :: '-' :: cs =>
    match splitValue cs with
    | (name, none) => if name = flag.long then .detached else .unknown
    | (name, some value) => if name = flag.long then .attached value else .unknown
  | '-' :: c :: cs =>
    if flag.short = some c then
      match cs with
      | [] => .detached
      | '=' :: value => .attached (String.ofList value)
      | value => .attached (String.ofList value)
    else .unknown
  | _ => .file arg

/-- The file and the option's value, as far as they have been seen. -/
structure Found where
  file : Option String := none
  value : Option String := none

namespace Found

/-- There is at most one file, and its name is not empty. -/
def addFile (f : Found) (path : String) : Option Found :=
  if f.file.isNone ∧ path ≠ "" then some { f with file := some path } else none

/-- The option is given at most once. -/
def addValue (f : Found) (value : String) : Option Found :=
  if f.value.isNone then some { f with value := some value } else none

end Found

/-- Reads the arguments behind the name of a command. -/
def Flag.read (flag : Flag) (found : Found) : List String → Option Found
  | [] => some found
  | "--" :: args => args.foldlM Found.addFile found
  | arg :: args =>
    match flag.classify arg with
    | .file path => do flag.read (← found.addFile path) args
    | .attached value => do flag.read (← found.addValue value) args
    | .detached =>
      match args with
      | value :: args =>
        match flag.classify value with
        | .file value => do flag.read (← found.addValue value) args
        | _ => none
      | [] => none
    | .unknown => none

def outputFlag : Flag := ⟨"output", some 'o'⟩

def shellFlag : Flag := ⟨"shell", none⟩

/-- The shell that runs a script if nothing else is said. -/
def defaultShell : String := "sh"

/-- The request made by a list of arguments; none if they make no sense. The preferred shell is the
one to use when the arguments name none. -/
def Request.ofArgs (preferred : Option String) : List String → Option Request
  | "compile" :: args => do
    let found ← outputFlag.read {} args
    let file ← found.file
    if found.value = some "" then none else return .compile file found.value
  | "run" :: args => do
    let found ← shellFlag.read {} args
    let file ← found.file
    return .run file (found.value.getD (preferred.getD defaultShell))
  | "--version" :: _ => some .version
  | arg :: _ => if arg.startsWith "-V" then some .version else none
  | [] => none

end Shellwright.Cli
