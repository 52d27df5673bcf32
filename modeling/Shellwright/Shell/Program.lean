import Shellwright.Shell.Builtin
import Shellwright.Shell.Cat
import Shellwright.Shell.Input

/-!
# Programs

The programs of the machine, how they are found by their names, and how a shell starts as one of
them.
-/
namespace Shellwright.Shell.Eval

open Text (Bytes bytes)

/-! ## Finding -/

inductive Unfound where
  | missing
  | forbidden
deriving DecidableEq

def Unfound.text : Unfound → String
  | missing => "not found"
  | forbidden => "Permission denied"

/-- The program at a path. -/
def programAt (files : Directory) (cwd : Place) (path : String) : Except Unfound String :=
  match files.find cwd path with
  | .error _ => .error .missing
  | .ok (place, .program) => .ok (place.getLastD "")
  | .ok _ => .error .forbidden

/-- The path of a program that is looked for in some directories. -/
def search (files : Directory) (cwd : Place) (name : String) : List String → Except Unfound String
  | [] => .error .missing
  | dir :: dirs =>
    let path := if dir = "" then name else dir ++ "/" ++ name
    match programAt files cwd path with
    | .ok _ => .ok path
    | .error e =>
      match search files cwd name dirs with
      | .ok path => .ok path
      | .error later => .error (if e = .forbidden then .forbidden else later)

/-- The path of a program by its name; a name with a slash in it is one. -/
def locate (files : Directory) (cwd : Place) (directories name : String) : Except Unfound String :=
  if name.toList.contains '/' then .ok name
  else search files cwd name (Text.parts ':' directories)

/-! ## Starting a shell -/

/-- The directories that programs are looked for in if nothing else is said. -/
def defaultPath : String := "/usr/local/sbin:/usr/local/bin:/usr/sbin:/usr/bin:/sbin:/bin"

/-- The variables of a shell that has just been started. -/
def initialBindings (environment : List (String × String)) (directory : Place) (self : Nat) :
    List (String × Variable) :=
  let given := (environment.filter fun (name, _) => isName name.toList).map fun (name, value) =>
    (name, { value := some value, exported := true : Variable })
  let always : List (String × Variable) :=
    [("IFS", { value := some defaultSeparators }), ("OPTIND", { value := some "1" }),
     ("PPID", { value := some (toString (self - 1)) }),
     ("PWD", { value := some (Builtin.pathOf directory), exported := true })]
  let otherwise : List (String × Variable) :=
    [("PATH", { value := some defaultPath }), ("PS1", { value := some "# " }),
     ("PS2", { value := some "> " }), ("PS4", { value := some "+ " })]
  let always := always.map fun (name, v) =>
    (name, { v with exported := v.exported || (given.lookup name).isSome })
  let kept := given.filter fun (name, _) => (always.lookup name).isNone
  always ++ kept ++ otherwise.filter fun (name, _) => (kept.lookup name).isNone

/-- The characters of a text that is to be run; zero characters do not count. -/
def sourceText (bs : Bytes) : List Char := (Text.octets bs).toList.filter (· ≠ '\x00')

/-- Runs what can be read from a number. -/
def runDescriptor (run : Runner) (number : Nat) : Eval Unit := do
  match ← readAll number with
  | .ok bs => let _ ← runText run false true (sourceText bs)
  | .error _ => return ()

/-- Runs a file under its own name. -/
def runFile (run : Runner) (path : String) : Eval Unit := do
  match ← openPath path .read false with
  | .error _ => fault ("cannot open " ++ path ++ ": No such file")
  | .ok opening =>
    modifyProcess fun p => { p with name := path }
    setDescriptor 10 (some (← addOpening opening))
    runDescriptor run 10

/-- Does what the arguments of a shell ask for. -/
def runArguments (run : Runner) (s : Settings) : Eval Unit := do
  modifyProcess fun p => { p with options := s.on }
  if let some asCommands := s.listing then
    let _ ← write 1 (bytes (s.listed true asCommands))
  let readsInput := s.on.contains 's'
  if s.text then
    match s.rest with
    | [] => fault "-c requires an argument"
    | text :: rest =>
      match rest with
      | [] => pure ()
      | name :: parameters => modifyProcess fun p => { p with name, parameters }
      let _ ← runText run false false text.toList
      if readsInput then runDescriptor run 0
  else match s.rest with
    | [] =>
      modifyProcess fun p => { p with options := 's' :: p.options.filter (· ≠ 's') }
      runDescriptor run 0
    | path :: parameters =>
      if readsInput then
        modifyProcess fun p => { p with parameters := s.rest }
        runDescriptor run 0
      else
        modifyProcess fun p => { p with parameters }
        runFile run path

/-- Has the process become a shell. -/
def shell (run : Runner) (name : String) (args : List String) : Eval Unit := do
  let environment ← environment
  modifyProcess fun p =>
    { name
      shell := p.self
      self := p.self
      directory := p.directory
      descriptors := p.descriptors
      bindings := initialBindings environment p.directory p.self }
  if let some value := environment.lookup "OPTIND" then
    if (natural? value).isNone then
      modifyProcess fun p => { p with name := "sh" }
      fault (illegalNumber value)
  match Settings.scan true (args.length + 1) args { on := [] } with
  | .error message => fault message
  | .ok s => runArguments run s

/-! ## Starting a program -/

/-- Has the process become the program at a path, which was called by a name. -/
def become (run : Runner) (name path : String) (args : List String) : Eval Unit := do
  match programAt (← world).files (← process).directory path with
  | .error e =>
    complain (name ++ ": " ++ e.text)
    setStatus (if e = .missing then 127 else 126)
  | .ok "cat" => Cat.program name args
  | .ok "echo" =>
    setStatus 0
    unless ← write 1 (bytes (Echo.program args)) do
      let _ ← write 2 (bytes (name ++ ": write error: " ++ (← writeObstacle 1) ++ "\n"))
      setStatus 1
  | .ok "true" => setStatus 0
  | .ok "false" => setStatus 1
  | .ok _ => shell run name args
  throw .leave

end Shellwright.Shell.Eval
