import Shellwright.Shell.Program
import Shellwright.Shell.Redirect

/-!
# Evaluation

What commands do. A command that contains others runs them through a `Runner`; the last definition
ties the knot.
-/
namespace Shellwright.Shell.Eval

open Text (bytes octets)

/-! ## Other processes -/

/-- The output of a command, without zero characters and the line ends behind it. -/
def capture (run : Runner) : Capture := fun body => do
  if body.isSkip then return []
  let pipe ← newPipe
  let opening ← addOpening { target := .pipe pipe, writes := true }
  let ending ← inChild id do
    setDescriptor 1 (some opening)
    let _ ← run body false true
  let substituted ← await ending
  modifyProcess fun p => { p with substituted }
  let text := sourceText ((← world).pipes[pipe]?.getD [])
  return (text.reverse.dropWhile (· = '\n')).reverse

/-- Runs the stages of a pipeline one after the other, each reading what the one before it
printed. -/
def runStages (run : Runner) (tested : Bool) : (input : Option Nat) → List Command →
    Eval (List Ending)
  | _, [] => return []
  | input, [c] => do
    return [← inChild id do
      if input.isSome then setDescriptor 0 input
      let _ ← run c tested true]
  | input, c :: cs => do
    let pipe ← newPipe
    let output ← addOpening { target := .pipe pipe, writes := true }
    let ending ← inChild id do
      if input.isSome then setDescriptor 0 input
      setDescriptor 1 (some output)
      let _ ← run c tested true
    let next ← addOpening { target := .pipe pipe, reads := true }
    return ending :: (← runStages run tested (some next) cs)

/-- Says how processes ended; the result is the status of the last one. -/
def awaitAll : List Ending → (status : Nat) → Eval Nat
  | [], status => return status
  | e :: es, _ => do awaitAll es (← await e)

/-- Runs processes that nobody waits for. They read nothing. -/
def inBackground (body : Eval Unit) : Eval Nat := do
  let number := (← world).nextProcess
  let input ← addOpening { target := .null, reads := true }
  let _ ← inChild id do
    setDescriptor 0 (some input)
    body
  modifyProcess fun p => { p with background := some number }
  return 0

/-! ## Simple commands -/

/-- The built-in commands that run others. -/
def runningBuiltins : List String := [".", "command", "eval", "exec"]

def isBuiltin (name : String) : Bool :=
  runningBuiltins.contains name || (Builtin.table.lookup name).isSome

/-- The built-in commands whose arguments may give values to variables. -/
def assigningBuiltins : List String := ["export", "local", "readonly"]

/-- What a command name stands for. -/
inductive Meaning where
  | nothing
  | builtin (special : Bool)
  | function (body : Command)
  | program

def Meaning.isSpecial : Meaning → Bool
  | builtin special => special
  | _ => false

/-- What a name stands for; functions may be left out of account. -/
def meaning (functions : Bool) (name : String) : Eval Meaning := do
  let body := (← process).functions.lookup name
  match if functions then body else none with
  | some body => return .function body
  | none =>
    return if isBuiltin name then .builtin (Reader.specialNames.contains name) else .program

/-- The fields of the first words up to one that has any, and the words behind it. -/
def firstFields (run : Runner) : List Word → Eval (List String × List Word)
  | [] => return ([], [])
  | w :: ws => do
    match ← expandFields (capture run) w with
    | [] => firstFields run ws
    | fields => return (fields, ws)

def expandArguments (run : Runner) (assigning : Bool) (ws : List Word) : Eval (List String) := do
  let fields ← ws.mapM fun w => do
    if assigning ∧ w.isAssignment then
      return [← expandText (capture run) { laterTilde := true } w]
    else expandFields (capture run) w
  return fields.flatten

/-- What stands in front of a command that is shown. A text in which something is wrong stands there
as it is. -/
def traceMark (run : Runner) : Eval String := do
  let text := (← value? "PS4").getD ""
  let line := (← process).line
  modifyProcess fun p => { p with tracing := true }
  let r ← attempt do
    match Reader.template.run { rest := text.toList, line := 1 } with
    | .ok w _ => expandText (capture run) { quoted := true } w
    | .error e _ => syntaxFault e
  modifyProcess fun p => { p with tracing := false, line }
  match r with
  | .ok mark => return mark
  | .error .fault => return text
  | .error stop => throw stop

/-- Shows a command before it is run, if that is wanted, where complaints went before redirections
if that is known. -/
def trace (run : Runner) (stderr : Option Nat) (texts : List String) : Eval Unit := do
  if (← isOn 'x') ∧ ¬ (← process).tracing then
    let text := (← traceMark run) ++ " ".intercalate texts ++ "\n"
    keepingDescriptors do
      if stderr.isSome then setDescriptor 2 stderr
      let _ ← write 2 (bytes text)

/-- Runs a function. -/
def callFunction (run : Runner) (body : Command) (args : List String) (tested : Bool) :
    Eval Nat := do
  let { parameters, loops, .. } ← process
  modifyProcess fun p => { p with parameters := args, loops := 0 }
  let r ← attempt (run body tested false)
  modifyProcess fun p => { p with parameters, loops }
  match r with
  | .ok status => return status
  | .error .giveBack => return (← process).status
  | .error stop => throw stop

/-- Runs a program in a process of its own, or in this one if nothing follows. -/
def runProgram (run : Runner) (name : String) (args : List String) (last : Bool) : Eval Nat := do
  let directories := (← value? "PATH").getD ""
  match locate (← world).files (← process).directory directories name with
  | .error e =>
    complain (name ++ ": " ++ e.text)
    return 127
  | .ok path =>
    if last then
      become run name path args
      return 0
    else await (← inChild id (become run name path args))

/-- Runs the text of a file in this shell. Complaints name the file. -/
def runDotFile (run : Runner) (name : String) : Eval Nat := do
  let files := (← world).files
  let cwd := (← process).directory
  let inPath := (Text.parts ':' ((← value? "PATH").getD "")).findSome? fun dir =>
    let path := if dir = "" then name else dir ++ "/" ++ name
    match files.find cwd path with
    | .ok (_, .file _) => some path
    | _ => none
  let path ← if name.toList.contains '/' then pure name else match inPath with
    | some path => pure path
    | none => fault (name ++ ": not found")
  match ← openPath path .read false with
  | .error o => fault (openComplaint .read path o)
  | .ok opening =>
    let descriptors := (← process).descriptors
    setDescriptor 11 (some (← addOpening opening))
    let text := match ← readAll 11 with
      | .ok bs => sourceText bs
      | .error _ => []
    modifyProcess fun p => { p with descriptors, builtin := some path }
    match ← attempt (runText run false true text) with
    | .ok status => return status
    | .error .giveBack => return (← process).status
    | .error stop => throw stop

/-- What `command` is asked to find is printed as it would be called. -/
def describeCommand (name : String) : Eval Nat := do
  if Token.reservedWords.contains name ∨ isBuiltin name ∨
      ((← process).functions.lookup name).isSome then
    Builtin.print "command" (name ++ "\n")
  else
    let files := (← world).files
    let cwd := (← process).directory
    match locate files cwd ((← value? "PATH").getD "") name with
    | .error _ => return 127
    | .ok path =>
      match programAt files cwd path with
      | .ok _ => Builtin.print "command" (path ++ "\n")
      | .error _ => return 127

/-- Carries out a built-in command. -/
def runBuiltin (run : Runner) (name : String) (args : List String) (tested last : Bool) :
    Eval Nat := do
  match name with
  | "eval" =>
    if args = [] then return 0
    runText run tested false (" ".intercalate args).toList
  | "." => match args with
    | [] => return 0
    | path :: _ => runDotFile run path
  | "exec" => match args with
    | [] => return 0
    | name :: args =>
      let directories := (← value? "PATH").getD ""
      match locate (← world).files (← process).directory directories name with
      | .error e =>
        complain (name ++ ": " ++ e.text)
        setStatus 127
        throw .leave
      | .ok path =>
        become run name path args
        return 0
  | "command" =>
    let (letters, args) ← Builtin.optionLetters ['p', 'v', 'V'] args
    match args with
    | [] => return 0
    | name :: args =>
      if letters.isEmpty ∨ letters.getLast? = some 'p' then runProgram run name args last
      else describeCommand name
  | name => match Builtin.table.lookup name with
    | some builtin => builtin args
    | none => return 127

/-- Carries out a built-in command so that complaints name it. What is wrong in it ends the shell
only if the command is special. -/
def callBuiltin (run : Runner) (name : String) (args : List String) (special tested last : Bool) :
    Eval Nat := do
  let builtin := (← process).builtin
  modifyProcess fun p => { p with builtin := some name }
  let r ← attempt (runBuiltin run name args tested last)
  modifyProcess fun p => { p with builtin }
  match r with
  | .ok status => return status
  | .error .fault => if special then throw .fault else return (← process).status
  | .error stop => throw stop

/-- The words behind `command`, if it is asked to run a command and not to describe one. -/
def behindCommand? : List String → Option (List String)
  | "--" :: arg :: args => some (arg :: args)
  | "-p" :: args => behindCommand? args
  | arg :: args => if arg.startsWith "-" ∧ arg ≠ "-" then none else some (arg :: args)
  | [] => none

/-- What some words are to be taken for: their meaning, and the words without those that only say
how to look for the command. -/
def resolve : (fuel : Nat) → (plain : Bool) → List String → Eval (Meaning × Bool × List String)
  | _, plain, [] => return (.nothing, plain, [])
  | 0, plain, argv => return (.nothing, plain, argv)
  | fuel + 1, plain, name :: args => do
    let m ← meaning plain name
    match m, if name = "command" then behindCommand? args else none with
    | .builtin _, some args => resolve fuel false args
    | m, _ => return (m, plain, name :: args)

/-- Gives values to variables in front of a command; the texts are those that were worked out. -/
def assignAll (run : Runner) (locally exporting : Bool) : List Word → Eval (List String)
  | [] => return []
  | w :: ws => do
    let text ← expandText (capture run) { laterTilde := true } w
    let (name, value) := splitAssignment text
    if locally then assignLocally name value
    else
      assign name value
      if exporting then
        putVariable name ((← variableOf name).map fun v => { v with exported := true })
    return text :: (← assignAll run locally exporting ws)

def runSimple (run : Runner) (assignments words : List Word) (redirections : List Redirection)
    (tested last : Bool) : Eval Nat := do
  let (first, others) ← firstFields run words
  let name := first.headD ""
  let assigning := assigningBuiltins.contains name &&
    match ← meaning true name with
    | .builtin _ => true
    | _ => false
  let argv := first ++ (← expandArguments run assigning others)
  let (m, plain, command) ← resolve argv.length true argv
  let special := m.isSpecial && plain
  let locally := match m with
    | .nothing => false
    | _ => !special
  let permanent := command = ["exec"]
  let stderr := (← process).descriptors.lookup 2
  let prepared ← redirections.mapM (prepare (capture run))
  let body : Eval Nat := do
    unless ← redirectAll (capture run) prepared do
      setStatus 2
      if special then throw .fault
      return 2
    let exporting := command.head? = some "exec" && command.length > 1
    let texts ← assignAll run locally exporting assignments
    trace run stderr (texts ++ argv)
    match m, command with
    | .builtin _, name :: args => callBuiltin run name args special tested last
    | .function f, _ :: args => callFunction run f args tested
    | .program, name :: args => runProgram run name args last
    | _, _ => return (← process).substituted
  let inScope : Eval Nat := do
    if locally then
      openScope
      thenAlways body closeScope
    else body
  if permanent then inScope else keepingDescriptors inScope

/-! ## Loops -/

/-- More rounds than a loop can be waited for. -/
def manyRounds : Nat := 1000000000

/-- Runs something inside one more loop. -/
def insideLoop {α : Type} (a : Eval α) : Eval α := do
  modifyProcess fun p => { p with loops := p.loops + 1 }
  thenAlways a (modifyProcess fun p => { p with loops := p.loops - 1 })

/-- How a part of a loop ended. -/
inductive Round where
  | done (status : Nat)
  /-- The loop ends. -/
  | over
  /-- The loop goes on with the next round. -/
  | again

/-- Runs a part of a loop. -/
def round (a : Eval Nat) : Eval Round := do
  match ← attempt a with
  | .ok status => return .done status
  | .error (.breakLoops n) => if n ≤ 1 then return .over else throw (.breakLoops (n - 1))
  | .error (.continueLoop n) => if n ≤ 1 then return .again else throw (.continueLoop (n - 1))
  | .error stop => throw stop

def loopWhile (run : Runner) (whileZero : Bool) (test body : Command) (tested : Bool) :
    (fuel : Nat) → (status : Nat) → Eval Nat
  | 0, status => return status
  | fuel + 1, status => do
    match ← round (run test true false) with
    | .over => return status
    | .again => loopWhile run whileZero test body tested fuel status
    | .done t =>
      if (t = 0) ≠ whileZero then return status
      match ← round (run body tested false) with
      | .over => return (← process).status
      | .again => loopWhile run whileZero test body tested fuel (← process).status
      | .done status => loopWhile run whileZero test body tested fuel status

def loopFor (run : Runner) (name : String) (body : Command) (tested : Bool) :
    List String → (status : Nat) → Eval Nat
  | [], status => return status
  | value :: values, _ => do
    assign name value
    match ← round (run body tested false) with
    | .over => return (← process).status
    | .again => loopFor run name body tested values (← process).status
    | .done status => loopFor run name body tested values status

/-! ## Choices -/

def anyAccepts (run : Runner) (subject : List Char) : List Word → Eval Bool
  | [] => return false
  | w :: ws => do
    if (← expandPattern (capture run) w).accepts subject then return true
    anyAccepts run subject ws

/-- The command of the first branch that has a pattern for the subject. -/
def chooseBranch (run : Runner) (subject : List Char) : List (List Word × Command) → Eval Command
  | [] => return .skip
  | (ws, body) :: branches => do
    if ← anyAccepts run subject ws then return body
    chooseBranch run subject branches

/-! ## Commands -/

/-- Ends the shell if a failure is to do so. -/
def checkFailure (tested : Bool) (status : Nat) : Eval Nat := do
  if status ≠ 0 ∧ ¬ tested ∧ (← isOn 'e') then
    setStatus status
    throw .leave
  return status

def atLine (line : Nat) : Eval Unit := modifyProcess fun p => { p with line }

/-- Runs a command, where the status is still to be noted. -/
def step (run : Runner) (c : Command) (tested last : Bool) : Eval Nat := do
  match c with
  | .skip => return 0
  | .simple line assignments words redirections =>
    atLine line
    modifyProcess fun p => { p with substituted := 0 }
    checkFailure tested (← runSimple run assignments words redirections tested last)
  | .pipeline background stages =>
    if background then
      inBackground do
        let endings ← runStages run false none stages
        setStatus (← awaitAll endings 0)
    else
      let endings ← runStages run tested none stages
      checkFailure tested (← awaitAll endings 0)
  | .redirected line body redirections =>
    atLine line
    let prepared ← redirections.mapM (prepare (capture run))
    keepingDescriptors do
      if ← redirectAll (capture run) prepared then run body tested false
      else checkFailure tested 2
  | .background line body redirections =>
    if line ≠ 0 then atLine line
    let prepared ← redirections.mapM (prepare (capture run))
    inBackground do
      prepared.forM (redirect (capture run))
      let _ ← run body false true
  | .subshell line body redirections =>
    atLine line
    let prepared ← redirections.mapM (prepare (capture run))
    let inside : Eval Unit := do
      prepared.forM (redirect (capture run))
      let _ ← run body tested true
    if last then
      inside
      throw .leave
    else checkFailure tested (← await (← inChild id inside))
  | .sequence first second =>
    let _ ← run first tested false
    run second tested last
  | .both first second =>
    let status ← run first true false
    if status = 0 then run second tested last else return status
  | .either first second =>
    let status ← run first true false
    if status = 0 then return status else run second tested last
  | .negation body => return if (← run body true false) = 0 then 1 else 0
  | .conditional test thenPart elsePart =>
    if (← run test true false) = 0 then run thenPart tested last
    else if elsePart.isSkip then return 0
    else run elsePart tested last
  | .loop whileZero test body =>
    insideLoop (loopWhile run whileZero test body tested manyRounds 0)
  | .forEach line name words body =>
    atLine line
    let values ← expandArguments run false words
    insideLoop (loopFor run name body tested values 0)
  | .choice line subject branches =>
    atLine line
    let subject ← expandText (capture run) { tilde := true } subject
    let body ← chooseBranch run subject.toList branches
    if body.isSkip then return 0 else run body tested last
  | .definition name body =>
    modifyProcess fun p =>
      { p with functions := (name, body) :: p.functions.filter (·.1 ≠ name) }
    return 0

/-- Runs commands inside each other down to a depth. -/
def evaluate : (depth : Nat) → Runner
  | 0, _, _, _ => throw .leave
  | depth + 1, c, tested, last => do
    if ← isOn 'n' then return 0
    let status ← step (evaluate depth) c tested last
    setStatus status
    return status

/-- Runs commands. -/
def run : Runner := evaluate 1000000

end Shellwright.Shell.Eval
