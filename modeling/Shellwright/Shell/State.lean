import Shellwright.Directory
import Shellwright.Shell.Command
import Shellwright.Shell.Signal

/-!
# Running commands: states

A session is what all processes share (the files, what is open, which processes there are) together
with the process that is running. A process that starts another one waits for it, and finds the
shared part as the other one has left it.
-/
namespace Shellwright.Shell

open Text (Bytes bytes)

/-! ## What processes share -/

/-- What can be read from or written to. -/
inductive Target where
  | file (place : Place)
  | folder
  | null
  | full
  /-- A queue of bytes by its number. -/
  | pipe (index : Nat)
deriving DecidableEq

/-- Something that has been opened, with the place that reading and writing has come to. -/
structure Opening where
  target : Target
  offset : Nat := 0
  reads : Bool := false
  writes : Bool := false
  appends : Bool := false

structure World where
  files : Directory
  openings : Array Opening := #[]
  pipes : Array Bytes := #[]
  /-- The processes that have not ended, and the number of the next one. -/
  alive : List Nat := []
  nextProcess : Nat
  /-- Processes that a signal is on its way to. -/
  doomed : List (Nat × Nat) := []

/-! ## Processes -/

structure Variable where
  value : Option String := none
  exported : Bool := false
  readOnly : Bool := false

structure Process where
  /-- The name that the shell was started by. -/
  name : String
  /-- The number of the shell, and that of the process, which may be a copy of the shell. -/
  shell : Nat
  self : Nat
  directory : Place := Directory.home
  /-- The variables by their names. -/
  bindings : List (String × Variable) := []
  parameters : List String := []
  options : List Char := []
  functions : List (String × Command) := []
  /-- The documents of all commands that have been read. -/
  documents : Array Word := #[]
  /-- What is open, by the numbers that the process knows it by. -/
  descriptors : List (Nat × Nat) := []
  /-- The exit code of the last command. -/
  status : Nat := 0
  /-- The exit code of the last command whose output became part of a word. -/
  substituted : Nat := 0
  /-- The line of the command that is running, and the line that reading has come to. -/
  line : Nat := 0
  reachedLine : Nat := 0
  /-- Whether what stands in front of a command that is shown is being worked out. -/
  tracing : Bool := false
  /-- The built-in command that is running. -/
  builtin : Option String := none
  /-- The loops that the command is inside of. -/
  loops : Nat := 0
  /-- What variables were before they became local, for each scope that is open. -/
  scopes : List (List (String × Option Variable)) := []
  /-- The last process that nobody waited for. -/
  background : Option Nat := none

structure Session where
  world : World
  process : Process

/-- Why the commands that follow are not run. -/
inductive Stop where
  /-- The shell ends with its status. -/
  | leave
  /-- Something was wrong and has been complained about. -/
  | fault
  | killed (signal : Nat)
  /-- That many loops end. -/
  | breakLoops (count : Nat)
  /-- All but one of that many loops end, and that one goes on. -/
  | continueLoop (count : Nat)
  /-- The function ends. -/
  | giveBack

abbrev Eval := ExceptT Stop (StateM Session)

namespace Eval

def world : Eval World := do return (← get).world

def process : Eval Process := do return (← get).process

def modifyWorld (f : World → World) : Eval Unit := modify fun s => { s with world := f s.world }

def modifyProcess (f : Process → Process) : Eval Unit :=
  modify fun s => { s with process := f s.process }

def setStatus (status : Nat) : Eval Unit := modifyProcess fun p => { p with status }

/-- What comes of `a` in a session. -/
def result {α : Type} (a : Eval α) (s : Session) : Except Stop α × Session :=
  StateT.run (ExceptT.run a) s

/-- Runs `a`, and says why it stopped if it did. -/
def attempt {α : Type} (a : Eval α) : Eval (Except Stop α) :=
  ExceptT.mk do
    let r ← ExceptT.run a
    return .ok r

/-- Runs `a` and then, however `a` ended, `b`. -/
def thenAlways {α : Type} (a : Eval α) (b : Eval Unit) : Eval α := do
  let r ← attempt a
  b
  match r with
  | .ok x => return x
  | .error stop => throw stop

/-! ## Reading and writing -/

def opening? (number : Nat) : Eval (Option (Nat × Opening)) := do
  let s ← get
  return (s.process.descriptors.lookup number).bind fun i =>
    s.world.openings[i]?.map (i, ·)

/-- Opens something for the session; the result is its index. -/
def addOpening (o : Opening) : Eval Nat := do
  let i := (← world).openings.size
  modifyWorld fun w => { w with openings := w.openings.push o }
  return i

def newPipe : Eval Nat := do
  let i := (← world).pipes.size
  modifyWorld fun w => { w with pipes := w.pipes.push [] }
  return i

/-- Has the process know something open by a number, or know nothing by it. -/
def setDescriptor (number : Nat) (index : Option Nat) : Eval Unit :=
  modifyProcess fun p =>
    let others := p.descriptors.filter (·.1 ≠ number)
    { p with descriptors := match index with
        | some i => (number, i) :: others
        | none => others }

/-- Content with `new` written over it from `offset` on; a gap is filled with zeros. -/
def overwrite (content : Bytes) (offset : Nat) (new : Bytes) : Bytes :=
  content.take offset ++ List.replicate (offset - content.length) 0 ++ new ++
    content.drop (offset + new.length)

/-- Writes to what a number stands for, if that can be done. -/
def write (number : Nat) (bs : Bytes) : Eval Bool := do
  if bs.isEmpty then return true
  match ← opening? number with
  | none => return false
  | some (i, o) =>
    if ¬ o.writes then return false
    match o.target with
    | .null => return true
    | .folder | .full => return false
    | .pipe k =>
      modifyWorld fun w => { w with pipes := w.pipes.modify k (· ++ bs) }
      return true
    | .file place =>
      modifyWorld fun w =>
        let content := w.files.contentAt place
        let offset := if o.appends then content.length else o.offset
        { w with
          files := w.files.put place (.file (overwrite content offset bs))
          openings := w.openings.modify i fun o => { o with offset := offset + bs.length } }
      return true

/-- Why nothing can be written to what a number stands for. -/
def writeObstacle (number : Nat) : Eval String := do
  let target := (← opening? number).map fun (_, o) => o.target
  return if target = some .full then "No space left on device" else "Bad file descriptor"

inductive ReadFault where
  | notOpen
  | isDirectory

/-- Reads all there is behind the place that reading has come to. -/
def readAll (number : Nat) : Eval (Except ReadFault Bytes) := do
  match ← opening? number with
  | none => return .error .notOpen
  | some (i, o) =>
    if ¬ o.reads then return .error .notOpen
    match o.target with
    | .null | .full => return .ok []
    | .folder => return .error .isDirectory
    | .pipe k =>
      let bs := (← world).pipes[k]?.getD []
      modifyWorld fun w => { w with pipes := w.pipes.modify k fun _ => [] }
      return .ok bs
    | .file place =>
      let content := (← world).files.contentAt place
      modifyWorld fun w =>
        { w with openings := w.openings.modify i fun o => { o with offset := content.length } }
      return .ok (content.drop o.offset)

/-- Opens what an entry stands for again. -/
def reopen (o : Opening) (number : Nat) : Eval (Except Directory.Obstacle Opening) := do
  match ← opening? number with
  | some (_, old) => return .ok { o with target := old.target }
  | none => return .error .missing

/-- Opens a path. New files are created, and those that are written from their beginning lose their
content. -/
def openPath (path : String) (access : Access) (keepExisting : Bool) :
    Eval (Except Directory.Obstacle Opening) := do
  let files := (← world).files
  let cwd := (← process).directory
  let o : Opening := { target := .null
                       reads := access = .read || access = .readWrite
                       writes := access ≠ .read
                       appends := access = .append }
  match access with
  | .read =>
    match files.find cwd path with
    | .error e => return .error e
    | .ok (place, entry) =>
      match entry with
      | .file _ | .program => return .ok { o with target := .file place }
      | .dir => return .ok { o with target := .folder }
      | .null => return .ok { o with target := .null }
      | .full => return .ok { o with target := .full }
      | .descriptor n => reopen o n
  | access =>
    match files.findForWriting cwd path with
    | .error e => return .error e
    | .ok (place, entry) =>
      match entry with
      | some .null => return .ok { o with target := .null }
      | some .full => return .ok { o with target := .full }
      | some .dir => return .error .isDirectory
      | some (.descriptor n) => reopen o n
      | some .program => return .error .taken
      | some (.file _) =>
        if access = .write ∧ keepExisting then return .error .taken
        if access = .write ∨ access = .overwrite then
          modifyWorld fun w => { w with files := w.files.put place (.file []) }
        return .ok { o with target := .file place }
      | none =>
        modifyWorld fun w => { w with files := w.files.put place (.file []) }
        return .ok { o with target := .file place }

/-! ## Complaints -/

/-- Complains on the standard error, beginning with the name of the shell and the line. -/
def complain (message : String) : Eval Unit := do
  let p ← process
  let command := match p.builtin with
    | some name => name ++ ": "
    | none => ""
  let _ ← write 2 (bytes (p.name ++ ": " ++ toString p.line ++ ": " ++ command ++ message ++ "\n"))

/-- Complains and gives up. -/
def fault {α : Type} (message : String) : Eval α := do
  complain message
  setStatus 2
  throw .fault

/-! ## Variables and options -/

def isOn (option : Char) : Eval Bool := do return (← process).options.contains option

def variableOf (name : String) : Eval (Option Variable) := do
  return (← process).bindings.lookup name

def value? (name : String) : Eval (Option String) := do
  return (← variableOf name).bind (·.value)

/-- Puts a variable in the stead of what had its name. -/
def putVariable (name : String) (v : Option Variable) : Eval Unit :=
  modifyProcess fun p =>
    let others := p.bindings.filter (·.1 ≠ name)
    { p with bindings := match v with
        | some v => (name, v) :: others
        | none => others }

/-! ## Other processes -/

inductive Ending where
  | exited (status : Nat)
  | signalled (signal : Nat)

/-- Ends the process if a signal was on its way to it. -/
def heedSignals : Eval Unit := do
  let s ← get
  match s.world.doomed.lookup s.process.self with
  | some signal => throw (.killed signal)
  | none => return ()

/-- Runs a process with a number of its own in the stead of this one until it ends. -/
def inChild (start : Process → Process) (body : Eval Unit) : Eval Ending := do
  let parent ← process
  let self := (← world).nextProcess
  modifyWorld fun w => { w with nextProcess := self + 1, alive := self :: w.alive }
  modifyProcess fun p => start { p with self }
  let r ← attempt do
    body
    heedSignals
  let status := (← process).status % 256
  let doomed := (← world).doomed.lookup self
  modifyWorld fun w =>
    { w with alive := w.alive.erase self, doomed := w.doomed.filter (·.1 ≠ self) }
  modifyProcess fun _ => parent
  heedSignals
  match r, doomed with
  | .error (.killed signal), _ | _, some signal => return .signalled signal
  | _, none => return .exited status

/-- The status of a process that has ended. If a signal ended it that is said, unless the signal is
a silent one. -/
def await (e : Ending) : Eval Nat := do
  match e with
  | .exited status => return status
  | .signalled signal =>
    unless Signal.isSilent signal do
      let _ ← write 2 (bytes (Signal.text signal ++ "\n"))
    return 128 + signal

end Eval

end Shellwright.Shell
