import Shellwright.Cli.Host
import Shellwright.Shell.Eval

/-!
# A machine

A host whose state is a tree of files together with the environment of the programs it starts. It
has the programs that the shell knows, and the shell itself.
-/
namespace Shellwright

open Cli (Refusal Ending Finished Host)
open Text (Bytes encode decode? toOctets ofOctets)

structure Machine where
  files : Directory
  environment : List (String × String)
deriving DecidableEq

namespace Machine

/-- What the environment holds if nothing else is said. -/
def defaultEnvironment : List (String × String) :=
  [("HOME", "/root"), ("PATH", Shell.Eval.defaultPath)]

/-- A machine whose working directory has the given entries, by their paths. -/
def ofEntries (entries : List (String × Entry)) (environment : List (String × String)) :
    Machine where
  files := entries.foldl (fun d (path, e) =>
    d.put (Directory.home ++ Directory.components (toOctets path)) e) .empty
  environment := environment ++ defaultEnvironment.filter fun (name, _) =>
    (environment.lookup name).isNone

/-- The plain files directly in the working directory that are new in `m` or have changed. -/
def changes (old m : Machine) : List (String × Bytes) :=
  (Directory.changes old.files m.files).map fun (name, content) => (ofOctets name, content)

def notFound : Refusal := ⟨"No such file or directory (os error 2)"⟩

def denied : Refusal := ⟨"Permission denied (os error 13)"⟩

def isDirectory : Refusal := ⟨"Is a directory (os error 21)"⟩

def noRoom : Refusal := ⟨"No space left on device (os error 28)"⟩

def invalidText : Refusal := ⟨"stream did not contain valid UTF-8"⟩

def nulByte : Refusal := ⟨"nul byte found in provided data"⟩

def refusal : Directory.Obstacle → Refusal
  | .missing => notFound
  | .taken => ⟨"File exists (os error 17)"⟩
  | .notDirectory => ⟨"Not a directory (os error 20)"⟩
  | .isDirectory => isDirectory

/-- The text of a file. -/
def read (m : Machine) (path : String) : Except Refusal String :=
  match m.files.find Directory.home (toOctets path) with
  | .error o => .error (refusal o)
  | .ok (_, .dir) => .error isDirectory
  | .ok (_, .file content) => match decode? content with
    | some text => .ok text
    | none => .error invalidText
  | .ok _ => .ok ""

/-- Creates a file or replaces what it holds. -/
def write (m : Machine) (path content : String) : Machine × Except Refusal Unit :=
  match m.files.findForWriting Directory.home (toOctets path) with
  | .error o => (m, .error (refusal o))
  | .ok (place, none) | .ok (place, some (.file _)) =>
    ({ m with files := m.files.put place (.file (encode content)) }, .ok ())
  | .ok (_, some .full) => (m, .error noRoom)
  | .ok _ => (m, .ok ())

/-- The number that the first process has. -/
def firstProcess : Nat := 4242

/-- What there is when a program starts: nothing to read, and two places to print to. -/
def session (m : Machine) (program : String) : Shell.Session where
  world := {
    files := m.files
    openings := #[{ target := .null, reads := true }, { target := .pipe 0, writes := true },
      { target := .pipe 1, writes := true }]
    pipes := #[[], []]
    alive := [firstProcess]
    nextProcess := firstProcess + 1 }
  process := {
    name := program
    shell := firstProcess
    self := firstProcess
    bindings := m.environment.map fun (name, value) =>
      (toOctets name, { value := some (toOctets value), exported := true })
    descriptors := [(0, 0), (1, 1), (2, 2)] }

/-- Starts a program. No argument can hold the character that ends one. -/
def launch (m : Machine) (program : String) (args : List String) :
    Except Refusal (Finished Machine) :=
  if (program :: args).any (·.toList.contains '\x00') then .error nulByte
  else if program = "" then .error notFound
  else
    let name := toOctets program
    let directories := toOctets ((m.environment.lookup "PATH").getD "")
    match Shell.Eval.locate m.files Directory.home directories name with
    | .error .missing => .error notFound
    | .error .forbidden => .error denied
    | .ok path =>
      match m.files.find Directory.home path with
      | .error o => .error (refusal o)
      | .ok (_, .program) =>
        let (result, s) := Shell.Eval.result
          (Shell.Eval.become Shell.Eval.run name path (args.map toOctets)) (m.session name)
        .ok {
          stdout := s.world.pipes[0]?.getD []
          stderr := s.world.pipes[1]?.getD []
          ending := match result with
            | .error (.killed _) => .signalled
            | _ => .exited s.process.status.toUInt8
          state := { m with files := s.world.files } }
      | .ok _ => .error denied

def host : Host Machine := ⟨read, write, launch⟩

end Machine

end Shellwright
