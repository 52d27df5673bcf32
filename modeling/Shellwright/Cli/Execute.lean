import Shellwright.Cli.Host
import Shellwright.Cli.Request
import Shellwright.Compile

/-!
# Carrying out a request

Both commands compile the file first. If it cannot be read or does not compile, that is reported and
nothing else happens; otherwise the script is printed, written or handed to the shell.
-/
namespace Shellwright.Cli

open Text (Bytes encode)

/-- What a run of the program leaves behind. -/
structure Outcome (σ : Type) where
  code : UInt8
  stdout : Bytes := []
  stderr : Bytes := []
  state : σ
  /-- The program that was started, with its arguments. -/
  launched : Option (String × List String) := none

/-- How a refused operation is reported. -/
def refused (operation target : String) (r : Refusal) : String :=
  "error: cannot " ++ operation ++ " " ++ target ++ ": " ++ r.text

/-- How an error in a source is reported. -/
def rejected (e : CompileError) : String :=
  match e.position? with
  | some _ => "kyro error at " ++ e.diagnostic
  | none => "kyro error: " ++ e.diagnostic

def versionText : String := "kyro 0.1.0"

/-- Failure with a line on the standard error, in the state that was reached. -/
def Outcome.failure {σ : Type} (s : σ) (report : String) : Outcome σ where
  code := 1
  stderr := encode (report ++ "\n")
  state := s

/-- The exit code that stands for the end of a program. -/
def Ending.code : Ending → UInt8
  | exited code => code
  | signalled => 1

variable {σ : Type}

/-- The script of a file, or the line that says why there is none. -/
def compileFile (host : Host σ) (s : σ) (file : String) : Except String String :=
  match host.read s file with
  | .error r => .error (refused "read" file r)
  | .ok source => (compile source).mapError rejected

/-- Writes a script out, with a newline at its end. -/
def deliver (host : Host σ) (s : σ) (script : String) : Option String → Outcome σ
  | none => { code := 0, stdout := encode (script ++ "\n"), state := s }
  | some path => match host.write s path (script ++ "\n") with
    | (s, .ok ()) => { code := 0, state := s }
    | (s, .error r) => .failure s (refused "write" path r)

/-- Has a shell run a script. -/
def start (host : Host σ) (s : σ) (shell script : String) : Outcome σ :=
  match host.launch s shell ["-c", script] with
  | .ok f =>
    { code := f.ending.code, stdout := f.stdout, stderr := f.stderr, state := f.state,
      launched := some (shell, ["-c", script]) }
  | .error r => .failure s (refused "start" shell r)

def execute (host : Host σ) (s : σ) : Request → Outcome σ
  | .compile file output => match compileFile host s file with
    | .ok script => deliver host s script output
    | .error report => .failure s report
  | .run file shell => match compileFile host s file with
    | .ok script => start host s shell script
    | .error report => .failure s report
  | .version => { code := 0, stdout := encode (versionText ++ "\n"), state := s }

end Shellwright.Cli
