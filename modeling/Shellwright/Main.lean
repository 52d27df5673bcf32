import Shellwright.Cli.Execute
import Shellwright.Machine

/-!
# The program

Reads the current directory into a machine, carries out the request there, and writes back the files
that have changed.
-/
namespace Shellwright

open Text (Bytes)

def usage : String :=
  "usage: kyro compile FILE [-o PATH]\n" ++
  "       kyro run FILE [--shell PROGRAM]\n" ++
  "       kyro --version\n"

/-- Whether a request may look at a place. A compilation looks only where its paths lead. -/
def concerns (request : Cli.Request) (place : Place) : Bool :=
  match request with
  | .compile file output =>
    (file :: output.toList).any fun path =>
      place.isPrefixOf ((Directory.components (Text.toOctets path)).filter (· ≠ "."))
  | _ => true

/-- What is in the current directory at the places wanted, down to a depth. -/
def snapshot (wanted : Place → Bool) (place : Place) : (depth : Nat) → IO (List (Place × Entry))
  | 0 => return []
  | depth + 1 => do
    let mut found := []
    let here := place.foldl (fun dir (name : String) => dir / Text.ofOctets name) (← IO.currentDir)
    for child in ← here.readDir do
      let place := place ++ [Text.toOctets child.fileName]
      if wanted place then
        if ← child.path.isDir then
          found := (place, .dir) :: (← snapshot wanted place depth) ++ found
        else
          found := (place, .file (← IO.FS.readBinFile child.path).toList) :: found
    return found

/-- The variables that are passed on to programs. -/
def environment : IO (List (String × String)) := do
  let mut found := []
  for (name, value) in Machine.defaultEnvironment do
    found := found ++ [(name, (← IO.getEnv name).getD value)]
  return found

def writeStream (stream : IO.FS.Stream) (bytes : Bytes) : IO Unit := do
  stream.write ⟨bytes.toArray⟩
  stream.flush

/-- Writes back a file that has changed. -/
def store (place : Place) (content : Bytes) : IO Unit := do
  let path := place.foldl (fun dir (name : String) => dir / Text.ofOctets name) (← IO.currentDir)
  IO.FS.writeBinFile path ⟨content.toArray⟩

end Shellwright

open Shellwright in
def main (args : List String) : IO UInt32 := do
  let preferred ← IO.getEnv "KYRO_SHELL"
  match Cli.Request.ofArgs preferred args with
  | none =>
    IO.eprint usage
    return 2
  | some request =>
    let found ← snapshot (concerns request) [] 16
    let files : Directory :=
      found.foldl (fun d (place, e) => d.put (Directory.home ++ place) e) .empty
    let before : Machine := ⟨files, ← environment⟩
    let outcome := Cli.execute Machine.host before request
    writeStream (← IO.getStdout) outcome.stdout
    writeStream (← IO.getStderr) outcome.stderr
    for (place, entry) in outcome.state.files.entries do
      match entry with
      | .file content =>
        unless before.files.entryAt place = some entry do
          if Directory.home.isPrefixOf place then store (place.drop Directory.home.length) content
      | _ => pure ()
    return outcome.code.toUInt32
