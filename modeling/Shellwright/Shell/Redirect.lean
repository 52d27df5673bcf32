import Shellwright.Shell.Expansion

/-!
# Redirection

What a command reads and writes is changed before it runs. First all names are worked out, then the
files are opened one after the other.
-/
namespace Shellwright.Shell.Eval

open Text (bytes)

/-- A redirection whose names are known. -/
inductive Prepared where
  | file (number : Nat) (access : Access) (path : String)
  | duplicate (number source : Nat)
  | close (number : Nat)
  | document (number index : Nat)

def prepare (capture : Capture) : Redirection → Eval Prepared
  | .file number access path => do
    return .file number access (← expandText capture { tilde := true } path)
  | .duplicate number source => return .duplicate number source
  | .close number => return .close number
  | .document number index => return .document number index
  | .computed number source => do
    match (← expandText capture { tilde := true } source).toList with
    | ['-'] => return .close number
    | text =>
      match text with
      | [c] => if c.isDigit then return .duplicate number (c.toNat - '0'.toNat)
      | _ => pure ()
      modifyProcess fun p => { p with line := p.reachedLine }
      fault "Syntax error: Bad fd number"

/-- Why a file could not be opened, as it is complained about. -/
def openComplaint (access : Access) (path : String) (o : Directory.Obstacle) : String :=
  let verb := if access = .read then "open" else "create"
  let reason := match o with
    | .isDirectory => "Is a directory"
    | .taken => "File exists"
    | _ => if access = .read then "No such file" else "Directory nonexistent"
  "cannot " ++ verb ++ " " ++ path ++ ": " ++ reason

/-- Something open that gives a text to read. -/
def openText (text : String) : Eval Nat := do
  let pipe ← newPipe
  modifyWorld fun w => { w with pipes := w.pipes.modify pipe fun _ => bytes text }
  addOpening { target := .pipe pipe, reads := true }

def redirect (capture : Capture) : Prepared → Eval Unit
  | .file number access path => do
    match ← openPath path access (← isOn 'C') with
    | .error o => fault (openComplaint access path o)
    | .ok o => setDescriptor number (some (← addOpening o))
  | .duplicate number source => do
    match ← opening? source with
    | none => fault (toString source ++ ": Bad file descriptor")
    | some (i, _) => setDescriptor number (some i)
  | .close number => setDescriptor number none
  | .document number index => do
    let document := (← process).documents[index]?.getD []
    let text ← expandText capture { quoted := true } document
    setDescriptor number (some (← openText text))

/-- Redirects, and says whether nothing was wrong. -/
def redirectAll (capture : Capture) (rs : List Prepared) : Eval Bool := do
  match ← attempt (rs.forM (redirect capture)) with
  | .ok () => return true
  | .error .fault => return false
  | .error stop => throw stop

/-- Runs something, after which everything is open again that was open before. -/
def keepingDescriptors {α : Type} (a : Eval α) : Eval α := do
  let descriptors := (← process).descriptors
  thenAlways a (modifyProcess fun p => { p with descriptors })

end Shellwright.Shell.Eval
