import Shellwright.Shell.Reader
import Shellwright.Shell.State

/-!
# Running texts

A text is read line by line, and each line is run before the next one is read.
-/
namespace Shellwright.Shell

/-- How a command is run; the result is its exit code. A failure of a command that is `tested` is
expected, and nothing follows one that is `last`. -/
abbrev Runner := Command → (tested last : Bool) → Eval Nat

namespace Eval

open Text (bytes)

/-- The part of a text that is shown when reading has come to its last `left` characters: the lines
that have been begun. The second component is what is shown later. -/
def begunLines (hidden : List Char) (left : Nat) : List Char × List Char :=
  let begun := hidden.take (hidden.length - left)
  let rest := hidden.drop begun.length
  match begun.getLast? with
  | none => ([], hidden)
  | some '\n' => (begun, rest)
  | some _ =>
    let line := rest.takeWhile (· ≠ '\n')
    (begun ++ line ++ (rest.drop line.length).take 1, rest.drop (line.length + 1))

/-- Complains about a text that cannot be read. -/
def syntaxFault {α : Type} (e : SyntaxFault) : Eval α := do
  modifyProcess fun p => { p with line := e.line }
  fault ("Syntax error: " ++ e.message)

/-- Runs what is left of a text; `hidden` is what has not been shown yet if lines are shown. -/
def runSource (run : Runner) (tested : Bool) :
    (fuel : Nat) → Source → (hidden : Option (List Char)) → (status : Nat) → Eval Nat
  | 0, _, _, status => return status
  | fuel + 1, source, hidden, status => do
    let result := Reader.line.run { source with documents := (← process).documents }
    let after := match result with
      | .ok _ s => s
      | .error _ s => s
    let hidden ← match hidden with
      | none => pure none
      | some text => do
        let (shown, rest) := begunLines text after.rest.length
        if ← isOn 'v' then
          let _ ← write 2 (bytes (String.ofList shown))
        pure (some rest)
    modifyProcess fun p => { p with documents := after.documents, reachedLine := after.line }
    match result with
    | .error e _ => syntaxFault e
    | .ok none _ => return status
    | .ok (some c) s =>
      let status ← if c.isSkip then pure status else run c tested false
      runSource run tested fuel { rest := s.rest, line := s.line } hidden status

/-- Runs a text, whose lines are counted from one. -/
def runText (run : Runner) (tested shown : Bool) (text : List Char) : Eval Nat := do
  let reachedLine := (← process).reachedLine
  thenAlways
    (runSource run tested (text.length + 2) { rest := text, line := 1 }
      (if shown then some text else none) 0)
    (modifyProcess fun p => { p with reachedLine })

end Eval

end Shellwright.Shell
