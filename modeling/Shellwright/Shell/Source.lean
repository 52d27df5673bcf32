import Shellwright.Shell.Command
import Shellwright.Shell.Token

/-!
# Reading a text

What is left of a text that is being read, with the line that has been reached, the last token, and
the documents that are still to come behind the line. A text is read no further than is needed,
since what it says may depend on the commands before.
-/
namespace Shellwright.Shell

/-- Why a text cannot be read, and the line that was reached. -/
structure SyntaxFault where
  line : Nat
  message : String

/-- A redirection whose target is still to come. -/
inductive Arrow where
  | file (access : Access)
  | duplicate
  /-- A document, with or without the tabs in front of its lines. -/
  | document (stripTabs : Bool)
deriving DecidableEq

/-- A document that follows the line. -/
structure Announced where
  index : Nat
  mark : List Char
  stripTabs : Bool
  /-- Whether the text is taken as it stands. -/
  verbatim : Bool

structure Source where
  rest : List Char
  line : Nat
  /-- The last token, and whether it is to be read again. -/
  last : Token := .eof
  pushedBack : Bool := false
  /-- The last word, and whether a part of it is quoted. -/
  word : Word := []
  quoted : Bool := false
  /-- The last redirection, and the number of the file it is about. -/
  arrow : Arrow := .duplicate
  number : Nat := 0
  announced : List Announced := []
  documents : Array Word := #[]

abbrev Reader := EStateM SyntaxFault Source

namespace Reader

def fail {α : Type} (message : String) : Reader α := do
  throw ⟨(← get).line, message⟩

/-- Complains about the last token. -/
def unexpected {α : Type} (wanted : Option Token) : Reader α := do
  let found := (← get).last.describe ++ " unexpected"
  match wanted with
  | some t => fail (found ++ " (expecting " ++ t.describe ++ ")")
  | none => fail found

def nextLine : Reader Unit := modify fun s => { s with line := s.line + 1 }

/-- The next character. -/
def next : Reader (Option Char) := do
  match (← get).rest with
  | [] => return none
  | c :: rest =>
    modify fun s => { s with rest }
    return some c

/-- A text without the line ends in front of it that are escaped, and their number. -/
def dropJoins : List Char → Nat → List Char × Nat
  | '\\' :: '\n' :: cs, n => dropJoins cs (n + 1)
  | cs, n => (cs, n)

/-- The next character behind line ends that are escaped. -/
def nextJoined : Reader (Option Char) := do
  modify fun s =>
    let (rest, n) := dropJoins s.rest 0
    { s with rest, line := s.line + n }
  next

/-- Puts a character back in front of the text. -/
def putBack : Option Char → Reader Unit
  | none => return ()
  | some c => modify fun s => { s with rest := c :: s.rest }

/-- Whether the next character is `c`, which is then passed. -/
def follows (c : Char) : Reader Bool := do
  let d ← nextJoined
  if d = some c then return true
  putBack d
  return false

/-- Has the last token read again. -/
def pushBack : Reader Unit := modify fun s => { s with pushedBack := true }

end Reader

end Shellwright.Shell
