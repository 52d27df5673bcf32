/-!
# Commands

The commands of the shell language as trees. A word is a list of pieces; what has to be worked out
when the word is used (parameters, commands whose output is wanted, arithmetic) is a piece of its
own.
-/
namespace Shellwright.Shell

/-- What is asked of a parameter. -/
inductive Operation where
  | value
  | length
  /-- The word if there is no value. -/
  | default
  /-- The word if there is a value. -/
  | alternative
  /-- The value, with the word as the complaint if there is none. -/
  | require
  /-- The value, which is the word from now on if there was none. -/
  | assign
  | cutSuffix (longest : Bool)
  | cutPrefix (longest : Bool)
  /-- Nothing that could be done. -/
  | unknown
deriving DecidableEq

/-- How a file is opened. -/
inductive Access where
  | read
  | write
  /-- As `write`, whatever the options say about files that exist. -/
  | overwrite
  | append
  | readWrite
deriving DecidableEq

mutual

inductive Piece where
  /-- A character; one that is escaped has no special meaning. -/
  | char (c : Char) (escaped : Bool)
  /-- Where a quoted part begins or ends. -/
  | quote
  /-- A parameter; `orEmpty` makes an empty value count as none. -/
  | parameter (name : String) (operation : Operation) (orEmpty : Bool) (word : List Piece)
  | substitution (body : Command)
  | arithmetic (expression : List Piece)

/-- A change of one of the files that a command reads or writes. -/
inductive Redirection where
  | file (number : Nat) (access : Access) (path : List Piece)
  | duplicate (number source : Nat)
  | close (number : Nat)
  /-- The number of the source, or a dash, has to be worked out. -/
  | computed (number : Nat) (source : List Piece)
  /-- A document by its place among all documents. -/
  | document (number index : Nat)

inductive Command where
  | skip
  | simple (line : Nat) (assignments words : List (List Piece)) (redirections : List Redirection)
  | pipeline (background : Bool) (stages : List Command)
  | redirected (line : Nat) (body : Command) (redirections : List Redirection)
  | background (line : Nat) (body : Command) (redirections : List Redirection)
  | subshell (line : Nat) (body : Command) (redirections : List Redirection)
  | sequence (first second : Command)
  | both (first second : Command)
  | either (first second : Command)
  | negation (body : Command)
  | conditional (test thenPart elsePart : Command)
  /-- A loop that goes on while the status of the test is zero, or while it is not. -/
  | loop (whileZero : Bool) (test body : Command)
  | forEach (line : Nat) (name : String) (words : List (List Piece)) (body : Command)
  | choice (line : Nat) (subject : List Piece) (branches : List (List (List Piece) × Command))
  | definition (name : String) (body : Command)

end

abbrev Word := List Piece

namespace Command

def isSkip : Command → Bool
  | skip => true
  | _ => false

end Command

namespace Word

/-- The characters that a word consists of, if nothing in it is escaped, quoted or to be worked
out. -/
def plain? (w : Word) : Option (List Char) :=
  w.mapM fun
    | .char c false => some c
    | _ => none

/-- The characters in front of the first piece that is no plain character. -/
def plainPart : Word → List Char
  | .char c false :: w => c :: plainPart w
  | _ => []

/-- The text of a word with what is escaped and quoted, as the end of a document is written. -/
def literal (w : Word) : List Char :=
  w.filterMap fun
    | .char c _ => some c
    | _ => none

end Word

def isNameStart (c : Char) : Bool := c.isAlpha || c = '_'

def isNameChar (c : Char) : Bool := c.isAlphanum || c = '_'

/-- Whether a text could be the name of a variable. -/
def isName : List Char → Bool
  | [] => false
  | c :: cs => isNameStart c && cs.all isNameChar

/-- Whether a word gives a value to a variable. -/
def Word.isAssignment (w : Word) : Bool :=
  let cs := w.plainPart
  isName (cs.takeWhile (· ≠ '=')) && cs.contains '='

end Shellwright.Shell
