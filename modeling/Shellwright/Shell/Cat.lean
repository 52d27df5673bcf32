import Shellwright.Shell.Quoting
import Shellwright.Shell.State

/-!
# Printing files

The program that prints files one after the other, if wanted with numbered lines, without repeated
empty lines, or with marks in the stead of what cannot be seen.
-/
namespace Shellwright.Shell.Cat

open Text (Bytes bytes)

/-! ## Options -/

structure Options where
  number : Bool := false
  numberNonblank : Bool := false
  squeeze : Bool := false
  ends : Bool := false
  tabs : Bool := false
  nonprinting : Bool := false

/-- What a letter adds to the options. -/
def Options.letter? (o : Options) : Char → Option Options
  | 'A' => some { o with nonprinting := true, ends := true, tabs := true }
  | 'b' => some { o with number := true, numberNonblank := true }
  | 'e' => some { o with nonprinting := true, ends := true }
  | 'E' => some { o with ends := true }
  | 'n' => some { o with number := true }
  | 's' => some { o with squeeze := true }
  | 't' => some { o with nonprinting := true, tabs := true }
  | 'T' => some { o with tabs := true }
  | 'u' => some o
  | 'v' => some { o with nonprinting := true }
  | _ => none

/-- The long options and their letters. -/
def longOptions : List (String × Char) :=
  [("number-nonblank", 'b'), ("number", 'n'), ("squeeze-blank", 's'), ("show-nonprinting", 'v'),
   ("show-ends", 'E'), ("show-tabs", 'T'), ("show-all", 'A'), ("help", 'u'), ("version", 'u')]

/-- The long option that a text means: itself, or the only one that it begins. -/
def long? (arg : String) : Except String Char :=
  let text := (arg.toList.drop 2)
  let name := text.takeWhile (· ≠ '=')
  let starting := longOptions.filter fun (option, _) => name.isPrefixOf option.toList
  let meant := match longOptions.find? fun (option, _) => option.toList = name with
    | some option => [option]
    | none => starting
  match meant with
  | [] => .error ("unrecognized option '" ++ arg ++ "'")
  | [(option, letter)] =>
    if text.contains '=' then .error ("option '--" ++ option ++ "' doesn't allow an argument")
    else .ok letter
  | options =>
    .error ("option '" ++ arg ++ "' is ambiguous; possibilities:" ++
      String.join (options.map fun (option, _) => " '--" ++ option ++ "'"))

def letters (o : Options) : List Char → Except String Options
  | [] => .ok o
  | c :: cs => match o.letter? c with
    | some o => letters o cs
    | none => .error ("invalid option -- '" ++ String.singleton c ++ "'")

/-- The options and the paths of some arguments, whichever comes first. -/
def parse (o : Options) : List String → Except String (Options × List String)
  | [] => .ok (o, [])
  | arg :: args =>
    match arg.toList with
    | ['-', '-'] => .ok (o, args)
    | '-' :: '-' :: _ => do
      let c ← long? arg
      parse ((o.letter? c).getD o) args
    | '-' :: c :: cs => do parse (← letters o (c :: cs)) args
    | _ => do
      let (o, paths) ← parse o args
      return (o, arg :: paths)

/-! ## Lines -/

structure Progress where
  /-- The number of the last line that has one. -/
  line : Nat := 0
  /-- The empty lines just before, at most two; none inside a line. -/
  blank : Option Nat := some 0
  /-- Whether the character before was a carriage return that is still to be printed. -/
  carriage : Bool := false

def lineNumber (n : Nat) : Bytes :=
  let digits := toString n
  bytes ("".pushn ' ' (6 - digits.length) ++ digits ++ "\t")

/-- How a byte is shown that cannot be seen. -/
def visible (o : Options) (b : UInt8) : Bytes :=
  let low (b : UInt8) : Bytes :=
    if b < 32 then [94, b + 64] else if b = 127 then [94, 63] else [b]
  if b = 9 then if o.tabs then [94, 73] else [9]
  else if ¬ o.nonprinting then [b]
  else if b < 128 then low b
  else [77, 45] ++ low (b - 128)

/-- Prints one byte. -/
def step (o : Options) (p : Progress) (b : UInt8) : Bytes × Progress :=
  if b = 10 then
    let carriage : Bytes := if p.carriage then [94, 77] else []
    let blank := match p.blank with
      | none => 0
      | some n => min 2 (n + 1)
    if blank = 2 ∧ o.squeeze then ([], { p with blank := some 2 })
    else
      let numbered := blank > 0 && o.number && !o.numberNonblank
      let line := if numbered then p.line + 1 else p.line
      let number := if numbered then lineNumber line else []
      (carriage ++ number ++ (if o.ends then [36] else []) ++ [10],
        { line, blank := some blank })
  else
    let carriage : Bytes := if p.carriage then [13] else []
    let numbered := p.blank.isSome && o.number
    let line := if numbered then p.line + 1 else p.line
    let start := carriage ++ if numbered then lineNumber line else []
    if b = 13 ∧ o.ends ∧ ¬ o.nonprinting then
      (start, { line, blank := none, carriage := true })
    else (start ++ visible o b, { line, blank := none })

def format (o : Options) (p : Progress) (bs : Bytes) : Bytes × Progress :=
  let (out, p) := bs.foldl (fun (out, p) b =>
    let (shown, p) := step o p b
    (shown.reverse ++ out, p)) ([], p)
  (out.reverse, p)

/-! ## Files -/

open Eval

/-- Complains under the name that the program was called by. -/
def complain (name message : String) : Eval Unit := do
  let _ ← write 2 (bytes (name ++ ": " ++ message ++ "\n"))
  setStatus 1

/-- Whether printing `input` would go on for ever, since it is what is printed to. -/
def feedsItself (input : Opening) : Eval Bool := do
  match input.target, ← opening? 1 with
  | .file place, some (_, output) =>
    if output.target ≠ .file place then return false
    return input.offset < ((← world).files.contentAt place).length
  | _, _ => return false

/-- Prints what a number stands for. -/
def printOpen (name : String) (o : Options) (number : Nat) (shown : String) (p : Progress) :
    Eval Progress := do
  match ← opening? number with
  | none =>
    complain name (shown ++ ": Bad file descriptor")
    return p
  | some (_, input) =>
    if ← feedsItself input then
      complain name (shown ++ ": input file is output file")
      return p
    match ← readAll number with
    | .error .isDirectory =>
      complain name (shown ++ ": Is a directory")
      return p
    | .error .notOpen =>
      complain name (shown ++ ": Bad file descriptor")
      return p
    | .ok bs =>
      let (out, p) := format o p bs
      unless ← write 1 out do
        complain name ("write error: " ++ (← writeObstacle 1))
        throw .leave
      return p

/-- A number that a process knows nothing by. -/
def spareDescriptor : Nat := 1000

def printPath (name : String) (o : Options) (p : Progress) (path : String) : Eval Progress := do
  let shown := Quoting.quoted path
  if path = "-" then printOpen name o 0 shown p
  else
    let reason := match ← openPath path .read false with
      | .error .notDirectory => Except.error "Not a directory"
      | .error _ => .error "No such file or directory"
      | .ok opening => .ok opening
    match reason with
    | .error reason =>
      complain name (shown ++ ": " ++ reason)
      return p
    | .ok opening =>
      setDescriptor spareDescriptor (some (← addOpening opening))
      let p ← printOpen name o spareDescriptor shown p
      setDescriptor spareDescriptor none
      return p

/-- The program, called by a name. -/
def program (name : String) (args : List String) : Eval Unit := do
  setStatus 0
  match parse {} args with
  | .error message =>
    complain name (message ++ "\nTry '" ++ name ++ " --help' for more information.")
  | .ok (o, paths) =>
    if (← opening? 1).isNone then complain name "standard output: Bad file descriptor"
    else
      let paths := if paths = [] then ["-"] else paths
      let p ← paths.foldlM (printPath name o) {}
      if p.carriage then
        let _ ← write 1 [13]
      if paths.contains "-" ∧ (← opening? 0).isNone then
        complain name "closing standard input: Bad file descriptor"

end Shellwright.Shell.Cat
