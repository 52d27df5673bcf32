import Shellwright.Shell.Numeral

/-!
# Printing arguments

Two commands print their arguments: the built-in one replaces escapes, and the program does so if an
option says so.
-/
namespace Shellwright.Shell.Echo

def isOctal (c : Char) : Bool := '0' ≤ c && c ≤ '7'

/-- The octet that some digits stand for. -/
def octet (base : Nat) (cs : List Char) : Char := Char.ofNat ((scanDigits base 0 cs).1 % 256)

/-- The control characters that a letter behind a backslash stands for. -/
def controlCharacters : List (Char × Char) :=
  [('\\', '\\'), ('a', '\x07'), ('b', '\x08'), ('e', '\x1b'), ('f', '\x0c'), ('n', '\n'),
   ('r', '\r'), ('t', '\t'), ('v', '\x0b')]

/-- Replaces escapes, also those with hexadecimal digits if `hex` allows them. A backslash before a
lower case c ends all printing; the flag says that it was not met. -/
def unescape (hex : Bool) : (fuel : Nat) → List Char → List Char × Bool
  | 0, _ | _, [] => ([], true)
  | fuel + 1, '\\' :: c :: cs =>
    let go (out rest : List Char) : List Char × Bool :=
      let (more, goesOn) := unescape hex fuel rest
      (out ++ more, goesOn)
    if c = 'c' then ([], false)
    else if isOctal c then
      let cs := if c = '0' then cs else c :: cs
      let digits := (cs.takeWhile isOctal).take 3
      go [octet 8 digits] (cs.drop digits.length)
    else if c = 'x' ∧ hex ∧ (cs.head?.bind (digitValue? 16)).isSome then
      let digits := (cs.takeWhile fun c => (digitValue? 16 c).isSome).take 2
      go [octet 16 digits] (cs.drop digits.length)
    else match controlCharacters.lookup c with
      | some b => go [b] cs
      | none => go ['\\'] (c :: cs)
  | fuel + 1, c :: cs =>
    let (more, goesOn) := unescape hex fuel cs
    (c :: more, goesOn)

/-- The arguments with escapes replaced, and a line end unless printing has ended before. -/
def printed (hex newline : Bool) (args : List String) : List Char :=
  let text := (" ".intercalate args).toList
  let (out, goesOn) := unescape hex text.length text
  if goesOn ∧ newline then out ++ ['\n'] else out

/-- The built-in command. -/
def builtin (args : List String) : String :=
  String.ofList <| match args with
    | "-n" :: args => printed false false args
    | args => printed false true args

structure Options where
  newline : Bool := true
  escapes : Bool := false

/-- The options in front of arguments. What has another letter in it is none. -/
def options (o : Options) : List String → Options × List String
  | [] => (o, [])
  | arg :: args =>
    match arg.toList with
    | '-' :: letters =>
      if letters ≠ [] ∧ letters.all (fun c => c = 'n' ∨ c = 'e' ∨ c = 'E') then
        let o := letters.foldl (fun o c =>
          if c = 'n' then { o with newline := false } else { o with escapes := c = 'e' }) o
        options o args
      else (o, arg :: args)
    | _ => (o, arg :: args)

/-- The program. -/
def program (args : List String) : String :=
  let (o, args) := options {} args
  String.ofList <|
    if o.escapes then printed true o.newline args
    else (" ".intercalate args).toList ++ if o.newline then ['\n'] else []

end Shellwright.Shell.Echo
