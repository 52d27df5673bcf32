/-!
# Options

The switches of a shell, by letters and by names, as they stand in front of its arguments.
-/
namespace Shellwright.Shell

/-- The names of the options. Two have no letter, and do nothing. -/
def optionNames : List (String × Option Char) :=
  [("errexit", some 'e'), ("noglob", some 'f'), ("ignoreeof", some 'I'),
   ("interactive", some 'i'), ("monitor", some 'm'), ("noexec", some 'n'), ("stdin", some 's'),
   ("xtrace", some 'x'), ("verbose", some 'v'), ("vi", some 'V'), ("emacs", some 'E'),
   ("noclobber", some 'C'), ("allexport", some 'a'), ("notify", some 'b'),
   ("nounset", some 'u'), ("privileged", some 'p'), ("nolog", none), ("debug", none)]

/-- The letters of options in the order in which they are shown. -/
def optionLetters : List Char := (optionNames.filterMap (·.2)).reverse

/-- What arguments say about options. -/
structure Settings where
  /-- The options that are on, and those that have been switched off. -/
  on : List Char
  off : List Char := []
  /-- Whether a text is to be run that comes first behind the options. -/
  text : Bool := false
  /-- Whether the options are to be listed, and whether as commands. -/
  listing : Option Bool := none
  /-- Whether it was said that there are no arguments. -/
  cleared : Bool := false
  rest : List String := []

namespace Settings

def switch (s : Settings) (value : Bool) (c : Char) : Settings :=
  let others := fun (cs : List Char) => cs.filter (· ≠ c)
  if value then { s with on := c :: others s.on, off := others s.off }
  else { s with on := others s.on, off := c :: others s.off }

/-- The options of one argument; `args` are those behind it. -/
def letters (atStart value : Bool) : List Char → List String → Settings →
    Except String (List String × Settings)
  | [], args, s => .ok (args, s)
  | c :: cs, args, s =>
    if c = 'c' ∧ atStart then letters atStart value cs args { s with text := true }
    else if c = 'l' ∧ atStart then letters atStart value cs args s
    else if c = 'o' then
      match args with
      | [] => letters atStart value cs [] { s with listing := some (!value) }
      | name :: args =>
        match optionNames.lookup name with
        | none => .error ("Illegal option -o " ++ name)
        | some none => letters atStart value cs args s
        | some (some c) => letters atStart value cs args (s.switch value c)
    else if optionLetters.contains c then letters atStart value cs args (s.switch value c)
    else .error ("Illegal option -" ++ String.singleton c)

/-- The options in front of arguments, where a shell starts or later on. -/
def scan (atStart : Bool) : (fuel : Nat) → List String → Settings → Except String Settings
  | 0, args, s => .ok { s with rest := args }
  | _, [], s => .ok s
  | fuel + 1, arg :: args, s =>
    match arg.toList with
    | ['-'] =>
      .ok { (if atStart then s else (s.switch false 'x').switch false 'v') with rest := args }
    | ['-', '-'] => .ok { s with rest := args, cleared := args.isEmpty }
    | '-' :: cs => do
      let (args, s) ← letters atStart true cs args s
      scan atStart fuel args s
    | '+' :: cs => do
      let (args, s) ← letters atStart false cs args s
      scan atStart fuel args s
    | _ => .ok { s with rest := arg :: args }

/-- The list of all options. Where a shell starts, those count as on that have not been switched
off. -/
def listed (s : Settings) (atStart asCommands : Bool) : String :=
  let isOn (letter : Option Char) : Bool :=
    if atStart then !letter.any s.off.contains else letter.any s.on.contains
  let line := fun (name, letter) =>
    if asCommands then (if isOn letter then "set -o " else "set +o ") ++ name ++ "\n"
    else name ++ "".pushn ' ' (16 - name.length) ++ (if isOn letter then "on\n" else "off\n")
  (if asCommands then "" else "Current option settings\n") ++ String.join (optionNames.map line)

end Settings

end Shellwright.Shell
