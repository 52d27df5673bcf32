import Shellwright.Shell.Echo

/-!
# Quoted names

How a program's complaint names a file: as it is if a shell would take it for one plain word, and
otherwise so that a shell would read the name from it.
-/
namespace Shellwright.Shell.Quoting

def isPrintable (c : Char) : Bool := ' ' ≤ c && c ≤ '~'

/-- Whether a shell could take a character of a name for something else. -/
def isSuspicious (first alone : Bool) (c : Char) : Bool :=
  !isPrintable c || " !\"$&'()*:;<=>?[\\^\x60|".contains c ||
    (first && (c = '#' || c = '~')) || (alone && (c = '\x7b' || c = '\x7d'))

def needsQuotes : List Char → Bool
  | [] => true
  | c :: cs => isSuspicious true cs.isEmpty c || cs.any (isSuspicious false false)

/-- The letter that an unprintable character has behind a backslash. -/
def letter? (c : Char) : Option Char :=
  ([('\x07', 'a'), ('\x08', 'b'), ('\x0c', 'f'), ('\n', 'n'), ('\r', 'r'), ('\t', 't'),
    ('\x0b', 'v')] : List (Char × Char)).lookup c

/-- Three octal digits. -/
def octal (c : Char) : List Char :=
  let n := c.toNat
  [n / 64, n / 8 % 8, n % 8].map fun d => Char.ofNat (48 + d)

/-- The characters between single quotes; `escaping` says that escapes have been begun, which have
to be ended first. The flag of the result says that they have not been ended. -/
def body : (escaping : Bool) → List Char → List Char × Bool
  | escaping, [] => ([], escaping)
  | escaping, c :: cs =>
    let go (out : List Char) (escaping : Bool) : List Char × Bool :=
      let (more, last) := body escaping cs
      (out ++ more, last)
    let start := if escaping then [] else "'$'".toList
    if c = '\x27' then go "'\\''".toList false
    else if isPrintable c then go ((if escaping then "''".toList else []) ++ [c]) false
    else match letter? c with
      | some l => go (start ++ ['\\', l]) true
      | none => go (start ++ '\\' :: octal c) true

/-- Whether a character means the same in double quotes; two of them do so only in front. -/
def isShared (first : Bool) (c : Char) : Bool :=
  c.isAlphanum || " %'+,-./:@]_".contains c || (first && (c = '#' || c = '~'))

/-- A name as a complaint shows it. -/
def quoted (name : String) : String :=
  let cs := name.toList
  if ¬ needsQuotes cs then name
  else if cs.contains '\x27' then
    let shared := match cs with
      | [] => true
      | c :: cs => isShared true c && cs.all (isShared false)
    if shared then "\"" ++ name ++ "\""
    else "'" ++ String.ofList (body (body false cs).2 cs).1 ++ "'"
  else "'" ++ String.ofList (body false cs).1 ++ "'"

end Shellwright.Shell.Quoting
