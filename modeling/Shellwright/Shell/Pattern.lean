import Shellwright.Directory

/-!
# Patterns

A pattern is a text in which a star, a question mark or a bracket stands for other characters unless
a backslash is in front of it. A pattern that is meant for files means the paths that it matches, in
ascending order.
-/
namespace Shellwright.Shell

/-! ## Matching -/

/-- What a bracket may hold. -/
inductive Member where
  /-- The octets from `low` to `high`, which count as signed. -/
  | range (low high : Char)
  | named (accepts : Char → Bool)

/-- One position of a pattern. -/
inductive Slot where
  | exactly (c : Char)
  | anyChar
  | anyChars
  | oneOf (negated : Bool) (members : List Member)

abbrev Pattern := List Slot

/-- The value of an octet as a signed number. -/
def signed (c : Char) : Int := if c.toNat < 128 then c.toNat else (c.toNat : Int) - 256

def isVisible (c : Char) : Bool := '!' ≤ c && c ≤ '~'

/-- The classes that a bracket may name. -/
def classes : List (String × (Char → Bool)) :=
  [("alnum", Char.isAlphanum),
   ("alpha", Char.isAlpha),
   ("blank", fun c => c = ' ' || c = '\t'),
   ("cntrl", fun c => c < ' ' || c = '\x7f'),
   ("digit", Char.isDigit),
   ("graph", isVisible),
   ("lower", Char.isLower),
   ("print", fun c => isVisible c || c = ' '),
   ("punct", fun c => isVisible c && !c.isAlphanum),
   ("space", fun c => c = ' ' || ('\t' ≤ c && c ≤ '\r')),
   ("upper", Char.isUpper),
   ("xdigit", fun c => c.isDigit || ('a' ≤ c && c ≤ 'f') || ('A' ≤ c && c ≤ 'F'))]

/-- The class that stands in a bracket behind a second one, and what follows it. -/
def class? (cs : List Char) : Option (Member × List Char) :=
  classes.findSome? fun (name, accepts) =>
    let text := (":" ++ name ++ ":]").toList
    if text.isPrefixOf cs then some (.named accepts, cs.drop text.length) else none

/-- The members of a bracket up to its end, and what follows it. A closing bracket in front is a
member. -/
def members : (fuel : Nat) → (first : Bool) → List Char → Option (List Member × List Char)
  | 0, _, _ | _, _, [] => none
  | fuel + 1, first, c :: cs =>
    if c = ']' ∧ ¬ first then some ([], cs)
    else match if c = '[' then class? cs else none with
      | some (m, rest) => (members fuel false rest).map fun (ms, rest) => (m :: ms, rest)
      | none =>
        let single := match c, cs with
          | '\\', d :: cs => some (d, cs)
          | '\\', [] => none
          | c, cs => some (c, cs)
        match single with
        | none => none
        | some (low, rest) =>
          let (m, rest) := match rest with
            | '-' :: high :: rest' =>
              if high = ']' then (.range low low, rest)
              else match high, rest' with
                | '\\', high :: rest' => (.range low high, rest')
                | high, rest' => (.range low high, rest')
            | rest => (.range low low, rest)
          (members fuel false rest).map fun (ms, rest) => (m :: ms, rest)

/-- A bracket behind its opening mark. -/
def bracket? (cs : List Char) : Option (Slot × List Char) :=
  let (negated, cs) := match cs with
    | '!' :: cs => (true, cs)
    | cs => (false, cs)
  (members (cs.length + 1) true cs).map fun (ms, rest) => (.oneOf negated ms, rest)

/-- The slots of a text; each takes at least one character, so the length is fuel enough. -/
def slots : (fuel : Nat) → List Char → Pattern
  | 0, _ | _, [] => []
  | fuel + 1, c :: cs =>
    match c, cs with
    | '*', cs => .anyChars :: slots fuel cs
    | '?', cs => .anyChar :: slots fuel cs
    | '\\', d :: cs => .exactly d :: slots fuel cs
    | '[', cs => match bracket? cs with
      | some (slot, rest) => slot :: slots fuel rest
      | none => .exactly '[' :: slots fuel cs
    | c, cs => .exactly c :: slots fuel cs

def Pattern.ofChars (cs : List Char) : Pattern := slots cs.length cs

def Member.accepts (m : Member) (c : Char) : Bool :=
  match m with
  | range low high => signed low ≤ signed c && signed c ≤ signed high
  | named accepts => accepts c

def Slot.accepts (slot : Slot) (c : Char) : Bool :=
  match slot with
  | exactly d => c = d
  | anyChar => true
  | anyChars => false
  | oneOf negated ms => ms.any (·.accepts c) != negated

/-- All ends of a text, the longest first. -/
def suffixes : List Char → List (List Char)
  | [] => [[]]
  | c :: cs => (c :: cs) :: suffixes cs

def Pattern.accepts : Pattern → List Char → Bool
  | [], cs => cs.isEmpty
  | .anyChars :: ps, cs => (suffixes cs).any (Pattern.accepts ps)
  | p :: ps, c :: cs => p.accepts c && Pattern.accepts ps cs
  | _ :: _, [] => false

/-! ## Paths -/

/-- Whether a bracket is closed in a part of a path; the text starts behind its opening mark. -/
def closesBracket : (fuel : Nat) → List Char → Bool
  | 0, _ => false
  | fuel + 1, cs =>
    let cs := match cs with
      | '\\' :: cs => cs
      | cs => cs
    match cs with
    | [] => false
    | _ :: rest => rest.head? = some ']' || closesBracket fuel rest

/-- Whether a part of a path can stand for several names. -/
def isPatternPart : List Char → Bool
  | [] => false
  | '\\' :: _ :: cs => isPatternPart cs
  | '*' :: _ | '?' :: _ => true
  | '[' :: cs =>
    let inside := match cs with
      | '!' :: cs => cs
      | cs => cs
    closesBracket (inside.length + 1) inside || isPatternPart cs
  | _ :: cs => isPatternPart cs

/-- A text without the backslashes that escape something. -/
def unescape : List Char → List Char
  | '\\' :: c :: cs => c :: unescape cs
  | c :: cs => c :: unescape cs
  | [] => []

/-- Puts a character in front of the first part. -/
def extendFirst (c : Char) : List (List Char) → List (List Char)
  | [] => [[c]]
  | part :: parts => (c :: part) :: parts

/-- The parts of a pattern between its slashes, which may be escaped. -/
def pathParts : List Char → List (List Char)
  | [] => [[]]
  | '\\' :: c :: cs =>
    if c = '/' then [] :: pathParts cs
    else extendFirst '\\' (extendFirst c (pathParts cs))
  | c :: cs => if c = '/' then [] :: pathParts cs else extendFirst c (pathParts cs)

/-- The names in a directory that a part means; a dot in front has to be written. Every directory
also has itself and the one above it. -/
def namesLike (d : Directory) (cwd : Place) (base : String) (part : List Char) : List String :=
  match d.find cwd (if base = "" then "." else base) with
  | .ok (place, .dir) =>
    let pattern := Pattern.ofChars part
    let dotted := match part with
      | '\\' :: c :: _ => c = '.'
      | c :: _ => c = '.'
      | [] => false
    (d.names place ++ [".", ".."]).filter fun name =>
      (dotted || !(name.startsWith ".")) && pattern.accepts name.toList
  | _ => []

/-- The paths that parts mean behind `base`, which is empty or ends in a slash. -/
def paths (d : Directory) (cwd : Place) (base : String) : List (List Char) → List String
  | [] => []
  | [last] =>
    if isPatternPart last then (namesLike d cwd base last).map (base ++ ·)
    else
      let path := base ++ String.ofList (unescape last)
      if (d.find cwd path).isOk then [path] else []
  | part :: parts =>
    if isPatternPart part then
      (namesLike d cwd base part).flatMap fun name => paths d cwd (base ++ name ++ "/") parts
    else paths d cwd (base ++ String.ofList (unescape part) ++ "/") parts

/-- The paths that a pattern means; none if it is no pattern. -/
def matchingPaths (d : Directory) (cwd : Place) (pattern : List Char) : List String :=
  let parts := pathParts pattern
  if parts.any isPatternPart then
    (paths d cwd "" parts).mergeSort fun a b => !(decide (b < a))
  else []

end Shellwright.Shell
