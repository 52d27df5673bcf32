import Shellwright.Shell.Arithmetic
import Shellwright.Shell.Options
import Shellwright.Shell.Pattern
import Shellwright.Shell.Variables
import Shellwright.Shell.Word

/-!
# Expansion

What the words of a command become: parameters, arithmetic and the output of commands are put in,
what was not quoted is split into fields, and fields that are patterns become the paths they match.
-/
namespace Shellwright.Shell

/-! ## Segments -/

/-- A character of an expanded word; one that is escaped has no special meaning. -/
inductive Cell where
  | char (c : Char) (escaped : Bool)
  /-- Where a quoted part begins or ends. -/
  | quote
deriving DecidableEq

inductive Segment.Kind where
  /-- Never split. -/
  | fixed
  /-- Split at separators. -/
  | splitting
  /-- Split at zero characters only. -/
  | listed
deriving DecidableEq

/-- A part of an expanded word. -/
structure Segment where
  kind : Segment.Kind
  cells : List Cell

/-- How a word is expanded. -/
structure Style where
  /-- Into any number of fields. -/
  fields : Bool := false
  /-- Into a pattern. -/
  pattern : Bool := false
  /-- A tilde in front stands for a directory. -/
  tilde : Bool := false
  /-- So does one behind an equals sign or a colon. -/
  laterTilde : Bool := false
  /-- The equals sign has been passed. -/
  afterEquals : Bool := false
  /-- As the word of a parameter. -/
  inner : Bool := false
  quoted : Bool := false

/-- Whether it still matters what was quoted. -/
def Style.keepsQuotes (s : Style) : Bool := s.fields || s.pattern

namespace Cell

/-- The cells of a value. -/
def ofValue (s : Style) (value : List Char) : List Cell :=
  value.map fun c => .char c (s.keepsQuotes && s.quoted && (isMeaningful c || c = '\\'))

def chars (cells : List Cell) : List Char :=
  cells.filterMap fun
    | .char c _ => some c
    | .quote => none

def text (cells : List Cell) : String := String.ofList (chars cells)

/-- The pattern that cells are: what is escaped has a backslash in front of it, unless a backslash
that is not escaped stands there. -/
def patternChars : (afterBackslash : Bool) → List Cell → List Char
  | _, [] => []
  | _, .quote :: cells => patternChars false cells
  | _, .char '\\' false :: cells => '\\' :: patternChars true cells
  | after, .char c escaped :: cells =>
    if escaped ∧ ¬ after then '\\' :: c :: patternChars false cells
    else c :: patternChars false cells

end Cell

/-! ## Fields -/

/-- Fields that have been found, in reverse, and the cells of the one that is not complete. -/
structure Splitting where
  done : List (List Cell) := []
  current : List Cell := []

namespace Splitting

def add (s : Splitting) (cell : Cell) : Splitting := { s with current := cell :: s.current }

def cut (s : Splitting) : Splitting := { done := s.current.reverse :: s.done, current := [] }

/-- Whether a character stands between fields. Zero characters always do. -/
def separates (separators : List Char) (c : Char) : Bool := c = '\x00' || separators.contains c

/-- Whether a separator counts once however often it is repeated. -/
def isSpace (c : Char) : Bool := c = '\x00' || c = ' ' || c = '\t' || c = '\n'

/-- Goes over separators behind a field. At most one of them is no space, and none if `passed`. -/
def skipSeparators (separators : List Char) : (passed : Bool) → List Cell → List Cell
  | passed, .char c e :: cells =>
    if ¬ separates separators c then .char c e :: cells
    else if isSpace c then skipSeparators separators passed cells
    else if passed then .char c e :: cells
    else skipSeparators separators true cells
  | _, cells => cells

/-- Splits the cells of a segment at separators. -/
def overCells (separators : List Char) : (fuel : Nat) → List Cell → Splitting → Splitting
  | 0, _, s | _, [], s => s
  | fuel + 1, cell :: cells, s =>
    match cell with
    | .char c _ =>
      if ¬ separates separators c then overCells separators fuel cells (s.add cell)
      else if s.current.isEmpty ∧ isSpace c then overCells separators fuel cells s
      else overCells separators fuel (skipSeparators separators (!isSpace c) cells) s.cut
    | .quote => overCells separators fuel cells (s.add cell)

/-- Splits the cells of a segment at every single separator, as is done behind a list. -/
def overEach (separators : List Char) : List Cell → Splitting → Splitting
  | [], s => s
  | cell :: cells, s =>
    match cell with
    | .char c _ =>
      overEach separators cells (if separates separators c then s.cut else s.add cell)
    | .quote => overEach separators cells (s.add cell)

/-- Splits the cells of a segment at zero characters. -/
def overList : List Cell → Splitting → Splitting
  | [], s => s
  | cell :: cells, s =>
    match cell with
    | .char '\x00' _ => overList cells s.cut
    | cell => overList cells (s.add cell)

def overSegments (separators : List Char) : (afterList : Bool) → List Segment → Splitting →
    List (List Cell)
  | afterList, [], s =>
    if s.current.isEmpty ∧ ¬ afterList then s.done.reverse else s.cut.done.reverse
  | afterList, segment :: segments, s =>
    match segment.kind with
    | .fixed => overSegments separators afterList segments
        { s with current := segment.cells.reverse ++ s.current }
    | .listed => overSegments separators true segments (overList segment.cells s)
    | .splitting => overSegments separators false segments
        (if afterList then overEach separators segment.cells s
         else overCells separators segment.cells.length segment.cells s)

end Splitting

/-- The fields of an expanded word. -/
def splitFields (separators : List Char) (segments : List Segment) : List (List Cell) :=
  Splitting.overSegments separators false segments {}

namespace Eval

/-! ## Parameters -/

/-- What stands between positional parameters when all of them are meant. -/
def parameterSeparator (s : Style) (name : String) : Eval (List Char) := do
  match ← value? "IFS" with
  | none => return if name = "@" ∧ s.quoted ∧ s.fields then ['\x00'] else [' ']
  | some separators =>
    if s.fields ∧ (¬ s.quoted ∨ name = "@") then return ['\x00']
    else return separators.toList.take 1

/-- The characters of a parameter, if it has a value. -/
def parameterValue? (s : Style) (name : String) : Eval (Option (List Char)) := do
  let p ← process
  match name with
  | "$" => return some (toString p.shell).toList
  | "?" => return some (toString p.status).toList
  | "#" => return some (toString p.parameters.length).toList
  | "!" => return p.background.map fun n => (toString n).toList
  | "-" => return some (optionLetters.filter p.options.contains)
  | "@" | "*" =>
    let separator ← parameterSeparator s name
    return some (separator.intercalate (p.parameters.map String.toList))
  | name =>
    if name.toList.head?.any Char.isDigit then
      match name.toNat?.getD 0 with
      | 0 => return some p.name.toList
      | n + 1 => return p.parameters[n]?.map String.toList
    else return (← value? name).map String.toList

/-- The segment that the value of a parameter makes. -/
def valueSegment (s : Style) (name : String) (cells : List Cell) : Eval Segment := do
  if ¬ s.quoted then return ⟨.splitting, cells⟩
  else if name = "@" ∧ ¬ (← process).parameters.isEmpty then return ⟨.listed, cells⟩
  else return ⟨.fixed, cells⟩

/-- What is left of cells when the part that a pattern means is cut off one end. A pattern looks no
further than to a zero character. -/
def cut (atEnd longest : Bool) (pattern : Pattern) (cells : List Cell) : List Cell :=
  let sizes := List.range (cells.length + 1)
  let sizes := if longest then sizes.reverse else sizes
  let part (size : Nat) : List Cell :=
    if atEnd then cells.drop (cells.length - size) else cells.take size
  let seen (size : Nat) : List Char := (Cell.chars (part size)).takeWhile (· ≠ '\x00')
  match sizes.find? fun size => pattern.accepts (seen size) with
  | some size => if atEnd then cells.take (cells.length - size) else cells.drop size
  | none => cells

/-! ## Tildes -/

/-- The directories of the users that every system has. -/
def userDirectories : List (String × String) :=
  [("root", "/root"), ("daemon", "/usr/sbin"), ("bin", "/bin"), ("sys", "/dev"),
   ("sync", "/bin"), ("games", "/usr/games"), ("man", "/var/cache/man"),
   ("lp", "/var/spool/lpd"), ("mail", "/var/mail"), ("news", "/var/spool/news"),
   ("uucp", "/var/spool/uucp"), ("proxy", "/bin"), ("www-data", "/var/www"),
   ("backup", "/var/backups"), ("list", "/var/list"), ("irc", "/run/ircd"),
   ("nobody", "/nonexistent")]

/-- The name behind a tilde, and the pieces behind the name. There is none if something in it is
quoted or has to be worked out. -/
def tildeName? (stopsAtColon : Bool) : Word → Option (List Char × Word)
  | [] => some ([], [])
  | .char c false :: w =>
    if c = '/' ∨ (c = ':' ∧ stopsAtColon) then some ([], .char c false :: w)
    else (tildeName? stopsAtColon w).map fun (name, rest) => (c :: name, rest)
  | _ => none

/-- The directory that a name behind a tilde stands for. -/
def tildeDirectory? (name : List Char) : Eval (Option String) :=
  if name = [] then value? "HOME" else return userDirectories.lookup (String.ofList name)

/-! ## Words -/

/-- The output of a command, without the line ends behind it. -/
abbrev Capture := Command → Eval (List Char)

/-- Plain characters in front of a word, as far as no tilde may follow them. -/
def literalRun (s : Style) : Word → List Char × Word
  | .char c false :: w =>
    if s.laterTilde ∧ (c = ':' ∨ (c = '=' ∧ ¬ s.afterEquals)) then ([c], w)
    else
      let (cs, rest) := literalRun s w
      (c :: cs, rest)
  | w => ([], w)

mutual

/-- Expands the pieces of a word. -/
def expandPieces (capture : Capture) : (fuel : Nat) → Style → (inQuotes : Bool) → Word →
    Eval (List Segment)
  | 0, _, _, _ | _, _, _, [] => return []
  | fuel + 1, s, inQuotes, piece :: w => do
    let here : Style := { s with quoted := s.quoted || inQuotes, tilde := false }
    match piece with
    | .char c false =>
      let home ← match if c = '~' ∧ s.tilde then tildeName? s.laterTilde w else none with
        | some (name, rest) => do
          pure ((← tildeDirectory? name).map fun home => (home, rest))
        | none => pure none
      match home with
      | some (home, rest) =>
        let cells := Cell.ofValue { s with quoted := true } home.toList
        return ⟨.fixed, cells⟩ ::
          (← expandPieces capture fuel { s with tilde := false } inQuotes rest)
      | none =>
        let (cs, rest) := literalRun s (piece :: w)
        let last := cs.getLast?
        let s' : Style := { s with
          tilde := s.laterTilde && (last = some ':' || (last = some '=' && !s.afterEquals))
          afterEquals := s.afterEquals || last = some '=' }
        let kind : Segment.Kind := if s.inner && !s.quoted && !inQuotes then .splitting else .fixed
        return ⟨kind, cs.map (.char · false)⟩ :: (← expandPieces capture fuel s' inQuotes rest)
    | .char c true =>
      return ⟨.fixed, [.char c s.keepsQuotes]⟩ ::
        (← expandPieces capture fuel { s with tilde := false } inQuotes w)
    | .quote =>
      match inQuotes, w with
      | false, .parameter "@" .value false [] :: .quote :: rest =>
        let segments ← expandParameter capture fuel { here with quoted := true } "@" .value false []
        return segments ++ (← expandPieces capture fuel { s with tilde := false } false rest)
      | _, _ =>
        let marks := if s.keepsQuotes then [⟨.fixed, [.quote]⟩] else []
        return marks ++ (← expandPieces capture fuel { s with tilde := false } (!inQuotes) w)
    | .parameter name operation orEmpty word =>
      let segments ← expandParameter capture fuel here name operation orEmpty word
      return segments ++ (← expandPieces capture fuel { s with tilde := false } inQuotes w)
    | .substitution body =>
      let cells := Cell.ofValue here (← capture body)
      let kind : Segment.Kind := if here.quoted then .fixed else .splitting
      return ⟨kind, cells⟩ :: (← expandPieces capture fuel { s with tilde := false } inQuotes w)
    | .arithmetic expression =>
      let segments ← expandPieces capture fuel {} false expression
      let text := Cell.text (segments.flatMap (·.cells))
      let p ← process
      let lookup (name : String) : String := ((p.bindings.lookup name).bind (·.value)).getD ""
      match Arithmetic.evaluate lookup text with
      | .error message => fault message
      | .ok (n, assigned) =>
        assigned.forM fun (name, n) => assign name (toString n)
        let cells := Cell.ofValue here (toString n).toList
        let kind : Segment.Kind := if here.quoted then .fixed else .splitting
        return ⟨kind, cells⟩ :: (← expandPieces capture fuel { s with tilde := false } inQuotes w)

/-- Expands a parameter. -/
def expandParameter (capture : Capture) : (fuel : Nat) → Style → (name : String) → Operation →
    (orEmpty : Bool) → Word → Eval (List Segment)
  | 0, _, _, _, _, _ => return []
  | fuel + 1, s, name, operation, orEmpty, word => do
    if operation = .unknown then fault "Bad substitution"
    let value ← parameterValue? s name
    let absent := value.isNone || (orEmpty && value = some [])
    let cells := Cell.ofValue s (value.getD [])
    let unset {α : Type} (message : String) : Eval α := fault (name ++ ": " ++ message)
    let wordText : Eval String := do
      let segments ← expandPieces capture fuel { tilde := true } false word
      return Cell.text (segments.flatMap (·.cells))
    let needed : Eval Unit := do
      if value.isNone ∧ (← isOn 'u') then unset "parameter not set"
    match operation with
    | .default =>
      if absent then expandPieces capture fuel { s with tilde := true, inner := true } false word
      else return [← valueSegment s name cells]
    | .alternative =>
      if absent then return []
      else expandPieces capture fuel { s with tilde := true, inner := true } false word
    | .assign =>
      if absent then
        assignChecked name (← wordText)
        let value ← parameterValue? s name
        return [← valueSegment s name (Cell.ofValue s (value.getD []))]
      else return [← valueSegment s name cells]
    | .require =>
      if absent then
        if word.isEmpty then
          unset ("parameter not set" ++ if orEmpty then " or null" else "")
        else unset (← wordText)
      else return [← valueSegment s name cells]
    | .length =>
      needed
      let n := toString (value.getD []).length
      return [← valueSegment s name (Cell.ofValue s n.toList)]
    | .cutSuffix longest =>
      needed
      if value.isNone then return [← valueSegment s name []]
      let pattern ← expandPieces capture fuel { tilde := true, pattern := true } false word
      let pattern := Pattern.ofChars (Cell.patternChars false (pattern.flatMap (·.cells)))
      return [← valueSegment s name (cut true longest pattern cells)]
    | .cutPrefix longest =>
      needed
      if value.isNone then return [← valueSegment s name []]
      let pattern ← expandPieces capture fuel { tilde := true, pattern := true } false word
      let pattern := Pattern.ofChars (Cell.patternChars false (pattern.flatMap (·.cells)))
      return [← valueSegment s name (cut false longest pattern cells)]
    | .value | .unknown =>
      needed
      return [← valueSegment s name cells]

end

/-- More pieces than words have, in and behind each other. -/
def expansionDepth : Nat := 1000000

def expand (capture : Capture) (s : Style) (w : Word) : Eval (List Segment) :=
  expandPieces capture expansionDepth s false w

/-- The text that a word becomes. -/
def expandText (capture : Capture) (s : Style) (w : Word) : Eval String := do
  return Cell.text ((← expand capture s w).flatMap (·.cells))

/-- The pattern that a word becomes. -/
def expandPattern (capture : Capture) (w : Word) : Eval Pattern := do
  let segments ← expand capture { tilde := true, pattern := true } w
  return Pattern.ofChars (Cell.patternChars false (segments.flatMap (·.cells)))

/-- The fields that a word becomes. -/
def expandFields (capture : Capture) (w : Word) : Eval (List String) := do
  let segments ← expand capture { fields := true, tilde := true } w
  let separators := (← value? "IFS").getD defaultSeparators
  let fields := splitFields separators.toList segments
  let plain ← isOn 'f'
  let files := (← world).files
  let cwd := (← process).directory
  return fields.flatMap fun cells =>
    match if plain then [] else matchingPaths files cwd (Cell.patternChars false cells) with
    | [] => [Cell.text cells]
    | paths => paths

end Eval

end Shellwright.Shell
