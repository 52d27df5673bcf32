import Shellwright.Shell.Source

/-!
# Reading words

A word is read character by character. What a character means depends on the quotes, parameters and
arithmetic that are open around it; these are kept as a list of levels, the innermost first.
-/
namespace Shellwright.Shell

/-- The ways in which characters are taken. -/
inductive Quoting where
  | bare
  | double
  | single
  | arithmetic
deriving DecidableEq

/-- What a character does to a word. -/
inductive Role where
  | newline
  | plain
  /-- A character that would have a meaning were it not quoted. -/
  | escaped
  | backslash
  | singleQuote
  | doubleQuote
  | endQuote
  | dollar
  | rightBrace
  | leftParen
  | rightParen
  | backquote
  /-- A character that ends a word. -/
  | ending
deriving DecidableEq

/-- The characters that mean something in patterns, in paths or in assignments. -/
def isMeaningful (c : Char) : Bool := "!*?[]=~:/-".contains c

def Quoting.role (q : Quoting) (c : Char) : Role :=
  match q, c with
  | _, '\n' => .newline
  | single, '\x27' => .endQuote
  | single, '\\' => .escaped
  | single, c => if isMeaningful c then .escaped else .plain
  | _, '\\' => .backslash
  | _, '$' => .dollar
  | _, '\x60' => .backquote
  | _, '\x7d' => .rightBrace
  | double, '\x22' => .endQuote
  | double, c => if isMeaningful c then .escaped else .plain
  | arithmetic, '(' => .leftParen
  | arithmetic, ')' => .rightParen
  | arithmetic, _ => .plain
  | bare, '\x27' => .singleQuote
  | bare, '\x22' => .doubleQuote
  | bare, c => if "<>();&| \t".contains c then .ending else .plain

structure Level where
  quoting : Quoting
  /-- Whether the characters count as standing in double quotes. -/
  doubled : Bool := false
  /-- The parameters that are open, and those of them that were opened in double quotes. -/
  parameters : Nat := 0
  doubledParameters : Nat := 0
  /-- Whether double quotes are open inside a parameter. -/
  innerQuotes : Bool := false
  /-- Whether the level ends with the parameter that opened it. -/
  ofParameter : Bool := false
  /-- The parentheses that are open in arithmetic. -/
  parens : Nat := 0

/-- What the pieces that are being read will be part of. -/
inductive Frame where
  | parameter (name : String) (operation : Operation) (orEmpty : Bool)
  | arithmetic

/-- A word that is being read. The pieces and the frames around them stand in reverse. -/
structure Draft where
  level : Level
  outer : List Level := []
  pieces : List Piece := []
  frames : List (Frame × List Piece) := []
  /-- Whether a part of the word is quoted. -/
  quoted : Bool := false

namespace Draft

def add (d : Draft) (p : Piece) : Draft := { d with pieces := p :: d.pieces }

def addChar (d : Draft) (c : Char) (escaped : Bool) : Draft := d.add (.char c escaped)

def openFrame (d : Draft) (f : Frame) : Draft :=
  { d with pieces := [], frames := (f, d.pieces) :: d.frames }

/-- Makes one piece of those since the innermost frame was opened. -/
def closeFrame (d : Draft) : Draft :=
  match d.frames with
  | [] => d
  | (f, before) :: frames =>
    let piece := match f with
      | .parameter name operation orEmpty =>
        Piece.parameter name operation orEmpty d.pieces.reverse
      | .arithmetic => .arithmetic d.pieces.reverse
    { d with pieces := piece :: before, frames }

def push (d : Draft) (level : Level) : Draft := { d with level, outer := d.level :: d.outer }

def pop (d : Draft) : Draft :=
  match d.outer with
  | [] => d
  | level :: outer => { d with level, outer }

def mapLevel (d : Draft) (f : Level → Level) : Draft := { d with level := f d.level }

end Draft

/-- What kind of text is read: a word of a command, the word that ends a document, a document up to
the line that ends it, or a text that is like a document and ends where it ends. -/
inductive Purpose where
  | command
  | mark
  | document (a : Announced)
  | template

def Purpose.isDocument : Purpose → Bool
  | document _ | template => true
  | _ => false

def Purpose.isMark : Purpose → Bool
  | mark => true
  | _ => false

namespace Reader

/-- Whether a text begins with `mark` and then ends or goes on in a new line; what follows it. -/
def afterMark? : (mark text : List Char) → Option (List Char)
  | [], [] => some []
  | [], '\n' :: text => some text
  | m :: mark, c :: text => if m = c then afterMark? mark text else none
  | _, _ => none

def skipTabs : Option Char → List Char → Option Char × List Char
  | some '\t', c :: cs => skipTabs (some c) cs
  | some '\t', [] => (none, [])
  | c, cs => (c, cs)

/-- The first character of a line, or none if the document ends with this line. -/
def atLineStart (purpose : Purpose) (c : Option Char) : Reader (Option Char) := do
  match purpose with
  | .document a =>
    let rest := (← get).rest
    let (c, rest) := if a.stripTabs then skipTabs c rest else (c, rest)
    match afterMark? a.mark (c.toList ++ rest) with
    | some rest =>
      modify fun s => { s with rest, line := s.line + 1 }
      return none
    | none =>
      modify fun s => { s with rest }
      return c
  | _ => return c

/-- The next character as the quotes around it have it. -/
def nextIn (d : Draft) : Reader (Option Char) :=
  if d.level.quoting = .single then next else nextJoined

/-! ## Parameters -/

def isSpecial (c : Char) : Bool := c.isDigit || "!#$*-?@".contains c

/-- Takes characters while they belong to a name. -/
def takeName (p : Char → Bool) : (fuel : Nat) → Option Char → List Char →
    Reader (List Char × Option Char)
  | 0, c, name => return (name.reverse, c)
  | fuel + 1, c, name => do
    match c with
    | some x => if p x then takeName p fuel (← nextJoined) (x :: name) else return (name.reverse, c)
    | none => return (name.reverse, c)

/-- The operation that a character behind a parameter's name stands for. -/
def operation? : Option Char → Option Operation
  | some '\x7d' => some .value
  | some '-' => some .default
  | some '+' => some .alternative
  | some '?' => some .require
  | some '=' => some .assign
  | _ => none

/-- A parameter as far as it goes before its word. -/
structure Opened where
  name : String
  operation : Operation
  orEmpty : Bool := false
  /-- Whether a word follows. -/
  hasWord : Bool := true

/-- The operation behind the name of a parameter in braces. -/
def operationAfter (name : String) (c : Option Char) : Reader Opened := do
  match c with
  | some ':' =>
    return { name, operation := (operation? (← nextJoined)).getD .unknown, orEmpty := true }
  | some '%' => return { name, operation := .cutSuffix (← follows '%') }
  | some '#' => return { name, operation := .cutPrefix (← follows '#') }
  | c =>
    let operation := (operation? c).getD .unknown
    return { name, operation, hasWord := operation ≠ .value }

/-- The length of a parameter, which has to end here. -/
def lengthOf (name : String) (c : Option Char) : Reader Opened := do
  putBack c
  return { name, operation := if c = some '\x7d' then .length else .unknown }

/-- A name or a number that starts with `c`, and the character behind it. -/
def nameFrom? (c : Option Char) : Reader (Option (String × Option Char)) := do
  let fuel := (← get).rest.length + 1
  match c with
  | some x =>
    if isNameStart x then
      let (name, c) ← takeName isNameChar fuel c []
      return some (String.ofList name, c)
    else if x.isDigit then
      let (name, c) ← takeName Char.isDigit fuel c []
      return some (String.ofList name, c)
    else return none
  | none => return none

/-- A parameter in braces that starts with `c`. -/
def braced (c : Option Char) : Reader Opened := do
  match ← nameFrom? c with
  | some (name, c) => operationAfter name c
  | none =>
    let bad (c : Option Char) : Reader Opened := do
      putBack c
      return { name := "", operation := .unknown }
    let special (first c : Option Char) (length : Bool) : Reader Opened :=
      match first with
      | some x =>
        if isSpecial x then
          if length then lengthOf (String.singleton x) c
          else operationAfter (String.singleton x) c
        else bad c
      | none => bad c
    if c = some '\x7d' then bad c
    else
      let second ← nextJoined
      if c ≠ some '#' then special c second false
      else match ← nameFrom? second with
        | some (name, c) => lengthOf name c
        | none =>
          let third ← nextJoined
          if second = some '\x7d' ∨ third ≠ some '\x7d' then
            putBack third
            special c second false
          else special second third true

/-- Opens a parameter whose word follows. -/
def Opened.enter (o : Opened) (d : Draft) : Draft :=
  if ¬ o.hasWord then d.add (.parameter o.name o.operation o.orEmpty [])
  else
    let quoting := match o.operation with
      | .cutSuffix _ | .cutPrefix _ => Quoting.bare
      | _ => if d.level.quoting = .arithmetic then .double else d.level.quoting
    let d := if quoting ≠ d.level.quoting ∨ d.level.innerQuotes then
        d.push { quoting, ofParameter := true, doubled := quoting ≠ .bare }
      else d
    let d := d.mapLevel fun l =>
      { l with
        parameters := l.parameters + 1
        doubledParameters := l.doubledParameters + if l.doubled then 1 else 0 }
    d.openFrame (.parameter o.name o.operation o.orEmpty)

/-! ## Commands in words -/

/-- The command that stands in parentheses, up to the one that closes it. The token that ends a list
is always read again. Documents announced outside wait. -/
def parenthesised (list : Reader Command) : Reader Command := do
  let announced := (← get).announced
  modify fun s => { s with announced := [] }
  let body ← list
  modify fun s => { s with pushedBack := false }
  if (← get).last ≠ .rightParen then unexpected (some .rightParen)
  modify fun s => { s with announced }
  return body

/-- The text up to a backquote. A backslash is dropped before a character that it escapes. -/
def backquoted (doubled : Bool) : (fuel : Nat) → List Char → Reader (List Char)
  | 0, _ => fail "EOF in backquote substitution"
  | fuel + 1, text => do
    match ← nextJoined with
    | none => fail "EOF in backquote substitution"
    | some '\x60' => return text.reverse
    | some '\\' =>
      match ← next with
      | none => fail "EOF in backquote substitution"
      | some c =>
        if c = '\\' ∨ c = '\x60' ∨ c = '$' ∨ (doubled ∧ c = '\x22') then
          backquoted doubled fuel (c :: text)
        else backquoted doubled fuel (c :: '\\' :: text)
    | some '\n' =>
      nextLine
      backquoted doubled fuel ('\n' :: text)
    | some c => backquoted doubled fuel (c :: text)

/-- Reads a text of its own, whose lines are counted from one, as a command. What is left of it does
not matter. -/
def separately (list : Reader Command) (text : List Char) : Reader Command := do
  let outside ← get
  set { outside with rest := text, line := 1, announced := [] }
  let body ← list
  modify fun s =>
    { s with
      rest := outside.rest
      line := outside.line
      announced := outside.announced
      pushedBack := false }
  return body

/-! ## Characters -/

/-- A dollar sign has been read. -/
def dollar (list : Reader Command) (purpose : Purpose) (d : Draft) :
    Reader Draft := do
  let c ← nextJoined
  let literal : Reader Draft := do
    putBack c
    return d.addChar '$' false
  match c with
  | none => literal
  | some x =>
    if purpose.isMark then literal
    else if x = '(' then
      if ← follows '(' then
        return (d.push { quoting := .arithmetic, doubled := true }).openFrame .arithmetic
      else return d.add (.substitution (← parenthesised list))
    else if x = '\x7b' then
      return (← braced (← nextJoined)).enter d
    else if isNameStart x then
      let (name, c) ← takeName isNameChar ((← get).rest.length + 1) c []
      putBack c
      return d.add (.parameter (String.ofList name) .value false [])
    else if isSpecial x then
      return d.add (.parameter (String.singleton x) .value false [])
    else literal

/-- A backslash has been read. -/
def backslash (purpose : Purpose) (d : Draft) : Reader Draft := do
  match ← next with
  | none => return d.addChar '\\' true
  | some c =>
    let l := d.level
    let kept := l.doubled && c ≠ '\\' && c ≠ '\x60' && c ≠ '$' &&
      (c ≠ '\x22' || (purpose.isDocument && l.parameters = 0)) &&
      (c ≠ '\x7d' || l.parameters = 0)
    let d := if kept then d.addChar '\\' true else d
    return { d.addChar c true with quoted := true }

/-- A quotation mark has been read that counts as one. -/
def quoteMark (purpose : Purpose) (d : Draft) : Draft :=
  if purpose.isDocument then d else d.add .quote

def toggleInner (d : Draft) : Draft :=
  d.mapLevel fun l => if l.parameters = 0 then l else { l with innerQuotes := !l.innerQuotes }

/-- A quotation mark has been read where quotes of its kind are open. -/
def endQuote (purpose : Purpose) (c : Char) (d : Draft) : Draft :=
  if purpose.isDocument ∧ d.level.parameters = 0 then d.addChar c false
  else
    let d := if d.level.doubledParameters = 0 then
        d.mapLevel fun l => { l with quoting := .bare, doubled := false }
      else d
    let d := { d with quoted := true }
    quoteMark purpose (if c = '\x22' then toggleInner d else d)

/-- A closing brace has been read. -/
def rightBrace (d : Draft) : Draft :=
  let l := d.level
  if l.innerQuotes ∨ l.parameters = 0 then d.addChar '\x7d' false
  else
    let l := { l with parameters := l.parameters - 1 }
    if l.parameters = 0 ∧ l.ofParameter then d.closeFrame.pop
    else { d.closeFrame with level := { l with doubledParameters := l.doubledParameters - 1 } }

/-- A closing parenthesis has been read in arithmetic. -/
def rightParen (d : Draft) : Reader Draft := do
  if d.level.parens > 0 then
    return (d.mapLevel fun l => { l with parens := l.parens - 1 }).addChar ')' false
  else if ← follows ')' then return d.closeFrame.pop
  else return d.addChar ')' false

/-- Reads on until the word ends; `c` is the character that has been read. The result has the
character that ended it. -/
def wordFrom (list : Reader Command) (purpose : Purpose) :
    (fuel : Nat) → (lineStart : Bool) → Option Char → Draft → Reader (Draft × Option Char)
  | 0, _, c, d => return (d, c)
  | fuel + 1, lineStart, c, d => do
    let c ← if lineStart then atLineStart purpose c else pure c
    match c with
    | none => return (d, none)
    | some x =>
      let goOn (d : Draft) : Reader (Draft × Option Char) := do
        wordFrom list purpose fuel false (← nextIn d) d
      match d.level.quoting.role x with
      | .newline =>
        if d.level.quoting = .bare ∧ d.level.parameters = 0 then return (d, c)
        else
          nextLine
          let d := d.addChar x false
          wordFrom list purpose fuel true (← nextIn d) d
      | .plain => goOn (d.addChar x false)
      | .escaped => goOn (d.addChar x (!purpose.isDocument || d.level.doubled))
      | .backslash => goOn (← backslash purpose d)
      | .singleQuote =>
        goOn (quoteMark purpose (d.mapLevel fun l => { l with quoting := .single }))
      | .doubleQuote =>
        goOn (quoteMark purpose (toggleInner (d.mapLevel fun l =>
          { l with quoting := .double, doubled := true })))
      | .endQuote => goOn (endQuote purpose x d)
      | .dollar => goOn (← dollar list purpose d)
      | .rightBrace => goOn (rightBrace d)
      | .leftParen =>
        goOn ((d.mapLevel fun l => { l with parens := l.parens + 1 }).addChar x false)
      | .rightParen => goOn (← rightParen d)
      | .backquote =>
        if purpose.isMark then goOn { d.addChar x false with quoted := true }
        else
          let text ← backquoted d.level.doubled ((← get).rest.length + 1) []
          goOn (d.add (.substitution (← separately list text)))
      | .ending =>
        if d.level.parameters = 0 then return (d, c) else goOn (d.addChar x false)

/-- Complains if something is still open at the end of a word. -/
def checkClosed (purpose : Purpose) (d : Draft) : Reader Unit := do
  if d.level.quoting = .arithmetic then fail "Missing '))'"
  if d.level.quoting ≠ .bare ∧ ¬ purpose.isDocument then fail "Unterminated quoted string"
  if d.level.parameters ≠ 0 then fail "Missing '\x7d'"

end Reader

end Shellwright.Shell
