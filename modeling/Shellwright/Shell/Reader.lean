import Shellwright.Shell.Word

/-!
# Reading commands

The grammar of the shell language, by descent. Each rule reads the tokens that it needs and has the
first one that it does not need read again. Rules that contain each other do so through `Nested`.
-/
namespace Shellwright.Shell

namespace Reader

/-- Where a list of commands stands. -/
inductive ListKind where
  /-- A line of its own. -/
  | line
  /-- Inside a command, with at least one command in it. -/
  | body
  /-- Inside a command, perhaps with nothing in it. -/
  | optional
deriving DecidableEq

/-- What is read inside other commands. -/
inductive Goal where
  | list (kind : ListKind)
  | command

/-- The rules that other rules contain. -/
abbrev Nested := Goal → Reader Command

def Nested.list (nested : Nested) (kind : ListKind) : Reader Command := nested (.list kind)

/-- What is looked for besides ordinary tokens: whether new lines are passed over, whether reserved
words count as such, and whether the word is to end a document. -/
structure Look where
  newlines : Bool := false
  reserved : Bool := false
  mark : Bool := false

def Look.fresh : Look := { newlines := true, reserved := true }

def Look.keywords : Look := { reserved := true }

/-! ## Tokens -/

/-- A redirection has been met behind the word that `digits` is. -/
def arrowAfter (digits : List Char) (c : Char) : Reader Unit := do
  let (number, arrow) ← if c = '>' then do
      let arrow ← if ← follows '>' then pure (.file .append)
        else if ← follows '|' then pure (.file .overwrite)
        else if ← follows '&' then pure .duplicate
        else pure (.file .write)
      pure (1, arrow)
    else do
      let arrow ← if ← follows '<' then pure (.document (← follows '-'))
        else if ← follows '&' then pure .duplicate
        else if ← follows '>' then pure (.file .readWrite)
        else pure (.file .read)
      pure (0, arrow)
  let number := match digits with
    | d :: _ => d.toNat - '0'.toNat
    | [] => number
  modify fun s => { s with arrow, number }

/-- The number that a redirection may have in front of it, as far as a word can be one. -/
def digits? : Word → Option (List Char)
  | [] => some []
  | [.char c false] => if c.isDigit then some [c] else none
  | _ => none

/-- Reads a word or a redirection that starts with `c`. -/
def wordOrArrow (nested : Nested) (purpose : Purpose) (c : Option Char) : Reader Token := do
  let fuel := (← get).rest.length + 2
  let (d, c) ← wordFrom (nested.list .optional) purpose fuel false c
    { level := { quoting := .bare } }
  checkClosed purpose d
  let word := d.pieces.reverse
  let arrow? := match c, digits? word with
    | some x, some ds => if x = '>' ∨ x = '<' then some (ds, x) else none
    | _, _ => none
  match arrow? with
  | some (ds, x) =>
    arrowAfter ds x
    return .redirection
  | none =>
    putBack c
    modify fun s => { s with word, quoted := d.quoted }
    return .word

/-- The rest of a text behind a comment. -/
def skipComment (cs : List Char) : List Char := cs.dropWhile (· ≠ '\n')

/-- Reads a token of the text. -/
def freshToken (nested : Nested) (look : Look) : (fuel : Nat) → Reader Token
  | 0 => return .eof
  | fuel + 1 => do
    let c ← nextJoined
    match c with
    | none => return .eof
    | some ' ' | some '\t' => freshToken nested look fuel
    | some '#' =>
      modify fun s => { s with rest := skipComment s.rest }
      freshToken nested look fuel
    | some '\n' =>
      nextLine
      return .newline
    | some '&' => return if ← follows '&' then .andIf else .ampersand
    | some '|' => return if ← follows '|' then .orIf else .bar
    | some ';' => return if ← follows ';' then .doubleSemicolon else .semicolon
    | some '(' => return .leftParen
    | some ')' => return .rightParen
    | c => wordOrArrow nested (if look.mark then .mark else .command) c

/-- The last token again, or a new one. -/
def anyToken (nested : Nested) (look : Look) : Reader Token := do
  let s ← get
  if s.pushedBack then
    modify fun s => { s with pushedBack := false }
    return s.last
  else
    let t ← freshToken nested look (s.rest.length + 1)
    modify fun s => { s with last := t }
    return t

/-- Reads a document that has been announced. -/
def document (nested : Nested) (a : Announced) : Reader Unit := do
  let fuel := (← get).rest.length + 2
  let start : Level :=
    if a.verbatim then { quoting := .single } else { quoting := .double, doubled := true }
  let c ← if a.verbatim then next else nextJoined
  let (d, _) ← wordFrom (nested.list .optional) (.document a) fuel true c { level := start }
  checkClosed (.document a) d
  modify fun s => { s with documents := s.documents.setIfInBounds a.index d.pieces.reverse }

/-- Reads all documents that have been announced. -/
def documents (nested : Nested) : Reader Unit := do
  let announced := (← get).announced
  modify fun s => { s with announced := [] }
  announced.forM (document nested)

/-- Passes over new lines, and reads the documents behind them. -/
def skipNewlines (nested : Nested) : (fuel : Nat) → Token → Reader Token
  | 0, t => return t
  | fuel + 1, t => do
    if t = .newline then
      documents nested
      skipNewlines nested fuel (← anyToken nested {})
    else return t

def token (nested : Nested) (look : Look) : Reader Token := do
  let t ← anyToken nested look
  let t ← if look.newlines then skipNewlines nested ((← get).rest.length + 2) t else pure t
  let s ← get
  if t ≠ .word ∨ s.quoted ∨ ¬ look.reserved then return t
  match s.word.plain?.bind fun cs => Token.ofWord? (String.ofList cs) with
  | some t =>
    modify fun s => { s with last := t }
    return t
  | none => return t

/-- Reads a token that has to be there. -/
def expect (nested : Nested) (look : Look) (t : Token) : Reader Unit := do
  if (← token nested look) ≠ t then unexpected (some t)

/-! ## Redirections -/

/-- What is behind a redirection that has just been read. -/
def target (nested : Nested) : Reader Redirection := do
  let { arrow, number, .. } ← get
  let look : Look := match arrow with
    | .document _ => { mark := true }
    | _ => {}
  if (← token nested look) ≠ .word then unexpected none
  let { word, quoted, .. } ← get
  match arrow with
  | .file access => return .file number access word
  | .duplicate => match word with
    | [.char c false] =>
      if c.isDigit then return .duplicate number (c.toNat - '0'.toNat)
      else if c = '-' then return .close number
      else return .computed number word
    | _ => return .computed number word
  | .document stripTabs =>
    let index := (← get).documents.size
    modify fun s =>
      { s with
        documents := s.documents.push []
        announced := s.announced ++ [⟨index, Word.literal word, stripTabs, quoted⟩] }
    return .document number index

/-- The redirections behind a command. -/
def redirections (nested : Nested) : (fuel : Nat) → Look → Reader (List Redirection)
  | 0, _ => return []
  | fuel + 1, look => do
    if (← token nested look) = .redirection then
      let r ← target nested
      return r :: (← redirections nested fuel {})
    else
      pushBack
      return []

/-! ## Simple commands -/

/-- The commands that no function can take the name of. -/
def specialNames : List String :=
  [".", ":", "break", "continue", "eval", "exec", "exit", "export", "local", "readonly", "return",
   "set", "shift", "times", "trap", "unset"]

/-- The parts of a simple command that have been read, in reverse. -/
structure Parts where
  assignments : List Word := []
  words : List Word := []
  redirections : List Redirection := []

def simple (nested : Nested) (line : Nat) : (fuel : Nat) → Parts → Reader Command
  | 0, _ => return .skip
  | fuel + 1, parts => do
    match ← token nested {} with
    | .word =>
      let word := (← get).word
      if parts.words.isEmpty ∧ word.isAssignment then
        simple nested line fuel { parts with assignments := word :: parts.assignments }
      else simple nested line fuel { parts with words := word :: parts.words }
    | .redirection =>
      let r ← target nested
      simple nested line fuel { parts with redirections := r :: parts.redirections }
    | t =>
      match t, parts with
      | .leftParen, { assignments := [], words := [name], redirections := [] } =>
        expect nested {} .rightParen
        let name := (name.plain?.filter isName).map String.ofList
        match name.filter fun n => !(specialNames.contains n) with
        | some name => return .definition name (← nested .command)
        | none => fail "Bad function name"
      | _, _ =>
        pushBack
        return .simple line parts.assignments.reverse parts.words.reverse
          parts.redirections.reverse

/-! ## Compound commands -/

/-- The words that a loop goes through. -/
def loopWords (nested : Nested) : (fuel : Nat) → Reader (List Word)
  | 0 => return []
  | fuel + 1 => do
    if (← token nested {}) = .word then
      let word := (← get).word
      return word :: (← loopWords nested fuel)
    else return []

/-- All positional parameters, each as it is. -/
def allParameters : Word := [.quote, .parameter "@" .value false [], .quote]

def forEach (nested : Nested) (line : Nat) : Reader Command := do
  let t ← token nested {}
  let s ← get
  let name := (s.word.plain?.filter isName).map String.ofList
  match if t = .word ∧ ¬ s.quoted then name else none with
  | none => fail "Bad for loop variable"
  | some name =>
    let words ← if (← token nested .fresh) = .reserved "in" then do
        let words ← loopWords nested ((← get).rest.length + 1)
        let last := (← get).last
        if last ≠ .newline ∧ last ≠ .semicolon then unexpected none
        pure words
      else do
        if (← get).last ≠ .semicolon then pushBack
        pure [allParameters]
    expect nested .fresh (.reserved "do")
    return .forEach line name words (← nested.list .body)

/-- The patterns of a branch, the first of which has been read. -/
def patterns (nested : Nested) : (fuel : Nat) → Reader (List Word)
  | 0 => return []
  | fuel + 1 => do
    let word := (← get).word
    if (← token nested {}) = .bar then
      let _ ← token nested {}
      return word :: (← patterns nested fuel)
    else return [word]

/-- The branches of a choice; the first token of the next one, or the end, has been read. -/
def branches (nested : Nested) : (fuel : Nat) → Token → Reader (List (List Word × Command))
  | 0, _ => return []
  | fuel + 1, t => do
    if t = .reserved "esac" then return []
    if t = .leftParen then
      let _ ← token nested {}
    let ps ← patterns nested ((← get).rest.length + 1)
    if (← get).last ≠ .rightParen then unexpected (some .rightParen)
    let body ← nested.list .optional
    match ← token nested .fresh with
    | .reserved "esac" => return [(ps, body)]
    | .doubleSemicolon => return (ps, body) :: (← branches nested fuel (← token nested .fresh))
    | _ => unexpected (some .doubleSemicolon)

def choice (nested : Nested) (line : Nat) : Reader Command := do
  if (← token nested {}) ≠ .word then unexpected (some .word)
  let subject := (← get).word
  expect nested .fresh (.reserved "in")
  let t ← token nested .fresh
  return .choice line subject (← branches nested ((← get).rest.length + 1) t)

/-- What follows a condition. -/
def conditional (nested : Nested) : (fuel : Nat) → Reader Command
  | 0 => return .skip
  | fuel + 1 => do
    let test ← nested.list .body
    expect nested {} (.reserved "then")
    let thenPart ← nested.list .body
    match ← token nested {} with
    | .reserved "elif" => return .conditional test thenPart (← conditional nested fuel)
    | .reserved "else" => return .conditional test thenPart (← nested.list .body)
    | _ =>
      pushBack
      return .conditional test thenPart .skip

/-- A command that may have redirections behind it. -/
def withRedirections (nested : Nested) (line : Nat) (body : Command) : Reader Command := do
  let rs ← redirections nested ((← get).rest.length + 1) .keywords
  match body, rs with
  | body, [] => return body
  | .subshell line body _, rs => return .subshell line body rs
  | body, rs => return .redirected line body rs

def command (nested : Nested) (look : Look) : Reader Command := do
  let line := (← get).line
  match ← token nested look with
  | .reserved "if" =>
    let body ← conditional nested ((← get).rest.length + 1)
    expect nested {} (.reserved "fi")
    withRedirections nested line body
  | .reserved "while" => loop line true
  | .reserved "until" => loop line false
  | .reserved "for" =>
    let body ← forEach nested line
    expect nested {} (.reserved "done")
    withRedirections nested line body
  | .reserved "case" => withRedirections nested line (← choice nested line)
  | .leftParen =>
    let body ← nested.list .body
    expect nested {} .rightParen
    withRedirections nested line (.subshell line body [])
  | .reserved "\x7b" =>
    let body ← nested.list .body
    expect nested {} (.reserved "\x7d")
    withRedirections nested line body
  | .word | .redirection =>
    let { line, rest, .. } ← get
    pushBack
    simple nested line (rest.length + 2) {}
  | _ => unexpected none
where
  loop (line : Nat) (whileZero : Bool) : Reader Command := do
    let test ← nested.list .body
    expect nested {} (.reserved "do")
    let body ← nested.list .body
    expect nested {} (.reserved "done")
    withRedirections nested line (.loop whileZero test body)

/-! ## Lists -/

def stages (nested : Nested) : (fuel : Nat) → Reader (List Command)
  | 0 => return []
  | fuel + 1 => do
    if (← token nested {}) = .bar then
      let c ← command nested .fresh
      return c :: (← stages nested fuel)
    else
      pushBack
      return []

def pipeline (nested : Nested) (look : Look) : Reader Command := do
  let negated := (← token nested look) = .reserved "!"
  unless negated do pushBack
  let first ← command nested (if negated then .keywords else {})
  let body := match ← stages nested ((← get).rest.length + 1) with
    | [] => first
    | rest => .pipeline false (first :: rest)
  return if negated then .negation body else body

def connected (nested : Nested) : (fuel : Nat) → Command → Reader Command
  | 0, c => return c
  | fuel + 1, c => do
    match ← token nested {} with
    | .andIf => connected nested fuel (.both c (← pipeline nested .fresh))
    | .orIf => connected nested fuel (.either c (← pipeline nested .fresh))
    | _ =>
      pushBack
      return c

/-- A command that nobody waits for. -/
def inBackground : Command → Command
  | .pipeline _ stages => .pipeline true stages
  | .redirected line body rs => .background line body rs
  | c => .background 0 c []

def join : Command → Command → Command
  | .skip, c => c
  | c, d => .sequence c d

/-- A list of commands; `before` has been read. -/
def listFrom (nested : Nested) (kind : ListKind) :
    (fuel : Nat) → (before : Command) → Reader Command
  | 0, c => return c
  | fuel + 1, before => do
    match ← token nested { newlines := kind ≠ .line, reserved := true } with
    | .newline =>
      documents nested
      return before
    | .eof => atEnd before
    | t =>
      pushBack
      if (kind = .optional ∨ (kind = .body ∧ ¬ before.isSkip)) ∧ t.endsList then return before
      let c ← connected nested ((← get).rest.length + 2) (← pipeline nested {})
      let t ← token nested {}
      let all := join before (if t = .ampersand then inBackground c else c)
      match t with
      | .eof => atEnd all
      | .newline =>
        pushBack
        listFrom nested kind fuel all
      | .ampersand | .semicolon => listFrom nested kind fuel all
      | _ =>
        if kind = .line then unexpected none
        pushBack
        return all
where
  atEnd (c : Command) : Reader Command := do
    documents nested
    modify fun s => { s with pushedBack := true, last := .eof }
    return c

/-- The rules, in which at most `depth` are inside each other. -/
def rules : (depth : Nat) → Nested
  | 0, _ => return .skip
  | depth + 1, .list kind => do listFrom (rules depth) kind ((← get).rest.length + 2) .skip
  | depth + 1, .command => command (rules depth) .fresh

/-- Reads what stands up to the end of a line, and says whether the text goes on. -/
def line : Reader (Option Command) := do
  modify fun s => { s with pushedBack := false, announced := [] }
  let s ← get
  let c ← rules (s.rest.length + 2) (.list .line)
  let s ← get
  return if c.isSkip ∧ s.pushedBack ∧ s.last = .eof then none else some c

/-- Reads a whole text in which nothing but parameters, commands and arithmetic has a meaning. -/
def template : Reader Word := do
  let fuel := (← get).rest.length + 2
  let nested := rules fuel
  let c ← nextJoined
  let start : Level := { quoting := .double, doubled := true }
  let (d, _) ← wordFrom (nested.list .optional) .template fuel false c { level := start }
  checkClosed .template d
  return d.pieces.reverse

end Reader

end Shellwright.Shell
