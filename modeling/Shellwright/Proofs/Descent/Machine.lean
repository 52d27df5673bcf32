import Shellwright.Program

/-!
# Reading step by step

How a list of tokens is read with nothing but an index into it, a counter of the levels that are
open, and a stack of the phrases that have been begun. One step enters a phrase, leaves one, or goes
past a symbol between two statements. Nothing here bounds the stack or the number of steps, and the
counter is an ordinary number: it goes up where a level begins and down where it ends, and going
down from zero is an outcome of its own.

The sorts of a frame say which phrase waits for which, so that a stack is always a chain of calls
that can happen.

## Main definitions

* `Cursor`: the index and the counter.
* `Phrase`, `Frame`, `Stack`: what can be entered, what a phrase keeps while it waits for another
  one, and the phrases that enclose the one entered.
* `step`, `run`: one step, and so many of them.
-/
namespace Shellwright.Descent

open Token (Kind)
open SyntaxError (Cause)

/-! ## Phrases and what waits for them -/

/-- How many tokens have been passed, and how many levels are open. -/
structure Cursor where
  pos : Nat
  depth : Nat
deriving DecidableEq

/-- The parts of a program that are entered and left: besides statements and expressions these are
expressions with commas between them, the parentheses behind the name of a call, a body, and a pipe
from its keyword on. -/
inductive Phrase where
  | stmt
  | expr
  | list
  | call
  | block
  | pipe
deriving DecidableEq

namespace Phrase

/-- What a phrase is read as. -/
abbrev Tree : Phrase → Type
  | stmt => Stmt
  | expr => Expr
  | list | call => List Expr
  | block => List Stmt
  | pipe => List Invocation

/-- The phrases that are a level of their own. -/
def opens : Phrase → Bool
  | call | block | pipe => true
  | stmt | expr | list => false

end Phrase

/-- A phrase of the sort `whole` that waits for one of the sort `hole`, with what it has read. -/
inductive Frame : (hole whole : Phrase) → Type where
  | callee (name : String) : Frame .call .expr
  | arguments : Frame .list .call
  | item (done : List Expr) : Frame .expr .list
  | value (binding : Binding) (name : String) : Frame .expr .stmt
  | command : Frame .list .stmt
  | condition : Frame .expr .stmt
  | branch (cond : Expr) : Frame .block .stmt
  | iterable (name : String) : Frame .expr .stmt
  | loop (name : String) (iterable : Expr) : Frame .block .stmt
  | stages : Frame .pipe .stmt
  | alone : Frame .expr .stmt
  | inBlock (done : List Stmt) : Frame .stmt .block
  | inPipe (done : List Invocation) : Frame .stmt .pipe

/-- The phrases around one of the given sort, each with the cursor it was entered with. The
outermost one is a statement of the program. -/
inductive Stack : Phrase → Type where
  | program (done : List Stmt) : Stack .stmt
  | push {p q : Phrase} (frame : Frame p q) (entry : Cursor) (outer : Stack q) : Stack p

/-- The sorts of the enclosing phrases, the innermost first. -/
def Stack.enclosing {p : Phrase} : Stack p → List Phrase
  | .program _ => []
  | .push (q := q) _ _ outer => q :: outer.enclosing

/-- What is about to happen. -/
inductive Control where
  /-- No statement has been begun; these have been read. -/
  | between (done : List Stmt)
  | enter (p : Phrase) (stack : Stack p)
  /-- A phrase that was entered with the cursor `entry` has been read. -/
  | leave (p : Phrase) (entry : Cursor) (tree : p.Tree) (stack : Stack p)

structure State where
  cursor : Cursor
  control : Control

def State.start : State := ⟨⟨0, 0⟩, .between []⟩

/-- What has come of a number of steps. -/
inductive Progress where
  | running (s : State)
  | halted (result : Except SyntaxError Program)
  /-- A level was to be closed while none was open. -/
  | underflow

/-! ## The tokens at the cursor -/

variable (ts : List Token)

/-- The token to read next; past the last one it is the end of the input. -/
def peek (k : Cursor) : Kind := (ts[k.pos]?.map (·.kind)).getD .eof

/-- Where the next token stands; past the last one, where that one does. -/
def place (k : Cursor) : Position :=
  (ts[k.pos]?.map (·.position)).getD ((ts.getLast?.map (·.position)).getD .start)

/-- Goes past one token, if there is one. -/
def bump (k : Cursor) : Cursor := if k.pos < ts.length then { k with pos := k.pos + 1 } else k

/-! ## Parts of a step -/

def fail (cause : Cause) (k : Cursor) : Progress := .halted (.error ⟨cause, place ts k⟩)

/-- Goes past a token of the form that `f` picks out. -/
def expect {α : Type} (what : Expectation) (f : Kind → Option α) (k : Cursor)
    (go : α → Cursor → Progress) : Progress :=
  match f (peek ts k) with
  | some a => go a (bump ts k)
  | none => fail ts (.expected what (peek ts k)) k

def expectSymbol (c : Char) (k : Cursor) (go : Cursor → Progress) : Progress :=
  expect ts (.symbol c) (fun j => if j = .symbol c then some () else none) k fun _ => go

def expectKeyword (w : Keyword) (k : Cursor) (go : Cursor → Progress) : Progress :=
  expect ts (.keyword w) (fun j => if j = .keyword w then some () else none) k fun _ => go

def expectName (k : Cursor) (go : String → Cursor → Progress) : Progress :=
  expect ts .identifier (fun | .ident name => some name | _ => none) k go

/-- Counts one more level, if there may be one. -/
def openLevel (k : Cursor) (go : Cursor → Progress) : Progress :=
  if maxNesting < k.depth + 1 then fail ts .nestingTooDeep k else go { k with depth := k.depth + 1 }

section Moves

variable {p q : Phrase} (entry : Cursor) (outer : Stack q)

/-- The phrase entered at `entry` goes on to one that it waits for. -/
def descend (frame : Frame p q) (k : Cursor) : Progress :=
  .running ⟨k, .enter p (.push frame entry outer)⟩

def ascend (tree : q.Tree) (k : Cursor) : Progress := .running ⟨k, .leave q entry tree outer⟩

/-- Counts one level less and leaves the phrase. -/
def closeLevel (tree : q.Tree) (k : Cursor) : Progress :=
  match k.depth with
  | 0 => .underflow
  | depth + 1 => ascend entry outer tree { k with depth }

/-- Behind a statement between braces, or behind the opening one: either all have been read, or one
more is. -/
def nextStmt (frame : Frame .stmt q) (tree : q.Tree) (k : Cursor) : Progress :=
  if peek ts k = .symbol '\x7d' then closeLevel entry outer tree (bump ts k)
  else descend entry outer frame k

end Moves

/-- The words before the value of a declaration. -/
def declaration (binding : Binding) (entry : Cursor) (outer : Stack .stmt) : Progress :=
  expectName ts (bump ts entry) fun name k =>
    expectSymbol ts '=' k (descend entry outer (.value binding name))

/-- The first step of a phrase. -/
def enter (k : Cursor) : (p : Phrase) → Stack p → Progress
  | .stmt, outer => match peek ts k with
    | .keyword .val => declaration ts .val k outer
    | .keyword .var => declaration ts .var k outer
    | .keyword .run => descend k outer .command (bump ts k)
    | .keyword .if_ => descend k outer .condition (bump ts k)
    | .keyword .for_ => expectName ts (bump ts k) fun name j =>
      expectKeyword ts .in_ j (descend k outer (.iterable name))
    | .keyword .pipe => descend k outer .stages k
    | .keyword .in_ => fail ts (.unknownKeyword .in_) k
    | .ident _ => descend k outer .alone k
    | found => fail ts (.unexpectedToken found) k
  | .expr, outer => match peek ts k with
    | .string text => ascend k outer (.string text) (bump ts k)
    | .number digits => ascend k outer (.number digits) (bump ts k)
    | .ident name =>
      if peek ts (bump ts k) = .symbol '(' then descend k outer (.callee name) (bump ts k)
      else ascend k outer (.var name) (bump ts k)
    | found => fail ts (.expectedExpression found) k
  | .list, outer => descend k outer (.item []) k
  | .call, outer => openLevel ts k fun j => expectSymbol ts '(' j fun j =>
    if peek ts j = .symbol ')' then closeLevel k outer [] (bump ts j)
    else descend k outer .arguments j
  | .block, outer => openLevel ts k fun j =>
    expectSymbol ts '\x7b' j (nextStmt ts k outer (.inBlock []) [])
  | .pipe, outer => expectKeyword ts .pipe k fun j => openLevel ts j fun j =>
    expectSymbol ts '\x7b' j (nextStmt ts k outer (.inPipe []) [])

/-- What a phrase does when the one it waits for has been read, which was entered at `start`. -/
def resume (start k entry : Cursor) : {p q : Phrase} → Frame p q → p.Tree → Stack q → Progress
  | _, _, .callee name, args, outer => ascend entry outer (.call name args) k
  | _, _, .arguments, args, outer => expectSymbol ts ')' k (closeLevel entry outer args)
  | _, _, .item done, e, outer =>
    if peek ts k = .symbol ',' then descend entry outer (.item (done ++ [e])) (bump ts k)
    else ascend entry outer (done ++ [e]) k
  | _, _, .value binding name, e, outer => ascend entry outer (.decl binding name e) k
  | _, _, .command, args, outer => ascend entry outer (.run args) k
  | _, _, .condition, cond, outer => descend entry outer (.branch cond) k
  | _, _, .branch cond, body, outer => ascend entry outer (.ifThen cond body) k
  | _, _, .iterable name, e, outer => descend entry outer (.loop name e) k
  | _, _, .loop name e, body, outer => ascend entry outer (.forIn name e body) k
  | _, _, .stages, commands, outer => ascend entry outer (.pipe commands) k
  | _, _, .alone, e, outer => match Stmt.ofExpr e with
    | .ok s => ascend entry outer s k
    | .error cause => fail ts cause start
  | _, _, .inBlock done, s, outer =>
    nextStmt ts entry outer (.inBlock (done ++ [s])) (done ++ [s]) k
  | _, _, .inPipe done, s, outer => match s.invocation with
    | .ok c => nextStmt ts entry outer (.inPipe (done ++ [c])) (done ++ [c]) k
    | .error cause => fail ts cause start

/-! ## Steps and runs -/

def step : State → Progress
  | ⟨k, .between done⟩ => match peek ts k with
    | .eof => .halted (.ok done)
    | .symbol _ => .running ⟨bump ts k, .between done⟩
    | _ => .running ⟨k, .enter .stmt (.program done)⟩
  | ⟨k, .enter p stack⟩ => enter ts k p stack
  | ⟨k, .leave _ _ s (.program done)⟩ => .running ⟨k, .between (done ++ [s])⟩
  | ⟨k, .leave _ start tree (.push frame entry outer)⟩ =>
    resume ts start k entry frame tree outer

/-- So many steps from the start, or fewer if the machine halts. -/
def run : Nat → Progress
  | 0 => .running .start
  | n + 1 => match run n with
    | .running s => step ts s
    | stopped => stopped

end Shellwright.Descent
