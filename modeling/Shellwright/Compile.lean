import Shellwright.Program
import Shellwright.Script.Lowering
import Shellwright.Token.Scan

/-!
# Compiling a source text

A source is cut into tokens, read as a program and lowered to a script; the first stage that fails
gives the error. Each stage that succeeds leaves an event.

## Main statements

* `trace_result`: watching a compilation does not change it.
-/
namespace Shellwright

inductive Stage where
  | lex
  | parse
  | emit
deriving DecidableEq

def Stage.name : Stage → String
  | lex => "lex"
  | parse => "parse"
  | emit => "emit"

inductive CompileError where
  | lex (error : LexError)
  | parse (error : SyntaxError)
  | emit (fault : Fault)
deriving DecidableEq

namespace CompileError

def stage : CompileError → Stage
  | lex _ => .lex
  | parse _ => .parse
  | emit _ => .emit

/-- Where the error shows; a fault is not tied to a place. -/
def position? : CompileError → Option Position
  | lex e => some e.position
  | parse e => some e.position
  | emit _ => none

/-- The message without its place. -/
def short : CompileError → String
  | lex e => e.short
  | parse e => e.short
  | emit f => f.message

/-- The message with its place as a phrase at the end. -/
def message : CompileError → String
  | lex e => e.message
  | parse e => e.message
  | emit f => f.message

/-- The message behind its place, if it has one. -/
def diagnostic (e : CompileError) : String :=
  match e.position? with
  | some p => p.text ++ " → " ++ e.short
  | none => e.short

end CompileError

/-- The script of a source text. -/
def compile (source : String) : Except CompileError String := do
  let tokens ← (Token.tokenize source).mapError .lex
  let program ← (Program.ofTokens tokens).mapError .parse
  program.emit.mapError .emit

/-- What a compilation reports while it goes on. -/
inductive Event where
  /-- Begun on a source of so many bytes. -/
  | begun (bytes : Nat)
  /-- Cut into so many tokens, the end of the input among them. -/
  | lexed (tokens : Nat)
  /-- Read as so many statements. -/
  | parsed (statements : Nat)
  /-- Lowered to a script of so many bytes. -/
  | emitted (bytes : Nat)
deriving DecidableEq

/-- A compilation with its events. -/
def trace (source : String) : List Event × Except CompileError String :=
  let begun := Event.begun source.utf8ByteSize
  match Token.tokenize source with
  | .error e => ([begun], .error (.lex e))
  | .ok tokens =>
    let lexed := Event.lexed tokens.length
    match Program.ofTokens tokens with
    | .error e => ([begun, lexed], .error (.parse e))
    | .ok program =>
      let parsed := Event.parsed program.length
      match program.emit with
      | .error f => ([begun, lexed, parsed], .error (.emit f))
      | .ok script => ([begun, lexed, parsed, .emitted script.utf8ByteSize], .ok script)

@[simp] theorem trace_result (source : String) : (trace source).2 = compile source := by
  unfold trace compile
  cases Token.tokenize source with
  | error e => rfl
  | ok tokens =>
    change _ = (Program.ofTokens tokens).mapError CompileError.parse >>= fun p =>
      p.emit.mapError .emit
    dsimp only
    cases Program.ofTokens tokens with
    | error e => rfl
    | ok program =>
      change _ = program.emit.mapError CompileError.emit
      dsimp only
      cases program.emit <;> rfl

end Shellwright
