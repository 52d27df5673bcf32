import Shellwright.Text.Utf8

/-!
# Hosts

What the command line needs from the system it runs on: reading a file, writing one, and starting a
program. A host is given by these three operations on a state of its own; nothing else changes it.
Why it refuses an operation is for the host to say, and a write that fails may have begun.
-/
namespace Shellwright.Cli

open Text (Bytes)

/-- Why the system refuses an operation, in its own words. -/
structure Refusal where
  text : String
deriving DecidableEq

/-- How a program ends. -/
inductive Ending where
  | exited (code : UInt8)
  | signalled
deriving DecidableEq

/-- What a program leaves behind. -/
structure Finished (σ : Type) where
  stdout : Bytes
  stderr : Bytes
  ending : Ending
  state : σ

/-- A system with states `σ`. A write leaves a state whether or not it is refused. -/
structure Host (σ : Type) where
  read : σ → (path : String) → Except Refusal String
  write : σ → (path : String) → (content : String) → σ × Except Refusal Unit
  launch : σ → (program : String) → (args : List String) → Except Refusal (Finished σ)

end Shellwright.Cli
