import Shellwright.Stmt.Parser
import Shellwright.Token.Stream

/-!
# Reading programs

Between the statements of a program any symbols may stand; they mean nothing. Inside a block they
may not.
-/
namespace Shellwright

open Token (Kind)

namespace Program

/-- A statement of a program. -/
def statement : Parser Stmt := Stmt.parser maxNesting

/-- The statements of a whole input. -/
def ofKinds (ks : List Kind) : Except Failure Program :=
  match ks with
  | [] => .ok []
  | .symbol _ :: rest => ofKinds rest
  | k :: rest => match _h : statement.run (k :: rest) with
    | .error e => .error e
    | .ok (s, rest) => match ofKinds rest with
      | .error e => .error e
      | .ok ss => .ok (s :: ss)
termination_by ks.length
decreasing_by
  · simp
  · exact (statement.consumes ‹_›).2

/-- A failure is placed at the token it blames, found by how many tokens are left from there on. -/
def ofStream (s : Token.Stream) : Except SyntaxError Program :=
  (ofKinds s.kinds).mapError fun e =>
    ⟨e.cause, s.positionAt (s.kinds.length - e.rest.length)⟩

def ofTokens (ts : List Token) : Except SyntaxError Program := ofStream (.ofList ts)

end Program

end Shellwright
