import Shellwright.Token

/-!
# Token streams

Reading stops at the first end-of-input token, and what follows it is never looked at. A list
without such a token ends behind its last one, and that end is placed where the last token stands.
-/
namespace Shellwright.Token

/-- The tokens to be read, none of them the end of the input, and where that end is. -/
structure Stream where
  tokens : List Token
  stop : Position
deriving DecidableEq

namespace Stream

/-- A list cut at its first end of input. -/
def ofList (ts : List Token) : Stream where
  tokens := ts.takeWhile (·.kind ≠ .eof)
  stop := match ts.dropWhile (·.kind ≠ .eof) with
    | t :: _ => t.position
    | [] => (ts.getLast?.map (·.position)).getD .start

def kinds (s : Stream) : List Kind := s.tokens.map (·.kind)

/-- Where the token with index `i` stands; past the last one, where the input ends. -/
def positionAt (s : Stream) (i : Nat) : Position :=
  (s.tokens[i]?.map (·.position)).getD s.stop

theorem kinds_ofList (ts : List Token) :
    (ofList ts).kinds = (ts.map (·.kind)).takeWhile (· ≠ .eof) := by
  simp only [kinds, ofList, List.takeWhile_map]
  rfl

theorem eof_notMem_kinds_ofList (ts : List Token) : Kind.eof ∉ (ofList ts).kinds := by
  simp only [kinds, ofList, List.mem_map, not_exists, not_and]
  intro t ht
  simpa using List.all_eq_true.1 List.all_takeWhile t ht

end Stream

end Shellwright.Token
