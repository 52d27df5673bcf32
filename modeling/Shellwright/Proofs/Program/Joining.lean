import Shellwright.Proofs.Program.Reading
import Shellwright.Proofs.Token.Joining

/-!
# Reading joined token lists

A program is read in the same way wherever its tokens stand, and tokens behind a program are read as
if they stood alone, provided that they do not go on with it.

## Main definitions

* `SyntaxError.down`: the same error some lines further down.

## Main statements

* `Program.ofTokens_down`: reading further down gives the same, with errors further down.
* `Program.ofTokens_append`: tokens behind a program, with the same errors in the same places.
-/
namespace Shellwright

open Token (Kind Stream)

def SyntaxError.down (n : Nat) (e : SyntaxError) : SyntaxError := ⟨e.cause, e.position.down n⟩

namespace Token.Stream

/-- The same stream `n` lines further down. -/
def down (n : Nat) (s : Stream) : Stream := ⟨s.tokens.map (Token.down n), s.stop.down n⟩

theorem ofList_map_down (n : Nat) {ts : List Token} (h : ts ≠ []) :
    ofList (ts.map (Token.down n)) = (ofList ts).down n := by
  have hkind : (fun t : Token => decide (t.kind ≠ .eof)) ∘ Token.down n =
      fun t => decide (t.kind ≠ .eof) := rfl
  simp only [ofList, down, List.takeWhile_map, List.dropWhile_map, hkind, List.getLast?_map]
  congr 1
  cases ts.dropWhile (fun t => decide (t.kind ≠ .eof)) with
  | cons t _ => rfl
  | nil => simp [List.getLast?_eq_some_getLast h, Token.down]

theorem positionAt_down (n : Nat) (s : Stream) (i : Nat) :
    (s.down n).positionAt i = (s.positionAt i).down n := by
  cases h : s.tokens[i]? <;> simp [positionAt, down, h, Token.down]

@[simp] theorem kinds_down (n : Nat) (s : Stream) : (s.down n).kinds = s.kinds := by
  simp [kinds, down]

theorem ofList_append {ts us : List Token} (hts : ∀ t ∈ ts, t.kind ≠ .eof) (hus : us ≠ []) :
    ofList (ts ++ us) = ⟨ts ++ (ofList us).tokens, (ofList us).stop⟩ := by
  have hall : ∀ t ∈ ts, decide (t.kind ≠ .eof) = true := by simpa using hts
  simp only [ofList, List.takeWhile_append_of_pos hall, List.dropWhile_append_of_pos hall,
    List.getLast?_append_of_ne_nil _ hus]

/-- Counted from the end, a token stands in the same place. -/
theorem positionAt_append (ts : List Token) {s : Stream} {n : Nat} (h : n ≤ s.tokens.length) :
    (Stream.mk (ts ++ s.tokens) s.stop).positionAt ((ts ++ s.tokens).length - n) =
      s.positionAt (s.tokens.length - n) := by
  have hindex : (ts ++ s.tokens).length - n = ts.length + (s.tokens.length - n) := by
    rw [List.length_append]
    omega
  rw [positionAt, positionAt, hindex, List.getElem?_append_right (by omega),
    Nat.add_sub_cancel_left]

end Token.Stream

namespace Program

theorem ofKinds_suffix {ks : List Kind} {e : Failure} (h : ofKinds ks = .error e) :
    e.rest <:+ ks := by
  fun_induction ofKinds ks generalizing e with
  | case1 => cases h
  | case2 c rest ih => exact (ih h).trans (List.suffix_cons _ _)
  | case3 k rest hk e' hs =>
    cases h
    exact statement.blames hs
  | case4 k rest hk s mid hs e' hm ih =>
    cases h
    exact (ih hm).trans (statement.consumes hs).1
  | case5 => cases h

theorem ofTokens_down (n : Nat) {ts : List Token} (h : ts ≠ []) :
    ofTokens (ts.map (Token.down n)) = (ofTokens ts).mapError (SyntaxError.down n) := by
  rw [ofTokens, ofTokens, Stream.ofList_map_down n h, ofStream, ofStream, Stream.kinds_down]
  cases ofKinds (Stream.ofList ts).kinds with
  | ok p => rfl
  | error e => simp [SyntaxError.down, Stream.positionAt_down]

theorem ofTokens_append {ts us : List Token} {p : Program} {stop : Position}
    (hts : ∀ t ∈ ts, t.kind ≠ .eof) (h : ofTokens (ts ++ [⟨.eof, stop⟩]) = .ok p) (hus : us ≠ [])
    (hnext : ∀ s : Stmt, s.EndsAt (Token.next (Stream.ofList us).kinds)) :
    ofTokens (ts ++ us) = (ofTokens us).map (p ++ ·) := by
  have hp : ofKinds (ts.map (·.kind)) = .ok p := by
    rw [ofTokens, ofStream, Except.mapError_eq_ok, Stream.ofList_append hts (by simp)] at h
    simpa [Stream.kinds, Stream.ofList] using h
  rw [ofTokens, ofTokens, Stream.ofList_append hts hus]
  generalize Stream.ofList us = s at hnext
  have hkinds : (Stream.mk (ts ++ s.tokens) s.stop).kinds = ts.map (·.kind) ++ s.kinds := by
    simp [Stream.kinds]
  rw [ofStream, ofStream, hkinds, ofKinds_append hp hnext]
  cases hs : ofKinds s.kinds with
  | ok q => rfl
  | error e =>
    have hle : e.rest.length ≤ s.tokens.length := by
      simpa [Stream.kinds] using (ofKinds_suffix hs).length_le
    have hpos := Stream.positionAt_append ts hle
    simp only [Stream.kinds, ← List.map_append, List.length_map] at hpos ⊢
    simp [Except.map, ← hpos]

end Program

end Shellwright
