import Shellwright.Proofs.Descent.Machine
import Shellwright.Proofs.Parser.Refusal

/-!
# Cursors and the tokens they leave

A cursor is an index into a list that may hold ends of input. As long as it is not behind the first
of them, it sees what a parser sees that is given the tokens from there on, and errors are placed
alike.

## Main definitions

* `rest`: the tokens that are left at a cursor.
* `Within`: the cursor has not gone past an end of input.

## Main statements

* `peek_eq_next`, `place_eq_positionAt`: the next token and its place.
* `bump_of_peek`: going past a token.
-/
namespace Shellwright.Descent

open Token (Kind Stream)

variable {ts : List Token} {k : Cursor}

/-- The tokens that are left, as far as the first end of input. -/
def rest (ts : List Token) (k : Cursor) : List Kind := (Stream.ofList ts).kinds.drop k.pos

def Within (ts : List Token) (k : Cursor) : Prop := k.pos ≤ (Stream.ofList ts).kinds.length

theorem length_kinds_le (ts : List Token) : (Stream.ofList ts).kinds.length ≤ ts.length := by
  rw [Stream.kinds, List.length_map]
  exact (List.takeWhile_prefix _).length_le

/-- What the cursor points at is a token to be read or the end of the input, if there is one. -/
theorem getElem?_of_within (h : Within ts k) : ∃ stop : Option Token,
    ts[k.pos]? = (Stream.ofList ts).tokens[k.pos]?.or stop ∧ (∀ t ∈ stop, t.kind = .eof) ∧
      (Stream.ofList ts).stop =
        (stop.map (·.position)).getD ((ts.getLast?.map (·.position)).getD .start) := by
  rw [Within, Stream.kinds, List.length_map] at h
  have happend : ts = (Stream.ofList ts).tokens ++ ts.dropWhile (·.kind ≠ .eof) :=
    List.takeWhile_append_dropWhile.symm
  refine ⟨(ts.dropWhile (·.kind ≠ .eof)).head?, ?_, ?_, ?_⟩
  · conv_lhs => rw [happend]
    rcases Nat.lt_or_eq_of_le h with hlt | heq
    · rw [List.getElem?_append_left hlt, List.getElem?_eq_getElem hlt]
      rfl
    · rw [List.getElem?_append_right (Nat.le_of_eq heq.symm), heq, Nat.sub_self,
        List.getElem?_eq_none (Nat.le_refl _), List.head?_eq_getElem?]
      rfl
  · intro t ht
    have hnot := List.head?_dropWhile_not (fun t : Token => decide (t.kind ≠ .eof)) ts
    rw [Option.mem_def.1 ht] at hnot
    simpa using hnot
  · simp only [Stream.ofList]
    split <;> rename_i heq <;> rw [heq] <;> rfl

theorem peek_eq_next (h : Within ts k) : peek ts k = Token.next (rest ts k) := by
  obtain ⟨stop, hget, hstop, -⟩ := getElem?_of_within h
  rw [peek, hget, Token.next, rest, Stream.kinds, List.headD_eq_head?_getD, List.head?_drop,
    List.getElem?_map]
  cases (Stream.ofList ts).tokens[k.pos]? with
  | some t => rfl
  | none =>
    cases stop with
    | none => rfl
    | some t => exact hstop t rfl

theorem place_eq_positionAt (h : Within ts k) :
    place ts k = (Stream.ofList ts).positionAt k.pos := by
  obtain ⟨stop, hget, -, hstop⟩ := getElem?_of_within h
  rw [place, hget, Stream.positionAt, hstop]
  cases (Stream.ofList ts).tokens[k.pos]? <;> rfl

@[simp] theorem depth_bump (ts : List Token) (k : Cursor) : (bump ts k).depth = k.depth := by
  unfold bump
  split <;> rfl

/-- Before the end of the input, going past a token takes it from those that are left. -/
theorem bump_of_peek (h : Within ts k) (hk : peek ts k ≠ .eof) :
    Within ts (bump ts k) ∧ (bump ts k).pos = k.pos + 1 ∧
      rest ts k = peek ts k :: rest ts (bump ts k) := by
  obtain ⟨ls, hls⟩ := Token.exists_cons_of_next (peek_eq_next h).symm hk
  have hlt : k.pos < (Stream.ofList ts).kinds.length := by
    by_contra hge
    rw [rest, List.drop_eq_nil_of_le (by omega)] at hls
    cases hls
  have hpos : (bump ts k).pos = k.pos + 1 := by
    rw [bump, if_pos (Nat.lt_of_lt_of_le hlt (length_kinds_le ts))]
  have htail : ls = rest ts (bump ts k) := by
    rw [rest, hpos, ← List.tail_drop]
    exact (congrArg List.tail hls).symm
  refine ⟨?_, hpos, ?_⟩
  · rw [Within, hpos]
    exact hlt
  · rw [hls, htail]

end Shellwright.Descent
