import Shellwright.Proofs.Parser.Failure
import Shellwright.Proofs.Parser.Refusal

/-!
# The end of the input as a token

Behind the last token a parser sees the end of the input. A token that says so is seen in the same
way: no parser takes it, so what stands behind it is never looked at. Every combinator keeps this.

## Main definitions

* `Parser.extend`: an outcome with more tokens behind what is left.
* `Parser.Bounded`: an end of input among the tokens ends what the parser reads.
-/
namespace Shellwright

open Token (Kind)

/-- What comes next is the same before the end of the tokens and before an end of input. -/
@[simp] theorem Token.next_append_eof (ks us : List Kind) :
    Token.next (ks ++ .eof :: us) = Token.next ks := by
  cases ks <;> rfl

namespace Parser

variable {α β : Type} {p : Parser α} {ks : List Kind}

/-- The same outcome with `ls` behind the tokens that are left. -/
def extend (ls : List Kind) : Except Failure (α × List Kind) → Except Failure (α × List Kind)
  | .ok (a, rest) => .ok (a, rest ++ ls)
  | .error e => .error ⟨e.cause, e.rest ++ ls⟩

/-- An end of input behind `ks` ends the reading as the end of the tokens does. -/
def BoundedOn (p : Parser α) (ks : List Kind) : Prop :=
  ∀ us, p.run (ks ++ .eof :: us) = extend (.eof :: us) (p.run ks)

def Bounded (p : Parser α) : Prop := ∀ ks, p.BoundedOn ks

/-! ## Single tokens -/

theorem Bounded.fail (cause : Kind → SyntaxError.Cause) : (fail cause : Parser α).Bounded := by
  intro ks us
  rw [run_fail, run_fail, Token.next_append_eof]
  rfl

theorem Bounded.token {what : Expectation} {f : Kind → Option α} (h : f .eof = none) :
    (token what f).Bounded := by
  intro ks us
  cases ks with
  | nil =>
    rw [List.nil_append, run_token_cons, h]
    rfl
  | cons k ks =>
    rw [List.cons_append, run_token_cons, run_token_cons]
    cases f k <;> rfl

theorem symbol_bounded (c : Char) : (symbol c).Bounded := .token (by simp)

theorem keyword_bounded (w : Keyword) : (keyword w).Bounded := .token (by simp)

theorem identifier_bounded : identifier.Bounded := .token rfl

/-- Where a token is known to come next, taking it needs no end to stop at. -/
theorem skip_boundedOn (a : α) {k : Kind} (h : Token.next ks = k) (hk : k ≠ .eof) :
    (skip a).BoundedOn ks := by
  obtain ⟨ls, rfl⟩ := Token.exists_cons_of_next h hk
  intro us
  rfl

/-! ## Sequencing -/

theorem Bounded.map (h : p.Bounded) (f : α → β) : (f <$> p).Bounded := by
  intro ks us
  rw [run_map, run_map, h ks us]
  cases p.run ks <;> rfl

theorem Bounded.bind {q : α → Parser β} (h : p.Bounded) (hq : ∀ a, (q a).Bounded) :
    (p >>= q).Bounded := by
  intro ks us
  rw [run_bind, run_bind, h ks us]
  cases p.run ks with
  | error e => rfl
  | ok r => exact hq r.1 r.2 us

theorem Bounded.seqRight {q : Parser β} (h : p.Bounded) (hq : q.Bounded) : (p *> q).Bounded :=
  h.bind fun _ => hq

theorem Bounded.seqLeft {q : Parser β} (h : p.Bounded) (hq : q.Bounded) : (p <* q).Bounded :=
  h.bind fun _ => hq.map _

/-! ## Lookahead and refusal -/

theorem Bounded.peek {f : Kind → Parser α} (h : ∀ ks, (f (Token.next ks)).BoundedOn ks) :
    (peek f).Bounded := by
  intro ks us
  rw [run_peek, run_peek, Token.next_append_eof]
  exact h ks us

theorem BoundedOn.thenIf {k : Kind} {q : α → Parser α} (h : p.BoundedOn ks)
    (hq : ∀ a, (q a).Bounded) : (p.thenIf k q).BoundedOn ks := by
  intro us
  cases hp : p.run ks with
  | error e => simp [Parser.thenIf, h us, hp, extend]
  | ok r =>
    obtain ⟨a, rest⟩ := r
    have hrest := hq a rest us
    by_cases hk : Token.next rest = k <;> simp [Parser.thenIf, h us, hp, extend, hk, hrest]

theorem Bounded.require {f : α → Except SyntaxError.Cause β} (h : p.Bounded) :
    (p.require f).Bounded := by
  intro ks us
  cases hp : p.run ks with
  | error e => simp [Parser.require, h ks us, hp, extend]
  | ok r =>
    obtain ⟨a, rest⟩ := r
    cases hf : f a <;> simp [Parser.require, h ks us, hp, extend, hf]

/-! ## Repetition -/

theorem Bounded.commaList (h : p.Bounded) : p.commaList.Bounded := by
  intro ks us
  change runCommaList p (ks ++ _) = extend _ (runCommaList p ks)
  have hrun {ls : List Kind} {r} (hp : p.run ls = r) :
      p.run (ls ++ .eof :: us) = extend (.eof :: us) r := hp ▸ h ls us
  fun_induction runCommaList p ks with
  | case1 ks e hp => exact runCommaList_eq_error.2 (.inl (hrun hp))
  | case2 ks a mid hp e hm ih =>
    rw [hm] at ih
    exact runCommaList_eq_error.2 (.inr ⟨a, _, hrun hp, ih⟩)
  | case3 ks a mid hp as rest hm ih =>
    rw [hm] at ih
    exact runCommaList_cons (hrun hp) ih
  | case4 ks a rest hcomma hp =>
    refine runCommaList_single (hrun hp) fun hnext => ?_
    rw [Token.next_append_eof] at hnext
    obtain ⟨mid, rfl⟩ := Token.exists_cons_of_next hnext (by simp)
    exact hcomma mid rfl

theorem Bounded.untilClose (h : p.Bounded) (c : Char) : (p.untilClose c).Bounded := by
  intro ks us
  change runUntilClose c p (ks ++ _) = extend _ (runUntilClose c p ks)
  have hrun {ls : List Kind} {r} (hp : p.run ls = r) :
      p.run (ls ++ .eof :: us) = extend (.eof :: us) r := hp ▸ h ls us
  fun_induction runUntilClose c p ks with
  | case1 ks hk =>
    obtain ⟨ls, rfl⟩ := Token.exists_cons_of_next hk (by simp)
    rw [runUntilClose, if_pos (by simp)]
    rfl
  | case2 ks hk e hp =>
    exact runUntilClose_eq_error.2 ⟨by simpa using hk, .inl (hrun hp)⟩
  | case3 ks hk a mid hp e hm ih =>
    rw [hm] at ih
    exact runUntilClose_eq_error.2 ⟨by simpa using hk, .inr ⟨a, _, hrun hp, ih⟩⟩
  | case4 ks hk a mid hp as rest hm ih =>
    rw [hm] at ih
    exact runUntilClose_cons (by simpa using hk) (hrun hp) ih

end Parser

end Shellwright
