import Shellwright.Proofs.Parser.Failure

/-!
# What is said of a blamed token

A failure has a cause and a place, and they are found apart: the cause at once or after a whole
phrase has been read, the place by counting what is left. A failure is truthful if its cause speaks
of the token at its place. Every combinator keeps this.

## Main definitions

* `SyntaxError.Cause.Fits`: what a cause says of the blamed token and of the one behind it.
* `Parser.Truthful`: the parser blames tokens that its causes fit.
-/
namespace Shellwright

open Token (Kind)

/-- The token is the one that is asked for. -/
def Expectation.MetBy : Expectation → Kind → Prop
  | symbol char, k => k = .symbol char
  | keyword word, k => k = .keyword word
  | identifier, k => ∃ name, k = .ident name

/-- The cause agrees with the token `k` that is blamed and with the one that comes `after` it. What
was found is `k`; a statement that is refused as a whole begins with `k`, and a name that begins it
is the name of a call exactly if a parenthesis comes after it. -/
def SyntaxError.Cause.Fits (k after : Kind) : SyntaxError.Cause → Prop
  | expected what found => found = k ∧ ¬ what.MetBy k
  | expectedExpression found => found = k
  | unexpectedToken found => found = k
  | unknownKeyword word => word = .in_ ∧ k = .keyword .in_
  | invalidStatement text => k = .ident text ∧ after ≠ .symbol '('
  | nonRunInPipe construct =>
    (∃ word, k = .keyword word ∧ word ≠ .run ∧ construct = word.text) ∨
      (∃ name, k = .ident name ∧ after = .symbol '(' ∧ construct = "expression statement")
  | nestingTooDeep => True

/-- The cause agrees with the tokens that begin with the blamed one. -/
def Failure.Truthful (e : Failure) : Prop :=
  e.cause.Fits (Token.next e.rest) (Token.next e.rest.tail)

namespace Parser

variable {α β : Type} {p : Parser α}

def Truthful (p : Parser α) : Prop := ∀ ks e, p.run ks = .error e → e.Truthful

theorem Truthful.fail {cause : Kind → SyntaxError.Cause} (h : ∀ k after, (cause k).Fits k after) :
    (fail cause : Parser α).Truthful := by
  rintro ks _ ⟨⟩
  exact h _ _

theorem Truthful.skip (a : α) : (skip a).Truthful := by
  intro ks e h
  cases ks <;> cases h
  rfl

theorem Truthful.token {what : Expectation} {f : Kind → Option α} (heof : ¬ what.MetBy .eof)
    (hf : ∀ k, f k = none → ¬ what.MetBy k) : (token what f).Truthful := by
  intro ks e h
  cases ks with
  | nil =>
    cases h
    exact ⟨rfl, heof⟩
  | cons k ks =>
    rw [run_token_cons] at h
    split at h
    · cases h
    · cases h
      exact ⟨rfl, hf k ‹_›⟩

theorem symbol_truthful (c : Char) : (symbol c).Truthful :=
  .token (by simp [Expectation.MetBy]) (by simp [Expectation.MetBy])

theorem keyword_truthful (w : Keyword) : (keyword w).Truthful :=
  .token (by simp [Expectation.MetBy]) (by simp [Expectation.MetBy])

theorem identifier_truthful : identifier.Truthful := by
  refine .token (by simp [Expectation.MetBy]) fun k hk => ?_
  rintro ⟨name, rfl⟩
  cases hk

theorem Truthful.map (h : p.Truthful) (f : α → β) : (f <$> p).Truthful :=
  fun _ _ herror => h _ _ (run_map_eq_error.1 herror)

theorem Truthful.bind {q : α → Parser β} (h : p.Truthful) (hq : ∀ a, (q a).Truthful) :
    (p >>= q).Truthful := by
  intro ks e herror
  obtain hp | ⟨a, mid, -, hrest⟩ := run_bind_eq_error.1 herror
  · exact h _ _ hp
  · exact hq a _ _ hrest

theorem Truthful.seqRight {q : Parser β} (h : p.Truthful) (hq : q.Truthful) :
    (p *> q).Truthful := h.bind fun _ => hq

theorem Truthful.seqLeft {q : Parser β} (h : p.Truthful) (hq : q.Truthful) :
    (p <* q).Truthful := h.bind fun _ => hq.map _

theorem Truthful.thenIf {k : Kind} {q : α → Parser α} (h : p.Truthful)
    (hq : ∀ a, (q a).Truthful) : (p.thenIf k q).Truthful := by
  intro ks e herror
  obtain hp | ⟨a, mid, -, -, hrest⟩ := run_thenIf_eq_error.1 herror
  · exact h _ _ hp
  · exact hq a _ _ hrest

theorem Truthful.commaList (h : p.Truthful) : p.commaList.Truthful := by
  intro ks e herror
  change runCommaList p ks = .error e at herror
  fun_induction runCommaList p ks with
  | case1 ks d hp =>
    cases herror
    exact h _ _ hp
  | case2 ks a mid hp d hm ih =>
    cases herror
    exact ih hm
  | case3 => cases herror
  | case4 => cases herror

theorem Truthful.untilClose (h : p.Truthful) (c : Char) : (p.untilClose c).Truthful := by
  intro ks e herror
  change runUntilClose c p ks = .error e at herror
  fun_induction runUntilClose c p ks with
  | case1 => cases herror
  | case2 ks hk d hp =>
    cases herror
    exact h _ _ hp
  | case3 ks hk a mid hp d hm ih =>
    cases herror
    exact ih hm
  | case4 => cases herror

end Parser

end Shellwright
