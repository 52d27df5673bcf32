import Shellwright.Proofs.Parser.Failure
import Shellwright.Proofs.Token.Level

/-!
# Where parsers find a level too many

A parser may be given any tokens, also such as are no phrase. If it finds that there is no level
left, the tokens it has taken open just as many levels more than they close as there were left for
it. The combinators keep this, and with it whatever is known of the last tokens taken.

## Main definitions

* `Token.Rises`: tokens that open so many levels more than they close.
* `Parser.Takes`: how many levels the phrases of a parser open more than they close.
* `Parser.Crosses`: what is known of the tokens before a level too many.
* `Parser.Shallow`: a parser that never finds one.

## Main statements

* `Parser.Crosses.after`, `Parser.Crosses.commaList`, `Parser.Crosses.untilClose`: parsers made of
  others.
-/
namespace Shellwright

open Token (Kind)

namespace Token

/-- The tokens have `n` openers more than closers. -/
def Rises (n : Nat) (x : List Kind) : Prop := x.countP Kind.opens = x.countP Kind.closes + n

instance (n : Nat) : DecidablePred (Rises n) := fun x =>
  inferInstanceAs (Decidable (x.countP Kind.opens = x.countP Kind.closes + n))

variable {m n : Nat} {k : Kind} {x y : List Kind}

theorem Rises.append (hx : Rises m x) (hy : Rises n y) : Rises (n + m) (x ++ y) := by
  unfold Rises at *
  rw [List.countP_append, List.countP_append]
  omega

theorem Rises.neutral (h : Rises n x) (hopens : k.opens = false) (hcloses : k.closes = false) :
    Rises n (k :: x) := by
  simpa [Rises, hopens, hcloses] using h

theorem Rises.opener (h : Rises n x) (hopens : k.opens = true) (hcloses : k.closes = false) :
    Rises (n + 1) (k :: x) := by
  unfold Rises at *
  simp [hopens, hcloses, h]
  omega

/-- A closer behind tokens ends one of the levels they have opened. -/
theorem Rises.closer (h : Rises (n + 1) x) (hopens : k.opens = false) (hcloses : k.closes = true) :
    Rises n (x ++ [k]) := by
  unfold Rises at *
  simp [hopens, hcloses, h]
  omega

end Token

open Token (Rises)

namespace Parser

variable {α β : Type} {p : Parser α} {m n : Nat} {P Q : List Kind → Kind → Prop}

/-- The tokens of a phrase open `n` levels more than they close. -/
def Takes (p : Parser α) (n : Nat) : Prop :=
  ∀ ⦃ks a rest⦄, p.run ks = .ok (a, rest) → ∃ x, ks = x ++ rest ∧ Rises n x

/-- If the parser finds a level too many, it has taken tokens that open `n` levels more than they
close, and `P` holds of them and of the token it stands before. -/
def Crosses (p : Parser α) (n : Nat) (P : List Kind → Kind → Prop) : Prop :=
  ∀ ⦃ks rest⦄, p.run ks = .error ⟨.nestingTooDeep, rest⟩ →
    ∃ x, ks = x ++ rest ∧ Rises n x ∧ P x (Token.next rest)

theorem Reads.takes {good : α → Prop} {tokens : α → List Kind} {ends : α → Kind → Prop}
    (h : p.Reads good tokens ends) (htokens : ∀ a, Rises n (tokens a)) : p.Takes n := by
  intro ks a rest hok
  obtain ⟨-, hks, -⟩ := (h _ _ _).1 hok
  exact ⟨tokens a, hks, htokens a⟩

theorem keyword_takes (w : Keyword) : (keyword w).Takes 0 := by
  intro ks a rest hok
  exact ⟨[.keyword w], run_keyword_eq_ok.1 hok, rfl⟩

theorem identifier_takes : identifier.Takes 0 := by
  intro ks name rest hok
  exact ⟨[.ident name], run_identifier_eq_ok.1 hok, rfl⟩

theorem symbol_takes (c : Char) (h : Rises n [.symbol c]) : (symbol c).Takes n := by
  intro ks a rest hok
  exact ⟨[.symbol c], run_symbol_eq_ok.1 hok, h⟩

theorem Takes.seqRight {q : Parser β} (h : p.Takes m) (hq : q.Takes n) :
    (p *> q).Takes (n + m) := by
  intro ks b rest hok
  obtain ⟨a, mid, hp, hrest⟩ := run_seqRight_eq_ok.1 hok
  obtain ⟨x, rfl, hx⟩ := h hp
  obtain ⟨y, rfl, hy⟩ := hq hrest
  exact ⟨x ++ y, by rw [List.append_assoc], hx.append hy⟩

/-! ## Parsers that open no level -/

/-- The parser never finds a level too many. -/
def Shallow (p : Parser α) : Prop := ∀ ks rest, p.run ks ≠ .error ⟨.nestingTooDeep, rest⟩

theorem Shallow.seqRight {q : Parser β} (h : p.Shallow) (hq : q.Shallow) : (p *> q).Shallow := by
  intro ks rest herror
  obtain hp | ⟨a, mid, -, hrest⟩ := run_seqRight_eq_error.1 herror
  · exact h _ _ hp
  · exact hq _ _ hrest

/-- A token that is missing is no level too many. -/
theorem token_shallow (what : Expectation) (f : Kind → Option α) : (token what f).Shallow := by
  intro ks rest herror
  cases ks with
  | nil => cases herror
  | cons k ks =>
    rw [run_token_cons] at herror
    cases hk : f k <;> simp [hk] at herror

theorem skip_shallow (a : α) : (skip a).Shallow := by
  intro ks rest herror
  cases ks <;> cases herror

/-! ## One parser -/

theorem Crosses.mono (h : p.Crosses n P) (hPQ : ∀ x k, P x k → Q x k) : p.Crosses n Q := by
  intro ks rest herror
  obtain ⟨x, hks, hx, hP⟩ := h herror
  exact ⟨x, hks, hx, hPQ x _ hP⟩

/-- Where no level is left at all, nothing is taken. -/
theorem fail_crosses (h : ∀ k, P [] k) :
    (fail fun _ => .nestingTooDeep : Parser α).Crosses 0 P := by
  intro ks rest herror
  cases herror
  exact ⟨[], rfl, rfl, h _⟩

theorem Crosses.map (h : p.Crosses n P) (f : α → β) : (f <$> p).Crosses n P :=
  fun _ _ herror => h (run_map_eq_error.1 herror)

theorem Crosses.require {f : α → Except SyntaxError.Cause β} (h : p.Crosses n P)
    (hf : ∀ a, f a ≠ .error .nestingTooDeep) : (p.require f).Crosses n P := by
  intro ks rest herror
  obtain hp | ⟨a, mid, cause, -, hcause, heq⟩ := run_require_eq_error.1 herror
  · exact h hp
  · cases heq
    exact absurd hcause (hf a)

theorem Crosses.seqLeft {q : Parser β} (h : p.Crosses n P) (hq : q.Shallow) :
    (p <* q).Crosses n P := by
  intro ks rest herror
  obtain hp | ⟨a, mid, -, hrest⟩ := run_seqLeft_eq_error.1 herror
  · exact h hp
  · exact absurd hrest (hq _ _)

/-! ## Several parsers -/

section Sequences

variable (hP : ∀ {x k} y, P x k → P (y ++ x) k)
include hP

theorem Crosses.after {q : α → Parser β} (hq : ∀ a, (q a).Crosses n P) (hp : p.Shallow)
    (htakes : p.Takes m) : (p >>= q).Crosses (n + m) P := by
  intro ks rest herror
  obtain hfail | ⟨a, mid, hok, hrest⟩ := run_bind_eq_error.1 herror
  · exact absurd hfail (hp _ _)
  · obtain ⟨x, rfl, hx⟩ := htakes hok
    obtain ⟨y, rfl, hy, hPy⟩ := hq a hrest
    exact ⟨x ++ y, by rw [List.append_assoc], hx.append hy, hP x hPy⟩

theorem Crosses.afterToken {p : Parser Unit} {q : Parser β} (hq : q.Crosses n P) (hp : p.Shallow)
    (htakes : p.Takes m) : (p *> q).Crosses (n + m) P := Crosses.after hP (fun _ => hq) hp htakes

theorem Crosses.commaList (h : p.Crosses n P) (htakes : p.Takes 0) : p.commaList.Crosses n P := by
  intro ks rest herror
  change runCommaList p ks = _ at herror
  fun_induction runCommaList p ks with
  | case1 ks e hp =>
    cases herror
    exact h hp
  | case2 ks a mid hp e hm ih =>
    cases herror
    obtain ⟨x, rfl, hx⟩ := htakes hp
    obtain ⟨y, rfl, hy, hPy⟩ := ih hm
    have hrises := hx.append (hy.neutral (k := .symbol ',') rfl rfl)
    exact ⟨x ++ .symbol ',' :: y, by simp, hrises, hP x (hP [.symbol ','] hPy)⟩
  | case3 => cases herror
  | case4 => cases herror

theorem Crosses.untilClose (h : p.Crosses n P) (htakes : p.Takes 0) (c : Char) :
    (p.untilClose c).Crosses n P := by
  intro ks rest herror
  change runUntilClose c p ks = _ at herror
  fun_induction runUntilClose c p ks with
  | case1 => cases herror
  | case2 ks hk e hp =>
    cases herror
    exact h hp
  | case3 ks hk a mid hp e hm ih =>
    cases herror
    obtain ⟨x, rfl, hx⟩ := htakes hp
    obtain ⟨y, rfl, hy, hPy⟩ := ih hm
    exact ⟨x ++ y, by rw [List.append_assoc], hx.append hy, hP x hPy⟩
  | case4 => cases herror

end Sequences

end Parser

end Shellwright
