import Shellwright.Proofs.Parser.Failure
import Shellwright.Proofs.Parser.Refusal

/-!
# Parsers taken apart

A parser that looks ahead, refuses a phrase or repeats another one, written as what it does first
and what it does with the outcome. The repetitions are unrolled by one item.

## Main statements

* `Parser.runCommaList_eq`: a list, from its first item on.
* `Parser.runUntilClose_of_next`, `Parser.runUntilClose_of_next_ne`: items up to a closing symbol,
  from the first token on.
-/
namespace Except

variable {ε α β γ : Type}

theorem ok_bind (a : α) (f : α → Except ε β) : ok a >>= f = f a := rfl

theorem map_eq_bind (x : Except ε α) (f : α → β) : x.map f = x >>= fun a => ok (f a) := by
  cases x <;> rfl

theorem map_bind (x : Except ε α) (f : α → Except ε β) (g : β → γ) :
    (x >>= f).map g = x >>= fun a => (f a).map g := by
  cases x <;> rfl

theorem map_map (x : Except ε α) (f : α → β) (g : β → γ) :
    (x.map f).map g = x.map fun a => g (f a) := by
  cases x <;> rfl

theorem map_eq_self (x : Except ε α) {f : α → α} (h : ∀ a, f a = a) : x.map f = x := by
  cases x with
  | error e => rfl
  | ok a => exact congrArg ok (h a)

end Except

namespace Shellwright.Parser

open Token (Kind)

variable {α β : Type} (p : Parser α) {ks : List Kind}

theorem run_require (f : α → Except SyntaxError.Cause β) (ks : List Kind) :
    (p.require f).run ks = p.run ks >>= fun (a, rest) => match f a with
      | .ok b => .ok (b, rest)
      | .error cause => .error ⟨cause, ks⟩ := by
  simp only [require]
  cases p.run ks <;> rfl

theorem run_thenIf (k : Kind) (q : α → Parser α) (ks : List Kind) :
    (p.thenIf k q).run ks = p.run ks >>= fun (a, rest) =>
      if Token.next rest = k then (q a).run rest else .ok (a, rest) := by
  simp only [thenIf]
  cases p.run ks <;> rfl

/-- A list is its first item and, behind a comma, another list. -/
theorem runCommaList_eq (ks : List Kind) :
    runCommaList p ks = p.run ks >>= fun (a, rest) =>
      if Token.next rest = .symbol ',' then
        (runCommaList p rest.tail).map fun (as, rest) => (a :: as, rest)
      else .ok ([a], rest) := by
  cases h : p.run ks with
  | error e => exact runCommaList_eq_error.2 (.inl h)
  | ok r =>
    obtain ⟨a, rest⟩ := r
    change _ = if _ then _ else _
    split
    · rename_i hcomma
      obtain ⟨mid, rfl⟩ := Token.exists_cons_of_next hcomma (by simp)
      rw [List.tail_cons]
      cases hm : runCommaList p mid with
      | error e => exact runCommaList_eq_error.2 (.inr ⟨a, mid, h, hm⟩)
      | ok r => exact runCommaList_cons h hm
    · rename_i hcomma
      exact runCommaList_single h hcomma

theorem runUntilClose_of_next {c : Char} (h : Token.next ks = .symbol c) :
    runUntilClose c p ks = .ok ([], ks.tail) := by
  rw [runUntilClose, if_pos h]

theorem runUntilClose_of_next_ne {c : Char} (h : Token.next ks ≠ .symbol c) :
    runUntilClose c p ks = p.run ks >>= fun (a, rest) =>
      (runUntilClose c p rest).map fun (as, rest) => (a :: as, rest) := by
  cases hp : p.run ks with
  | error e => exact runUntilClose_eq_error.2 ⟨h, .inl hp⟩
  | ok r =>
    obtain ⟨a, mid⟩ := r
    change _ = Except.map _ _
    cases hm : runUntilClose c p mid with
    | error e => exact runUntilClose_eq_error.2 ⟨h, .inr ⟨a, mid, hp, hm⟩⟩
    | ok r => exact runUntilClose_cons h hp hm

end Shellwright.Parser
