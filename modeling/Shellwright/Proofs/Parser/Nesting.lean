import Shellwright.Proofs.Parser.Failure
import Shellwright.Proofs.Token.Level

/-!
# Parsers that meet a level too many

A phrase may be nested more deeply than a parser goes. The parser then fails at the first opener
that begins a level too many, whatever follows the phrase: the parts before that level are read as
if there were no limit.

## Main definitions

* `Parser.TooDeep`: the parser fails where the tokens go beyond the limit.

## Main statements

* `Parser.TooDeep.after`, `Parser.TooDeep.commaList`, `Parser.TooDeep.untilClose`: parts that are
  read, and then one that is nested too deeply.
-/
namespace Shellwright.Parser

open Token (Kind Leads excess)

variable {α β : Type} {p : Parser α} {limit n m : Nat} {k : Kind} {x y : List Kind}

/-- When `n` of `limit` levels are open, the parser fails on tokens that begin with `x` at the first
level too many. -/
def TooDeep (p : Parser α) (limit n : Nat) (x : List Kind) : Prop :=
  ∀ rest, ∃ left, excess limit n (x ++ rest) = some left ∧
    p.run (x ++ rest) = .error ⟨.nestingTooDeep, left⟩

namespace TooDeep

theorem append (h : p.TooDeep limit n x) (y : List Kind) : p.TooDeep limit n (x ++ y) := by
  intro rest
  rw [List.append_assoc]
  exact h (y ++ rest)

theorem map (h : p.TooDeep limit n x) (f : α → β) : (f <$> p).TooDeep limit n x := by
  intro rest
  obtain ⟨left, hleft, hrun⟩ := h rest
  exact ⟨left, hleft, run_map_eq_error.2 hrun⟩

theorem bind (h : p.TooDeep limit n x) (q : α → Parser β) : (p >>= q).TooDeep limit n x := by
  intro rest
  obtain ⟨left, hleft, hrun⟩ := h rest
  exact ⟨left, hleft, run_bind_eq_error.2 (.inl hrun)⟩

theorem require (h : p.TooDeep limit n x) (f : α → Except SyntaxError.Cause β) :
    (p.require f).TooDeep limit n x := by
  intro rest
  obtain ⟨left, hleft, hrun⟩ := h rest
  exact ⟨left, hleft, run_require_eq_error.2 (.inl hrun)⟩

/-- A first part that is read, and a second one that is too deep. -/
theorem after {q : α → Parser β} {a : α} (hq : (q a).TooDeep limit m y)
    (hx : Leads limit n x m) (hp : ∀ rest, p.run (x ++ (y ++ rest)) = .ok (a, y ++ rest)) :
    (p >>= q).TooDeep limit n (x ++ y) := by
  intro rest
  obtain ⟨left, hleft, hrun⟩ := hq rest
  rw [List.append_assoc]
  exact ⟨left, (hx _).trans hleft, run_bind_eq_error.2 (.inr ⟨a, _, hp rest, hrun⟩)⟩

/-- One token that is taken, and then a part that is too deep. -/
theorem afterToken {p : Parser Unit} {q : Parser β} (hq : q.TooDeep limit m y)
    (hk : Leads limit n [k] m) (hp : ∀ rest, p.run (k :: rest) = .ok ((), rest)) :
    (p *> q).TooDeep limit n (k :: y) :=
  after (x := [k]) (q := fun _ => q) hq hk fun rest => hp (y ++ rest)

/-- An opener is refused where no level is left. -/
theorem fail (hk : k.opens = true) (x : List Kind) :
    (fail fun _ => .nestingTooDeep : Parser α).TooDeep n n (k :: x) :=
  fun rest => ⟨k :: (x ++ rest), by simp [excess, hk], rfl⟩

/-! ## Repetition -/

section Repetition

variable {good : α → Prop} {tokens : α → List Kind} {ends : α → Kind → Prop}
  (h : p.Reads good tokens ends) (hgood : ∀ a, good a → Leads limit n (tokens a) n) {as : List α}
  (hdeep : ∀ a ∈ as, ¬ good a → p.TooDeep limit n (tokens a)) (has : ¬ ∀ a ∈ as, good a)
include h hgood hdeep has

theorem commaList (comma : ∀ a, ends a (.symbol ',')) :
    p.commaList.TooDeep limit n ([Kind.symbol ','].intercalate (as.map tokens)) := by
  induction as with
  | nil => simp at has
  | cons a as ih =>
    by_cases ha : good a
    · have htail : ¬ ∀ b ∈ as, good b := fun hb => has (by simpa using ⟨ha, hb⟩)
      obtain ⟨b, bs, rfl⟩ : ∃ b bs, as = b :: bs := by
        cases as with
        | nil => simp at htail
        | cons b bs => exact ⟨b, bs, rfl⟩
      intro rest
      obtain ⟨left, hleft, hrun⟩ := ih (fun c hc => hdeep c (List.mem_cons_of_mem _ hc)) htail rest
      have hcomma : Leads limit n [.symbol ','] n := Leads.nil.neutral (by decide) (by decide)
      simp only [List.map_cons, List.intercalate_cons_cons, List.append_assoc] at hleft hrun ⊢
      refine ⟨left, ?_, runCommaList_eq_error.2 (.inr ⟨a, _, (h _ _ _).2 ⟨ha, rfl, ?_⟩, hrun⟩)⟩
      · rw [hgood a ha, hcomma, hleft]
      · exact comma a
    · intro rest
      obtain ⟨tail, htail⟩ : ∃ tail, [Kind.symbol ','].intercalate ((a :: as).map tokens) =
          tokens a ++ tail := by
        cases as with
        | nil => exact ⟨[], by simp⟩
        | cons b bs => exact ⟨.symbol ',' :: [Kind.symbol ','].intercalate ((b :: bs).map tokens),
            by simp⟩
      obtain ⟨left, hleft, hrun⟩ := (hdeep a List.mem_cons_self ha).append tail rest
      rw [htail]
      exact ⟨left, hleft, runCommaList_eq_error.2 (.inl hrun)⟩

theorem untilClose {c : Char}
    (begins : ∀ a, ∃ k ks, tokens a = k :: ks ∧ k ≠ .symbol c ∧ ∀ b, ends b k) :
    (p.untilClose c).TooDeep limit n (as.flatMap tokens) := by
  induction as with
  | nil => simp at has
  | cons a as ih =>
    obtain ⟨k, ks, hk, hkc, -⟩ := begins a
    intro rest
    rw [List.flatMap_cons]
    have hopen : Token.next (tokens a ++ as.flatMap tokens ++ rest) ≠ .symbol c := by
      simpa [hk, Token.next] using hkc
    by_cases ha : good a
    · have htail : ¬ ∀ b ∈ as, good b := fun hb => has (by simpa using ⟨ha, hb⟩)
      obtain ⟨left, hleft, hrun⟩ := ih (fun b hb => hdeep b (List.mem_cons_of_mem _ hb)) htail rest
      have hends : ends a (Token.next (as.flatMap tokens ++ rest)) := by
        cases as with
        | nil => simp at htail
        | cons b bs =>
          obtain ⟨l, ls, hl, -, hb⟩ := begins b
          simpa [hl, Token.next] using hb a
      rw [List.append_assoc] at hopen ⊢
      exact ⟨left, (hgood a ha _).trans hleft,
        runUntilClose_eq_error.2 ⟨hopen, .inr ⟨a, _, (h _ _ _).2 ⟨ha, rfl, hends⟩, hrun⟩⟩⟩
    · obtain ⟨left, hleft, hrun⟩ := (hdeep a List.mem_cons_self ha).append (as.flatMap tokens) rest
      exact ⟨left, hleft, runUntilClose_eq_error.2 ⟨hopen, .inl hrun⟩⟩

end Repetition

end TooDeep

end Shellwright.Parser
