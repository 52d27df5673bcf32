import Shellwright.Proofs.Parser

/-!
# Where parsers fail

A parser that is made of others fails where the first of its parts does that fails. Behind items
that are read, a repetition goes on as if it began there.

## Main statements

* `Parser.run_bind_eq_error`, `Parser.run_require_eq_error`: failures of sequences and of phrases
  that are refused as a whole.
* `Parser.Reads.runUntilClose_append`: a failure behind items that are read.
-/
namespace Shellwright.Parser

open Token (Kind)

variable {α β : Type} {ks rest : List Kind} {p : Parser α} {e : Failure}

/-! ## Sequencing -/

theorem run_map_eq_error {f : α → β} : (f <$> p).run ks = .error e ↔ p.run ks = .error e := by
  simp

theorem run_bind_eq_error {q : α → Parser β} : (p >>= q).run ks = .error e ↔
    p.run ks = .error e ∨ ∃ a mid, p.run ks = .ok (a, mid) ∧ (q a).run mid = .error e := by
  simp

theorem run_seqRight_eq_error {q : Parser β} : (p *> q).run ks = .error e ↔
    p.run ks = .error e ∨ ∃ a mid, p.run ks = .ok (a, mid) ∧ q.run mid = .error e := by
  simp

theorem run_seqLeft_eq_error {q : Parser β} : (p <* q).run ks = .error e ↔
    p.run ks = .error e ∨ ∃ a mid, p.run ks = .ok (a, mid) ∧ q.run mid = .error e := by
  simp

/-! ## Lookahead and refusal -/

theorem run_thenIf_eq_error {k : Kind} {q : α → Parser α} : (p.thenIf k q).run ks = .error e ↔
    p.run ks = .error e ∨ ∃ a mid, p.run ks = .ok (a, mid) ∧ Token.next mid = k ∧
      (q a).run mid = .error e := by
  cases h : p.run ks with
  | error d => simp [thenIf, h]
  | ok r =>
    obtain ⟨a, mid⟩ := r
    by_cases hk : Token.next mid = k <;> simp [thenIf, h, hk]

/-- A phrase that is refused as a whole is refused at its first token. -/
theorem run_require_eq_error {f : α → Except SyntaxError.Cause β} :
    (p.require f).run ks = .error e ↔ p.run ks = .error e ∨
      ∃ a rest cause, p.run ks = .ok (a, rest) ∧ f a = .error cause ∧ e = ⟨cause, ks⟩ := by
  cases h : p.run ks with
  | error d => simp [require, h]
  | ok r =>
    obtain ⟨a, mid⟩ := r
    cases hf : f a with
    | error cause => simp [require, h, hf, eq_comm]
    | ok b => simp [require, h, hf]

/-! ## Repetition -/

theorem runCommaList_eq_error : runCommaList p ks = .error e ↔ p.run ks = .error e ∨
    ∃ a mid, p.run ks = .ok (a, .symbol ',' :: mid) ∧ runCommaList p mid = .error e := by
  rw [runCommaList]
  split
  · rename_i d hp
    simp [hp]
  · rename_i a mid hp
    cases hm : runCommaList p mid <;> simp [hp, hm]
  · rename_i a mid hn hp
    simp only [hp, reduceCtorEq, false_or, false_iff]
    rintro ⟨a, mid, h, -⟩
    cases h
    exact hn _ rfl

theorem runUntilClose_eq_error {c : Char} : runUntilClose c p ks = .error e ↔
    Token.next ks ≠ .symbol c ∧ (p.run ks = .error e ∨
      ∃ a mid, p.run ks = .ok (a, mid) ∧ runUntilClose c p mid = .error e) := by
  rw [runUntilClose]
  by_cases hk : Token.next ks = .symbol c
  · simp [hk]
  rw [if_neg hk]
  split
  · rename_i d hp
    simp [hp, hk]
  · rename_i a mid hp
    cases hm : runUntilClose c p mid <;> simp [hp, hm, hk]

variable {good : α → Prop} {tokens : α → List Kind} {ends : α → Kind → Prop}

/-- Items that are read, each before a token where it ends, leave the rest to decide. -/
theorem Reads.runUntilClose_append {c : Char} (h : p.Reads good tokens ends)
    (begins : ∀ a, ∃ k ks, tokens a = k :: ks ∧ k ≠ .symbol c ∧ ∀ b, ends b k)
    {items : List α} (hitems : ∀ a ∈ items, good a) (hends : ∀ a, ends a (Token.next ks))
    (hks : runUntilClose c p ks = .error e) :
    runUntilClose c p (items.flatMap tokens ++ ks) = .error e := by
  induction items with
  | nil => exact hks
  | cons a items ih =>
    have htail := ih fun b hb => hitems b (List.mem_cons_of_mem _ hb)
    obtain ⟨k, ls, hk, hkc, -⟩ := begins a
    have hnext : ends a (Token.next (items.flatMap tokens ++ ks)) := by
      cases items with
      | nil => exact hends a
      | cons b items =>
        obtain ⟨l, ms, hl, -, hb⟩ := begins b
        simpa [hl, Token.next] using hb a
    rw [List.flatMap_cons, List.append_assoc, runUntilClose_eq_error]
    refine ⟨by simpa [hk, Token.next] using hkc, .inr ⟨a, _, ?_, htail⟩⟩
    exact (h _ _ _).2 ⟨hitems a List.mem_cons_self, rfl, hnext⟩

end Shellwright.Parser
