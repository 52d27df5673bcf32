import Shellwright.Expr.Parser
import Shellwright.Proofs.Parser
import Shellwright.Proofs.Program.Canonical

/-!
# Expressions are read as they are written

## Main statements

* `Expr.parser_reads`: with budget `n`, exactly the expressions nested at most `n` deep are read,
  each from its canonical tokens.
-/
namespace Shellwright.Expr

open Token (Kind)
open Shellwright.Parser (Reads)

theorem arguments_reads {expr : Parser Expr} {good : Expr → Prop}
    (h : expr.Reads good kinds EndsAt) :
    (arguments expr).Reads (fun args => ∀ e ∈ args, good e)
      (fun args => kindsList args ++ [.symbol ')']) (fun _ _ => True) := by
  have hlist := h.commaList fun e => endsAt_of_ne (by simp)
  intro ks args rest
  simp only [arguments, Parser.run_peek]
  constructor
  · intro hr
    split at hr
    · rename_i hk
      obtain ⟨rfl, k, rfl⟩ := Parser.run_skip_eq_ok.1 hr
      simp_all [Token.next, kindsList]
    · obtain ⟨mid, u, hargs, hclose⟩ := Parser.run_seqLeft_eq_ok.1 hr
      obtain rfl := Parser.run_symbol_eq_ok.1 hclose
      obtain ⟨⟨hne, hg⟩, rfl, -⟩ := (hlist _ _ _).1 hargs
      exact ⟨hg, by simp [kindsList_eq_intercalate], trivial⟩
  · rintro ⟨hg, rfl, -⟩
    cases args with
    | nil => simp [kindsList, Token.next]
    | cons e es =>
      -- the first token belongs to `e`, so it is not the closing parenthesis
      obtain ⟨k, ks, hk, hsym⟩ := e.exists_kinds_cons
      have hnext : Token.next (kindsList (e :: es) ++ [.symbol ')'] ++ rest) = k := by
        cases es <;> simp [kindsList, hk, Token.next]
      rw [hnext]
      split
      · exact absurd rfl (hsym ')')
      · refine Parser.run_seqLeft_eq_ok.2 ⟨.symbol ')' :: rest, (),
          (hlist _ _ _).2 ⟨⟨by simp, hg⟩, ?_, ?_⟩, by simp⟩
        · simp [kindsList_eq_intercalate]
        · exact ⟨by simp [Token.next], fun f _ => endsAt_of_ne (by simp [Token.next])⟩

theorem parserWith_reads {onCall : String → Parser Expr} (good : List Expr → Prop)
    (h : ∀ name, (onCall name).Reads (fun e => ∃ args, e = call name args ∧ good args)
      (fun e => e.kinds.tail) (fun _ _ => True)) :
    (parserWith onCall).Reads (fun e => ∀ name args, e = call name args → good args) kinds
      EndsAt := by
  intro ks e rest
  simp only [parserWith, Parser.run_peek]
  constructor
  · intro hr
    split at hr
    · rename_i hk
      obtain ⟨rfl, k, rfl⟩ := Parser.run_skip_eq_ok.1 hr
      simp_all [Token.next, kinds, EndsAt, Token.endsInName]
    · rename_i hk
      obtain ⟨rfl, k, rfl⟩ := Parser.run_skip_eq_ok.1 hr
      simp_all [Token.next, kinds, EndsAt, Token.endsInName]
    · rename_i name hk
      obtain ⟨a, mid, hs, hgo⟩ := Parser.run_thenIf_eq_ok.1 hr
      obtain ⟨rfl, k, rfl⟩ := Parser.run_skip_eq_ok.1 hs
      cases hk
      split at hgo
      · obtain ⟨⟨args, rfl, hg⟩, rfl, -⟩ := (h name _ _ _).1 hgo
        refine ⟨?_, by simp [kinds], fun _ => endsInName_kinds_call name args⟩
        rintro _ _ ⟨rfl, rfl⟩
        exact hg
      · rename_i hne
        obtain ⟨rfl, rfl⟩ := hgo
        exact ⟨by simp, by simp [kinds], endsAt_of_ne hne⟩
    · cases hr
  · rintro ⟨hg, rfl, he⟩
    cases e with
    | string text => simp [kinds, Token.next]
    | number digits => simp [kinds, Token.next]
    | var name =>
      have hne : Token.next rest ≠ .symbol '(' := fun hk => by
        simpa [kinds, Token.endsInName] using he hk
      exact Parser.run_thenIf_eq_ok.2 ⟨.var name, rest, by simp [kinds], by simp [hne]⟩
    | call name args =>
      have hcall := (h name _ _ rest).2 ⟨⟨args, rfl, hg name args rfl⟩, rfl, trivial⟩
      refine Parser.run_thenIf_eq_ok.2 ⟨.var name, (call name args).kinds.tail ++ rest,
        by simp [kinds], ?_⟩
      rwa [if_pos (by simp [kinds, Token.next])]

theorem call_reads {expr : Parser Expr} {good : Expr → Prop} (h : expr.Reads good kinds EndsAt)
    (name : String) :
    (Parser.symbol '(' *> call name <$> arguments expr).Reads
      (fun e => ∃ args, e = call name args ∧ ∀ e ∈ args, good e) (fun e => e.kinds.tail)
      (fun _ _ => True) := by
  intro ks e rest
  simp only [Parser.run_seqRight_eq_ok, Parser.run_symbol_eq_ok, Parser.run_map_eq_ok, exists_const]
  constructor
  · rintro ⟨mid, rfl, args, hargs, rfl⟩
    obtain ⟨hg, rfl, -⟩ := (arguments_reads h _ _ _).1 hargs
    exact ⟨⟨args, rfl, hg⟩, by simp [kinds], trivial⟩
  · rintro ⟨⟨args, rfl, hg⟩, rfl, -⟩
    exact ⟨_, by simp [kinds], args, (arguments_reads h _ _ _).2 ⟨hg, rfl, trivial⟩, rfl⟩

/-- The budget is what an expression may be nested. -/
theorem parser_reads (budget : Nat) :
    (parser budget).Reads (fun e => e.nesting ≤ budget) kinds EndsAt := by
  induction budget with
  | zero =>
    refine (parserWith_reads (fun _ => False) fun name => ?_).congr (fun e => ?_)
      fun _ _ _ => Iff.rfl
    · exact Reads.fail (by simp)
    · cases e <;> simp [nesting]
  | succ budget ih =>
    refine (parserWith_reads _ (call_reads ih)).congr (fun e => ?_) fun _ _ _ => Iff.rfl
    cases e <;> simp [nesting, nestingList_le_iff]

end Shellwright.Expr
