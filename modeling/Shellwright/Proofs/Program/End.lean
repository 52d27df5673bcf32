import Shellwright.Proofs.Parser.End
import Shellwright.Proofs.Program.Joining

/-!
# The end of the input

The first token that is the end of the input is a barrier: what comes behind it has no effect. Where
there is no such token, the tokens are read as if it stood behind the last one, in the same place.

## Main statements

* `Expr.parser_bounded`, `Stmt.parser_bounded`: whatever calls and blocks are open, neither an
  expression nor a statement goes on behind an end of input.
* `Program.ofTokens_append_eof`: the same for a list of tokens and the errors that are reported.
-/
namespace Shellwright

open Token (Kind Stream)
open Shellwright.Parser (Bounded)

/-! ## Expressions -/

namespace Expr

theorem arguments_bounded {expr : Parser Expr} (h : expr.Bounded) : (arguments expr).Bounded := by
  refine Bounded.peek fun ks => ?_
  split
  · rename_i hk
    exact Parser.skip_boundedOn _ hk (by simp)
  · exact h.commaList.seqLeft (Parser.symbol_bounded ')') ks

theorem parserWith_bounded {onCall : String → Parser Expr} (h : ∀ name, (onCall name).Bounded) :
    (parserWith onCall).Bounded := by
  refine Bounded.peek fun ks => ?_
  split
  · rename_i hk
    exact Parser.skip_boundedOn _ hk (by simp)
  · rename_i hk
    exact Parser.skip_boundedOn _ hk (by simp)
  · rename_i name hk
    exact (Parser.skip_boundedOn _ hk (by simp)).thenIf fun _ => h name
  · exact Bounded.fail _ ks

theorem parser_bounded (budget : Nat) : (parser budget).Bounded := by
  induction budget with
  | zero => exact parserWith_bounded fun _ => .fail _
  | succ budget ih =>
    exact parserWith_bounded fun _ =>
      (Parser.symbol_bounded '(').seqRight ((arguments_bounded ih).map _)

end Expr

/-! ## Statements -/

namespace Stmt

theorem declaration_bounded (binding : Binding) {value : Parser Expr} (h : value.Bounded) :
    (declaration binding value).Bounded :=
  ((Parser.keyword_bounded _).seqRight Parser.identifier_bounded).bind fun _ =>
    (Parser.symbol_bounded '=').seqRight (h.map _)

theorem block_bounded {α : Type} {item : Parser α} (h : item.Bounded) : (block item).Bounded :=
  (Parser.symbol_bounded '\x7b').seqRight (h.untilClose '\x7d')

theorem parserWith_bounded {expression : Parser Expr} (hexpr : expression.Bounded)
    {body : Parser (List Stmt)} (hbody : body.Bounded) {commands : Parser (List Invocation)}
    (hcommands : commands.Bounded) : (parserWith expression body commands).Bounded := by
  refine Bounded.peek fun ks => ?_
  split
  · exact declaration_bounded .val hexpr ks
  · exact declaration_bounded .var hexpr ks
  · exact (Parser.keyword_bounded .run).seqRight (hexpr.commaList.map _) ks
  · exact ((Parser.keyword_bounded .if_).seqRight hexpr).bind (fun _ => hbody.map _) ks
  · refine ((Parser.keyword_bounded .for_).seqRight Parser.identifier_bounded).bind (fun _ => ?_) ks
    exact ((Parser.keyword_bounded .in_).seqRight hexpr).bind fun _ => hbody.map _
  · exact (Parser.keyword_bounded .pipe).seqRight (hcommands.map _) ks
  · exact Bounded.fail _ ks
  · exact hexpr.require ks
  · exact Bounded.fail _ ks

theorem parser_bounded (budget : Nat) : (parser budget).Bounded := by
  induction budget with
  | zero => exact parserWith_bounded (Expr.parser_bounded 0) (.fail _) (.fail _)
  | succ budget ih =>
    exact parserWith_bounded (Expr.parser_bounded _) (block_bounded ih) (block_bounded ih.require)

end Stmt

/-! ## Programs -/

section Programs

variable {ts : List Token}

theorem Token.Stream.ofList_append_eof (hts : ∀ t ∈ ts, t.kind ≠ .eof) (stop : Position)
    (us : List Token) : ofList (ts ++ ⟨.eof, stop⟩ :: us) = ⟨ts, stop⟩ := by
  rw [ofList_append hts (by simp)]
  simp [ofList]

/-- A list without an end of input ends where its last token stands. -/
theorem Token.Stream.ofList_of_ne_eof (hts : ∀ t ∈ ts, t.kind ≠ .eof) :
    ofList ts = ⟨ts, (ts.getLast?.map (·.position)).getD .start⟩ := by
  have hall : ∀ t ∈ ts, decide (t.kind ≠ .eof) = true := by simpa using hts
  rw [ofList, List.takeWhile_eq_self_iff.2 hall, List.dropWhile_eq_nil_iff.2 hall]

/-- Let no token of `ts` be the end of the input. What is read from `ts` and an end of input behind
it, the program or the error with its place, does not depend on the tokens that follow; and if that
end stands where the last token of `ts` does, or at the start if there is none, it may be left out.
No statement is read across an end of input wherever it begins: the outcome is that for the tokens
before it, with the same cause at the same token. -/
theorem Program.ofTokens_append_eof (hts : ∀ t ∈ ts, t.kind ≠ .eof) :
    (∀ stop us vs, ofTokens (ts ++ ⟨.eof, stop⟩ :: us) = ofTokens (ts ++ ⟨.eof, stop⟩ :: vs)) ∧
      (∀ us, ofTokens (ts ++ ⟨.eof, (ts.getLast?.map (·.position)).getD .start⟩ :: us) =
        ofTokens ts) ∧
      ∀ ks us, statement.run (ks ++ .eof :: us) =
        Parser.extend (.eof :: us) (statement.run ks) := by
  refine ⟨fun stop us vs => ?_, fun us => ?_, Stmt.parser_bounded maxNesting⟩
  · rw [ofTokens, ofTokens, Stream.ofList_append_eof hts, Stream.ofList_append_eof hts]
  · rw [ofTokens, ofTokens, Stream.ofList_append_eof hts, Stream.ofList_of_ne_eof hts]

/-- The call is left open: the end of the tokens is blamed at the last of them. -/
theorem Program.ofTokens_append_eof_call :
    let ts : List Token := [⟨.ident "f", ⟨1, 1⟩⟩, ⟨.symbol '(', ⟨1, 2⟩⟩]
    ofTokens (ts ++ [⟨.eof, ⟨1, 2⟩⟩, ⟨.symbol ')', ⟨1, 3⟩⟩, ⟨.eof, ⟨1, 4⟩⟩]) =
      .error ⟨.expectedExpression .eof, ⟨1, 2⟩⟩ ∧
    ofTokens (ts ++ [⟨.eof, ⟨1, 2⟩⟩, ⟨.symbol ')', ⟨1, 3⟩⟩, ⟨.eof, ⟨1, 4⟩⟩]) = ofTokens ts := by
  intro ts
  have hts : ∀ t ∈ ts, t.kind ≠ .eof := by decide
  obtain ⟨-, hleft, -⟩ := ofTokens_append_eof hts
  exact ⟨by decide +kernel, hleft _⟩

end Programs

end Shellwright
