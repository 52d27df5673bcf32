import Shellwright.Proofs.Parser.Failure
import Shellwright.Proofs.Program.Joining

/-!
# Where the reading of a program fails

Reading stops at the first statement that fails, and the error is placed at the token that this
failure begins with.

## Main statements

* `Program.ofKinds_of_run_eq_error`: a statement that fails.
* `Program.ofTokens_eq_error`: a failure is placed where the first of the tokens left stands.
-/
namespace Shellwright

open Token (Kind Stream)

/-- Before tokens that are not the end of the input, reading goes on to those behind them. -/
theorem Token.Stream.kinds_ofList_append {ts : List Token} (hts : ∀ t ∈ ts, t.kind ≠ .eof)
    (us : List Token) : (ofList (ts ++ us)).kinds = ts.map (·.kind) ++ (ofList us).kinds := by
  have hall : ∀ t ∈ ts, decide (t.kind ≠ .eof) = true := by simpa using hts
  rw [kinds, ofList, List.takeWhile_append_of_pos hall, List.map_append]
  rfl

theorem Token.Stream.positionAt_zero {ts : List Token} {t : Token} (h : ts.head? = some t) :
    (ofList ts).positionAt 0 = t.position := by
  obtain ⟨ts, rfl⟩ := List.head?_eq_some_iff.1 h
  by_cases ht : t.kind = .eof <;> simp [ofList, positionAt, ht]

theorem Stmt.invocation_eq_error {s : Stmt} {cause : SyntaxError.Cause} :
    s.invocation = .error cause ↔ s.isRun = false ∧ cause = .nonRunInPipe s.construct := by
  cases s <;> simp [invocation, isRun, eq_comm]

namespace Program

theorem ofKinds_of_run_eq_error {k : Kind} {ks : List Kind} {e : Failure} (hk : ∀ c, k ≠ .symbol c)
    (h : statement.run (k :: ks) = .error e) : ofKinds (k :: ks) = .error e := by
  rw [ofKinds_cons hk, h]
  rfl

/-- A failure is placed at the first of the tokens that are left, when none of the tokens before
them is the end of the input. -/
theorem ofTokens_eq_error {before left : List Token} {t : Token} {cause : SyntaxError.Cause}
    (hbefore : ∀ u ∈ before, u.kind ≠ .eof) (ht : left.head? = some t)
    (h : ofKinds (before.map (·.kind) ++ (Stream.ofList left).kinds) =
      .error ⟨cause, (Stream.ofList left).kinds⟩) :
    ofTokens (before ++ left) = .error ⟨cause, t.position⟩ := by
  have hleft : left ≠ [] := by
    rintro rfl
    cases ht
  rw [ofTokens, Stream.ofList_append hbefore hleft, ← Stream.positionAt_zero ht]
  generalize Stream.ofList left = s at h
  have hkinds : (Stream.mk (before ++ s.tokens) s.stop).kinds =
      before.map (·.kind) ++ s.kinds := by
    simp [Stream.kinds]
  have hplace := Stream.positionAt_append before (Nat.le_refl s.tokens.length)
  rw [ofStream, hkinds, h, Except.mapError_error]
  simpa [Stream.kinds] using hplace

end Program

end Shellwright
