import Shellwright.Proofs.Program.Failure
import Shellwright.Proofs.Stmt.Nesting

/-!
# The limit of nesting

A program that is nested too deeply is refused where its tokens first go beyond the limit, and for
no other reason.

## Main statements

* `Program.ofKinds_tooDeep`: reading fails at the first level too many.
* `Program.ofTokens_nestingTooDeep`: the error is placed at the first opener that has as many
  unclosed openers before it as there may be levels.
-/
namespace Shellwright.Program

open Token (Kind Stream excess unclosed)

variable {p : Program}

/-- A statement ends where the next one begins, or the input. -/
theorem endsAt_next_kindsList (s : Stmt) (ss : List Stmt) :
    s.EndsAt (Token.next (Stmt.kindsList ss)) := by
  cases ss with
  | nil => exact Stmt.endsAt_of_ne (by simp [Stmt.kindsList, Token.next])
  | cons t ss =>
    obtain ⟨k, ks, hk, hsym⟩ := t.exists_kinds_cons
    simpa [Stmt.kindsList, hk, Token.next] using Stmt.endsAt_of_ne hsym

theorem ofKinds_tooDeep (hw : p.wellFormed = true) (hn : maxNesting < p.nesting) :
    ∃ left, excess maxNesting 0 p.kinds = some left ∧
      ofKinds p.kinds = .error ⟨.nestingTooDeep, left⟩ := by
  induction p with
  | nil => simp [nesting, Stmt.nestingList] at hn
  | cons s p ih =>
    rw [wellFormed, Stmt.wellFormedList, Bool.and_eq_true] at hw
    rw [nesting, Stmt.nestingList] at hn
    rw [kinds, Stmt.kindsList]
    by_cases hs : s.nesting ≤ maxNesting
    · obtain ⟨left, hleft, hrest⟩ := ih hw.2 (by rw [nesting]; omega)
      have hrun : statement.run (s.kinds ++ Stmt.kindsList p) = .ok (s, Stmt.kindsList p) :=
        run_statement_eq_ok.2 ⟨⟨hw.1, hs⟩, rfl, endsAt_next_kindsList s p⟩
      refine ⟨left, (s.leads_kinds (by omega) _).trans hleft, ?_⟩
      rw [ofKinds_of_run_eq_ok hrun]
      exact Except.map_eq_error.2 hrest
    · obtain ⟨left, hleft, hrun⟩ := Stmt.parser_tooDeep maxNesting (Nat.zero_add _) hw.1
        (Nat.lt_of_not_le hs) (Stmt.kindsList p)
      obtain ⟨k, ks, hk, hsym⟩ := s.exists_kinds_cons
      refine ⟨left, hleft, ?_⟩
      rw [hk, List.cons_append] at hrun ⊢
      exact ofKinds_of_run_eq_error hsym hrun

/-- The canonical tokens of a well-formed program that is nested too deeply, with the end of the
input behind them, are refused at the first brace or parenthesis that opens a level when as many
openers as there may be levels stand unclosed before it. -/
theorem ofTokens_nestingTooDeep (hw : p.wellFormed = true) (hn : maxNesting < p.nesting)
    {ts : List Token} (hts : ts.map (·.kind) = p.kinds) (stop : Position) :
    ∃ before t after, ts = before ++ t :: after ∧ t.kind.opens = true ∧
      unclosed (before.map (·.kind)) = maxNesting ∧
      (∀ x u y, before = x ++ u :: y → u.kind.opens = true →
        unclosed (x.map (·.kind)) ≠ maxNesting) ∧
      ofTokens (ts ++ [⟨.eof, stop⟩]) = .error ⟨.nestingTooDeep, t.position⟩ := by
  have heof : ∀ t ∈ ts, t.kind ≠ .eof := by
    intro t ht hk
    apply Stmt.eof_notMem_kindsList p
    rw [← kinds, ← hts]
    exact List.mem_map.2 ⟨t, ht, hk⟩
  obtain ⟨left, hleft, herror⟩ := ofKinds_tooDeep hw hn
  obtain ⟨_, _, _, hks, rfl, hopens, hlevel, hfirst⟩ := Token.exists_of_excess hleft
  rw [← hts, List.map_eq_append_iff] at hks
  obtain ⟨before, _, rfl, rfl, htail⟩ := hks
  obtain ⟨t, after, rfl, rfl, rfl⟩ := List.map_eq_cons_iff.1 htail
  refine ⟨before, t, after, rfl, hopens, hlevel, fun x u y hx hu => ?_, ?_⟩
  · exact hfirst _ u.kind (y.map (·.kind)) (by simp [hx]) hu
  · have hstream := Stream.kinds_ofList_append
      (fun u hu => heof u (List.mem_append_right before hu)) [⟨.eof, stop⟩]
    rw [List.append_assoc]
    apply ofTokens_eq_error (fun u hu => heof u (List.mem_append_left _ hu)) rfl
    rw [hstream, ← List.append_assoc, ← List.map_append, hts]
    simpa [Stream.ofList, Stream.kinds] using herror

/-- The pipe takes the level that is too many; the calls in the conditions before it are closed. -/
theorem ofTokens_nestingTooDeep_pipe :
    let p : Program := (fun body => [.ifThen (.call "f" [.call "g" []]) body])^[256] [.pipe []]
    let ts := p.kinds.zipIdx.map fun (k, i) => (⟨k, ⟨1, i + 1⟩⟩ : Token)
    p.wellFormed = true ∧ p.nesting = 257 ∧
      ∃ before t after, ts = before ++ t :: after ∧ t.kind.opens = true ∧
        unclosed (before.map (·.kind)) = 256 ∧
        (∀ x u y, before = x ++ u :: y → u.kind.opens = true → unclosed (x.map (·.kind)) ≠ 256) ∧
        ofTokens (ts ++ [⟨.eof, ⟨2, 1⟩⟩]) = .error ⟨.nestingTooDeep, t.position⟩ := by
  intro p ts
  have hw : p.wellFormed = true := by decide +kernel
  have hn : p.nesting = 257 := by decide +kernel
  have hts : ts.map (·.kind) = p.kinds := by
    simp [ts, Function.comp_def]
  exact ⟨hw, hn, ofTokens_nestingTooDeep hw (by rw [hn]; decide) hts _⟩

end Shellwright.Program
