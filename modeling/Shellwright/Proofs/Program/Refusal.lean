import Shellwright.Proofs.Program.Joining
import Shellwright.Proofs.Stmt.Refusal

/-!
# Where a program is refused

A token that is refused is the first one at which the input cannot be a program any more, if pipes
could hold any statements and nothing limited the nesting: the tokens before it can be completed to
such a program, and with it they cannot.

## Main statements

* `Program.exists_of_ofKinds_eq_error`: where the loop over the statements stops at a refused token.
* `Program.Outline.refusesToken_eq_false`: no token of an outline is refused.
* `Program.ofTokens_error_earliest`: the same for a list of tokens and the error that is reported.
-/
namespace Shellwright.Program

open Token (Kind Stream next_append next_append_congr)

variable {ks : List Kind}

/-- The tokens before a refused one can be completed, and nothing that begins with them goes on with
that one. -/
theorem exists_of_ofKinds_eq_error {e : Failure} (heof : .eof ∉ ks) (h : ofKinds ks = .error e)
    (hc : e.cause.refusesToken = true) :
    ∃ before, ks = before ++ e.rest ∧ (∃ w, Outline (before ++ w)) ∧
      ∀ r, Outline (before ++ r) → Token.next r ≠ Token.next e.rest := by
  have hfollows : statement.Follows Stmt.phrases := Stmt.parser_follows maxNesting
  fun_induction ofKinds ks with
  | case1 => cases h
  | case2 c rest ih =>
    obtain ⟨before, rfl, ⟨w, hw⟩, hstuck⟩ := ih (by simpa using heof) h
    exact ⟨.symbol c :: before, rfl, ⟨w, .symbol c hw⟩, fun r hr => hstuck r hr.of_symbol_cons⟩
  | case3 k rest hk e' hs =>
    cases h
    obtain ⟨before, hks, hb⟩ := hfollows.refused hs hc
    refine ⟨before, hks, ?_, fun r hr hnext => ?_⟩
    · obtain ⟨w, hw⟩ := hb.viable
      obtain ⟨hout, hends⟩ := hw .eof (by decide)
      exact ⟨w, .of_stmt hout hends⟩
    · have hfirst : Token.next (before ++ r) = k := by
        rw [next_append_congr hnext, ← hks]
        rfl
      have hne : before ++ r ≠ [] := by
        intro hnil
        rw [hnil] at hfirst
        exact heof (hfirst ▸ List.mem_cons_self)
      obtain ⟨y, s, hys, hy, hends, -⟩ := hr.exists_stmt hne fun c hsym => hk c (hfirst ▸ hsym)
      exact hb.stuck ⟨hy, hends⟩ hys.symm hnext
  | case4 k rest hk s mid hs e' hm ih =>
    cases h
    obtain ⟨x, hks, hx⟩ := hfollows.accepted hs
    have hmid : .eof ∉ mid := fun hmem => heof (hks ▸ List.mem_append_right x hmem)
    obtain ⟨before, rfl, ⟨w, hw⟩, hstuck⟩ := ih hmid hm
    refine ⟨x ++ before, by rw [hks, List.append_assoc], ?_, fun r hr hnext => ?_⟩
    · by_cases hb : before = []
      · -- the refused token comes right behind the statement, which needs no completion
        subst hb
        obtain ⟨hout, hends⟩ := hx.neutral .eof (by decide)
        exact ⟨[], by simpa using Outline.of_stmt hout hends⟩
      · have hends := hx.here.2
        rw [next_append hb, ← next_append hb w] at hends
        exact ⟨w, by simpa using Outline.stmt hx.here.1 hends hw⟩
    · have hout := hx.here.1
      rw [List.append_assoc] at hr
      obtain ⟨y, s, hys, hy, hends, htail⟩ :=
        hr.exists_stmt (by simp [hout.ne_nil]) (hout.next_ne_symbol _)
      obtain rfl := hx.unique ⟨hy, hends⟩ hys.symm (next_append_congr hnext before)
      obtain rfl := List.append_cancel_left hys
      exact hstuck r htail hnext
  | case5 => cases h

/-- An outline that is not accepted is refused for its pipes or its nesting, never for a token. -/
theorem Outline.refusesToken_eq_false {e : Failure} (h : Outline ks) (heof : .eof ∉ ks)
    (herror : ofKinds ks = .error e) : e.cause.refusesToken = false := by
  by_contra hc
  obtain ⟨before, rfl, -, hstuck⟩ := exists_of_ofKinds_eq_error heof herror (by simpa using hc)
  exact hstuck e.rest h rfl

/-- A list that goes on with a given token, the end of the input included. -/
theorem exists_of_concat_prefix {before w : List Kind} {k : Kind}
    (h : before ++ [k] <+: w ++ [.eof]) : ∃ r, w = before ++ r ∧ Token.next r = k := by
  obtain ⟨t, ht⟩ := h
  cases t using List.reverseRecOn with
  | nil =>
    rw [List.append_nil] at ht
    obtain ⟨rfl, hk⟩ := List.append_inj' ht rfl
    cases hk
    exact ⟨[], by simp, rfl⟩
  | append_singleton t j _ =>
    rw [← List.append_assoc] at ht
    obtain ⟨rfl, -⟩ := List.append_inj' ht rfl
    exact ⟨k :: t, by simp, rfl⟩

/-- Let `ks` be the kinds before the first end of input, with that end behind them. If reading fails
by refusing a token, the error is placed at the token with some index `i` at which reading stopped:
the kinds before it begin a program, but for the rule for pipes and the limit of nesting, and the
kinds up to it, itself or the end included, begin none. -/
theorem ofTokens_error_earliest {ts : List Token} {e : SyntaxError} (h : ofTokens ts = .error e)
    (hc : e.cause.refusesToken = true) :
    ∃ i ≤ (Stream.ofList ts).kinds.length,
      ofKinds (Stream.ofList ts).kinds = .error ⟨e.cause, (Stream.ofList ts).kinds.drop i⟩ ∧
      e.position = (Stream.ofList ts).positionAt i ∧
      (∃ w, Outline ((Stream.ofList ts).kinds.take i ++ w)) ∧
      ∀ w, Outline w →
        ¬ ((Stream.ofList ts).kinds ++ [Kind.eof]).take (i + 1) <+: w ++ [Kind.eof] := by
  rw [ofTokens, ofStream] at h
  obtain ⟨d, hd, rfl⟩ := Except.mapError_eq_error.1 h
  have heof := Stream.eof_notMem_kinds_ofList ts
  generalize (Stream.ofList ts).kinds = ks at hd heof ⊢
  obtain ⟨before, hks, hviable, hstuck⟩ := exists_of_ofKinds_eq_error heof hd hc
  have hlen : ks.length - d.rest.length = before.length := by simp [hks]
  have htake : ks.take before.length = before := by simp [hks]
  have hdrop : ks.drop before.length = d.rest := by simp [hks]
  have hnext : (ks ++ [Kind.eof]).take (before.length + 1) = before ++ [Token.next d.rest] := by
    rw [hks, List.append_assoc, List.take_length_add_append]
    cases d.rest <;> rfl
  refine ⟨before.length, by simp [hks], by rw [hdrop]; exact hd, by rw [hlen], by rwa [htake],
    fun w hw hprefix => ?_⟩
  rw [hnext] at hprefix
  obtain ⟨r, rfl, hr⟩ := exists_of_concat_prefix hprefix
  exact hstuck r hw hr

/-- A value is missing within a pipe that could not hold the declaration either. -/
theorem ofTokens_error_earliest_pipe :
    let before := [Kind.keyword .pipe, .symbol '\x7b', .keyword .val, .ident "x", .symbol '=']
    ofTokens [⟨.keyword .pipe, ⟨1, 1⟩⟩, ⟨.symbol '\x7b', ⟨1, 6⟩⟩, ⟨.keyword .val, ⟨1, 8⟩⟩,
        ⟨.ident "x", ⟨1, 12⟩⟩, ⟨.symbol '=', ⟨1, 14⟩⟩, ⟨.symbol '\x7d', ⟨1, 16⟩⟩,
        ⟨.eof, ⟨1, 17⟩⟩] =
      .error ⟨.expectedExpression (.symbol '\x7d'), ⟨1, 16⟩⟩ ∧
    (∃ w, Outline (before ++ w)) ∧
      ∀ w, Outline w → ¬ before ++ [.symbol '\x7d'] <+: w ++ [.eof] := by
  intro before
  have h : ofTokens [⟨.keyword .pipe, ⟨1, 1⟩⟩, ⟨.symbol '\x7b', ⟨1, 6⟩⟩, ⟨.keyword .val, ⟨1, 8⟩⟩,
        ⟨.ident "x", ⟨1, 12⟩⟩, ⟨.symbol '=', ⟨1, 14⟩⟩, ⟨.symbol '\x7d', ⟨1, 16⟩⟩,
        ⟨.eof, ⟨1, 17⟩⟩] =
      .error ⟨.expectedExpression (.symbol '\x7d'), ⟨1, 16⟩⟩ := by decide +kernel
  obtain ⟨i, hi, -, hpos, hviable, hstuck⟩ := ofTokens_error_earliest h rfl
  -- no other of the tokens stands where the error is
  obtain rfl : i = 5 := by
    clear hviable hstuck
    revert i
    decide +kernel
  exact ⟨h, hviable, hstuck⟩

end Shellwright.Program
