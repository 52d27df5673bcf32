import Shellwright.Proofs.Compile.Joining
import Shellwright.Proofs.Program.Blame
import Shellwright.Proofs.Program.Crossing
import Shellwright.Proofs.Program.RoundTrip

/-!
# Sources that go beyond the limit of nesting

Where a source is refused because it is nested too deeply, all levels that there may be are open in
the statement that has been begun. The token that is blamed stands where one more has to begin. It
need not begin one: where a brace is missing, the level is counted all the same.

## Main definitions

* `openPipes`: pipes in each other that are not closed.

## Main statements

* `exists_compile_openPipes`: behind as many as there may be, and the keyword of one more, any token
  is blamed.
* `compile_nestingTooDeep`: the statement, its levels and the token that is blamed.
-/
namespace Shellwright

open Token (Kind LevelDue Rises Spells Stream tokenize)
open Program (ofKinds ofTokens statement)

theorem compile_eq_parse_error_iff {source : String} {e : SyntaxError} :
    compile source = .error (.parse e) ↔
      ∃ ts, tokenize source = .ok ts ∧ ofTokens ts = .error e := by
  unfold compile
  cases tokenize source with
  | error d => simp [bind, Except.bind]
  | ok ts => simp

/-! ## Pipes that are not closed -/

/-- So many pipes in each other, none of them closed. -/
def openPipes (n : Nat) : String := String.join (List.replicate n "pipe\x7b")

def openPipesKinds (n : Nat) : List Kind :=
  (List.replicate n [.keyword .pipe, .symbol '\x7b']).flatten

theorem spells_openPipes (n : Nat) {cs : List Char} {ks : List Kind} (h : Spells cs ks) :
    Spells ((openPipes n).toList ++ cs) (openPipesKinds n ++ ks) := by
  induction n with
  | zero => simpa [openPipes, openPipesKinds] using h
  | succ n ih =>
    have hbrace := ih.symbol (c := '\x7b') (by decide)
    simpa [openPipes, openPipesKinds, List.replicate_succ, Keyword.text] using
      hbrace.keyword (.cons (by decide)) .pipe

theorem exists_openPipesKinds_cons (n : Nat) (ks : List Kind) :
    ∃ ls, openPipesKinds n ++ .keyword .pipe :: ks = .keyword .pipe :: ls := by
  cases n <;> simp [openPipesKinds, List.replicate_succ]

/-- Where as many pipes are open as there may be levels, one more is refused whatever follows. -/
theorem run_openPipes (n : Nat) (rest : List Kind) :
    (Stmt.parser n).run (openPipesKinds n ++ .keyword .pipe :: rest) =
      .error ⟨.nestingTooDeep, rest⟩ := by
  induction n with
  | zero => rfl
  | succ n ih =>
    have hclose : Token.next (openPipesKinds n ++ .keyword .pipe :: rest) ≠ .symbol '\x7d' := by
      obtain ⟨ls, hls⟩ := exists_openPipesKinds_cons n rest
      rw [hls]
      nofun
    have hcommand := Parser.run_require_eq_error (f := Stmt.invocation).2 (.inl ih)
    have hcommands := Parser.runUntilClose_eq_error.2 ⟨hclose, .inl hcommand⟩
    have hblock : (Stmt.block ((Stmt.parser n).require Stmt.invocation)).run
        (.symbol '\x7b' :: (openPipesKinds n ++ .keyword .pipe :: rest)) =
          .error ⟨.nestingTooDeep, rest⟩ :=
      Parser.run_seqRight_eq_error.2 (.inr ⟨(), _, Parser.run_symbol_eq_ok.2 rfl, hcommands⟩)
    change (Parser.keyword .pipe *> Stmt.pipe <$> Stmt.block _).run (.keyword .pipe :: _) = _
    exact Parser.run_seqRight_eq_error.2
      (.inr ⟨(), _, Parser.run_keyword_eq_ok.2 rfl, Parser.run_map_eq_error.2 hblock⟩)

theorem ofKinds_openPipes (ks : List Kind) :
    ofKinds (openPipesKinds maxNesting ++ .keyword .pipe :: ks) =
      .error ⟨.nestingTooDeep, ks⟩ := by
  have hrun := run_openPipes maxNesting ks
  obtain ⟨ls, hls⟩ := exists_openPipesKinds_cons maxNesting ks
  rw [hls] at hrun ⊢
  exact Program.ofKinds_of_run_eq_error nofun hrun

/-- Behind so many pipes and the keyword of another one, the first token of any text is blamed. -/
theorem exists_compile_openPipes {rest : String} {ks : List Kind} (h : Spells rest.toList ks)
    (hr : Token.Apart rest.toList) :
    ∃ before t after,
      tokenize (openPipes maxNesting ++ "pipe" ++ rest) = .ok (before ++ t :: after) ∧
      t.kind = Token.next ks ∧ (∀ u ∈ before ++ after, u.position ≠ t.position) ∧
      compile (openPipes maxNesting ++ "pipe" ++ rest) =
        .error (.parse ⟨.nestingTooDeep, t.position⟩) := by
  have hs : Spells (openPipes maxNesting ++ "pipe" ++ rest).toList
      (openPipesKinds maxNesting ++ .keyword .pipe :: ks) := by
    simpa [Keyword.text] using spells_openPipes maxNesting (h.keyword hr .pipe)
  obtain ⟨ls, hls⟩ := exists_openPipesKinds_cons maxNesting ks
  have hmark := hs.head?_ne_mark (by simp [hls])
  obtain ⟨ts, hts, hk⟩ := hs.scan .start
  rw [← Token.body_eq_toList hmark] at hts
  have hcut : (openPipesKinds maxNesting ++ [.keyword .pipe]) ++ ks = (Stream.ofList ts).kinds := by
    rw [hs.kinds_ofList hk, List.append_assoc]
    rfl
  obtain ⟨before, t, after, rfl, hbefore, hmap, rfl, hnext, -⟩ :=
    Program.exists_tokens_of_append hts hcut
  have herror : ofTokens (before ++ t :: after) = .error ⟨.nestingTooDeep, t.position⟩ := by
    apply Program.ofTokens_eq_error hbefore rfl
    rw [hmap, List.append_assoc]
    exact ofKinds_openPipes _
  have hnodup := Token.nodup_position_of_tokenize hts
  rw [List.map_append, List.map_cons, List.nodup_middle, List.nodup_cons,
    ← List.map_append] at hnodup
  refine ⟨before, t, after, hts, hnext.symm, fun u hu hpos => ?_, ?_⟩
  · exact hnodup.1 (List.mem_map.2 ⟨u, hu, hpos⟩)
  · exact compile_eq_parse_error_iff.2 ⟨_, hts, herror⟩

/-! ## The token that is blamed -/

/-- Let a level too many be reported at `pos` for a source. Then `top` are the tokens before the
statement that it is reported in, and `cur` those of this statement before the token `t` at `pos`.
In `cur` there are exactly as many openers more than closers as there may be levels, and `t` stands
where a level begins: it is the parenthesis of a call, or it stands where a brace has to be. -/
theorem compile_nestingTooDeep {source : String} {pos : Position}
    (h : compile source = .error (.parse ⟨.nestingTooDeep, pos⟩)) :
    ∃ top cur t after p, tokenize source = .ok (top ++ cur ++ t :: after) ∧ t.position = pos ∧
      ofKinds (top.map (·.kind)) = .ok p ∧ (∀ u ∈ cur.head?, ∀ c, u.kind ≠ .symbol c) ∧
      statement.run (cur.map (·.kind) ++ (Stream.ofList (t :: after)).kinds) =
        .error ⟨.nestingTooDeep, (Stream.ofList (t :: after)).kinds⟩ ∧
      Rises maxNesting (cur.map (·.kind)) ∧ LevelDue (cur.map (·.kind)) t.kind := by
  obtain ⟨ts, hts, he⟩ := compile_eq_parse_error_iff.1 h
  obtain ⟨⟨cause, rest⟩, hd, hplace⟩ := Except.mapError_eq_error.1 he
  obtain rfl : cause = .nestingTooDeep := congrArg SyntaxError.cause hplace
  obtain ⟨top, x, p, hks, htop, hfirst, hrun, hrises, hdue⟩ :=
    Program.exists_of_ofKinds_nestingTooDeep hd
  rw [← List.append_assoc] at hks
  obtain ⟨before, t, after, rfl, hbefore, hmap, rfl, hnext, -⟩ :=
    Program.exists_tokens_of_append hts hks.symm
  obtain ⟨topTokens, cur, rfl, rfl, rfl⟩ := List.map_eq_append_iff.1 hmap
  have herror :
      ofTokens (topTokens ++ cur ++ t :: after) = .error ⟨.nestingTooDeep, t.position⟩ := by
    apply Program.ofTokens_eq_error hbefore rfl
    rw [hmap, ← hks]
    exact hd
  have hpos := Except.error.inj (herror.symm.trans he)
  refine ⟨topTokens, cur, t, after, p, hts, congrArg SyntaxError.position hpos, htop, ?_, hrun,
    hrises, hnext ▸ hdue⟩
  intro u hu c hc
  obtain ⟨cur, rfl⟩ := List.head?_eq_some_iff.1 hu
  exact hfirst c hc

/-- The brace of one pipe too many. -/
theorem compile_nestingTooDeep_brace :
    ∃ pos, compile (openPipes 256 ++ "pipe" ++ "\x7b") = .error (.parse ⟨.nestingTooDeep, pos⟩) ∧
      ∃ top cur t after p,
        tokenize (openPipes 256 ++ "pipe" ++ "\x7b") = .ok (top ++ cur ++ t :: after) ∧
        t.position = pos ∧ ofKinds (top.map (·.kind)) = .ok p ∧
        (∀ u ∈ cur.head?, ∀ c, u.kind ≠ .symbol c) ∧
        statement.run (cur.map (·.kind) ++ (Stream.ofList (t :: after)).kinds) =
          .error ⟨.nestingTooDeep, (Stream.ofList (t :: after)).kinds⟩ ∧
        Rises 256 (cur.map (·.kind)) ∧ LevelDue (cur.map (·.kind)) t.kind := by
  have hs : Spells "\x7b".toList [.symbol '\x7b'] :=
    Token.Spells.symbol (.nil (by simp)) (by decide)
  obtain ⟨_, t, _, -, -, -, h⟩ := exists_compile_openPipes hs (.cons (by decide))
  exact ⟨t.position, h, compile_nestingTooDeep h⟩

/-- Behind the keyword of a pipe for which no level is left, a name is blamed for the level. -/
theorem compile_nestingTooDeep_name :
    ∃ before t after, tokenize (openPipes 256 ++ "pipe" ++ " x") = .ok (before ++ t :: after) ∧
      t.kind = .ident "x" ∧ (∀ u ∈ before ++ after, u.position ≠ t.position) ∧
      compile (openPipes 256 ++ "pipe" ++ " x") =
        .error (.parse ⟨.nestingTooDeep, t.position⟩) := by
  have hname : Spells ("x".toList ++ []) [.ident "x"] :=
    Token.Spells.ident (.nil (by simp)) (by simp [Token.Apart]) (by decide)
  have hs : Spells " x".toList [.ident "x"] := hname.space
  exact exists_compile_openPipes hs (.cons (by decide))

end Shellwright
