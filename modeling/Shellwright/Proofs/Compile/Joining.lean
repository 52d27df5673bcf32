import Shellwright.Compile
import Shellwright.Proofs.Program.Joining

/-!
# Compiling joined sources

Two sources, the second on a line of its own behind the first, compile to the two scripts in order.
All three stages respect the seam: no token crosses it, no statement goes on behind it, and the
commands of the two scripts stand on lines of their own.

## Main definitions

* `Program.ofSource`: the program of a source text.
* `CompileError.down`: the same error some lines further down.

## Main statements

* `Program.ofSource_append`, `Program.emit_append`: the seam while reading and while writing.
* `compile_append_newline`: the seam in the whole compilation.
-/
namespace Shellwright

open Text

def CompileError.down (n : Nat) : CompileError → CompileError
  | lex e => lex (e.down n)
  | parse e => parse (e.down n)
  | emit f => emit f

/-! ## Scripts -/

namespace Script.Command

theorem ofStmts_append (ss ts : List Stmt) :
    ofStmts (ss ++ ts) = do return (← ofStmts ss) ++ (← ofStmts ts) := by
  induction ss with
  | nil => cases h : ofStmts ts <;> simp [ofStmts, h]
  | cons s ss ih =>
    simp only [List.cons_append, ofStmts, ih]
    cases ofStmt s <;> cases ofStmts ss <;> cases ofStmts ts <;> rfl

theorem length_of_ofStmts {ss : List Stmt} {cs : List Command} (h : ofStmts ss = .ok cs) :
    cs.length = ss.length := by
  induction ss generalizing cs with
  | nil =>
    cases h
    rfl
  | cons s ss ih =>
    simp only [ofStmts, Except.bind_eq_ok] at h
    obtain ⟨c, -, cs', hcs, h⟩ := h
    cases h
    simp [ih hcs]

end Script.Command

namespace Program

variable {p q : Program} {a b : String}

theorem emit_eq_ok_iff : p.emit = .ok a ↔
    ∃ script, Script.Command.ofStmts p = .ok script ∧ Script.text script = a := by
  change (Script.ofProgram p).map Script.text = _ ↔ _
  rw [Except.map_eq_ok]
  rfl

theorem emit_append (hp : p.emit = .ok a) (hq : q.emit = .ok b) (hp₀ : p ≠ []) (hq₀ : q ≠ []) :
    (p ++ q).emit = .ok (a ++ "\n" ++ b) := by
  obtain ⟨cs, hcs, rfl⟩ := emit_eq_ok_iff.1 hp
  obtain ⟨ds, hds, rfl⟩ := emit_eq_ok_iff.1 hq
  refine emit_eq_ok_iff.2 ⟨cs ++ ds, by rw [Script.Command.ofStmts_append, hcs, hds]; rfl, ?_⟩
  have hcs₀ : cs ≠ [] := by
    rintro rfl
    exact hp₀ (List.length_eq_zero_iff.1 (Script.Command.length_of_ofStmts hcs).symm)
  have hds₀ : ds ≠ [] := by
    rintro rfl
    exact hq₀ (List.length_eq_zero_iff.1 (Script.Command.length_of_ofStmts hds).symm)
  rw [Script.text, List.map_append, String.intercalate_append_of_ne_nil (by simpa) (by simpa)]
  rfl

theorem emit_eq_error_iff {f : Fault} : p.emit = .error f ↔
    Script.Command.ofStmts p = .error f := by
  change (Script.ofProgram p).map Script.text = _ ↔ _
  rw [Except.map_eq_error]
  rfl

theorem emit_append_of_error {f : Fault} (hp : p.emit = .ok a) (hq : q.emit = .error f) :
    (p ++ q).emit = .error f := by
  obtain ⟨cs, hcs, -⟩ := emit_eq_ok_iff.1 hp
  rw [emit_eq_error_iff] at hq ⊢
  rw [Script.Command.ofStmts_append, hcs, hq]
  rfl

/-! ## Sources -/

/-- The program of a source text. -/
def ofSource (source : String) : Except CompileError Program := do
  let tokens ← (Token.tokenize source).mapError .lex
  (ofTokens tokens).mapError .parse

/-- A statement ends before a source whose first symbol goes on with no statement. -/
theorem endsAt_next_kinds {source : String} {us : List Token} (h : Token.tokenize source = .ok us)
    (hfirst : ∀ c ∈ ((Token.body source).dropWhile isBlank).head?, c ≠ '(' ∧ c ≠ ',') (s : Stmt) :
    s.EndsAt (Token.next (Token.Stream.ofList us).kinds) := by
  rw [(Token.spells_kinds_of_scan h).head?_dropWhile_isBlank] at hfirst
  cases hks : (Token.Stream.ofList us).kinds with
  | nil => exact Stmt.endsAt_of_ne (by simp [Token.next])
  | cons k ks =>
    have hne (c : Char) (hc : c = '(' ∨ c = ',') : k ≠ .symbol c := by
      rintro rfl
      have := hfirst c (by simp [hks, Token.Kind.lexeme])
      rcases hc with rfl | rfl <;> simp at this
    exact ⟨fun hk => absurd hk (hne _ (.inr rfl)), fun hk => absurd hk (hne _ (.inl rfl))⟩

theorem ofSource_eq_ok_iff {source : String} : ofSource source = .ok p ↔
    ∃ us, Token.tokenize source = .ok us ∧ ofTokens us = .ok p := by
  simp [ofSource]

/-- The program of a source, and what another source behind it, on a line of its own, adds to it. -/
theorem ofSource_append {s t : String} (hs : ofSource s = .ok p)
    (ht : t.toList.head? ≠ some '\uFEFF')
    (hfirst : ∀ c ∈ (t.toList.dropWhile isBlank).head?, c ≠ '(' ∧ c ≠ ',') :
    ofSource (s ++ "\n" ++ t) =
      ((ofSource t).map (p ++ ·)).mapError (CompileError.down (1 + s.toList.count '\n')) := by
  obtain ⟨us, hus, hp⟩ := ofSource_eq_ok_iff.1 hs
  obtain ⟨ts, stop, rfl, hts, happ⟩ := Token.exists_tokenize_append hus ht
  rw [← Token.body_eq_toList ht] at hfirst
  generalize 1 + s.toList.count '\n' = n at happ ⊢
  unfold ofSource
  rw [happ]
  cases hvs : Token.tokenize t with
  | error e => rfl
  | ok vs =>
    have hvs₀ : vs ≠ [] := by
      rintro rfl
      obtain ⟨ks, hks, -⟩ := Token.Spells.of_scan hvs
      simp at hks
    have hread : ofTokens (ts ++ vs.map (Token.down n)) =
        ((ofTokens vs).map (p ++ ·)).mapError (SyntaxError.down n) := by
      rw [ofTokens_append hts hp (by simpa using hvs₀), ofTokens_down n hvs₀]
      · cases ofTokens vs <;> rfl
      · rw [Token.Stream.ofList_map_down n hvs₀, Token.Stream.kinds_down]
        exact endsAt_next_kinds hvs hfirst
    change (ofTokens (ts ++ vs.map (Token.down n))).mapError CompileError.parse = _
    rw [hread]
    cases hq : ofTokens vs <;>
      simp [bind, Except.bind, Except.map, hq, CompileError.down]

end Program

/-! ## Whole compilations -/

theorem compile_eq (source : String) :
    compile source = Program.ofSource source >>= fun p => p.emit.mapError .emit := by
  unfold compile Program.ofSource
  cases Token.tokenize source <;> rfl

theorem compile_eq_ok_iff {source script : String} : compile source = .ok script ↔
    ∃ p, Program.ofSource source = .ok p ∧ p.emit = .ok script := by
  rw [compile_eq]
  simp

theorem compile_eq_error_iff {source : String} {e : CompileError} : compile source = .error e ↔
    Program.ofSource source = .error e ∨
      ∃ p f, Program.ofSource source = .ok p ∧ p.emit = .error f ∧ .emit f = e := by
  rw [compile_eq]
  simp

/-- Behind a source `s` that compiles, a source `t` on a line of its own, that does not begin with a
byte order mark and whose first character does not go on with a statement, compiles as it does
alone. Its script comes behind that of `s` on a line of its own, unless one of them has no
statement; its error is the same one, as many lines further down as `s` takes. -/
theorem compile_append_newline {s t a : String} (hs : compile s = .ok a)
    (ht : t.toList.head? ≠ some '\uFEFF')
    (hfirst : ∀ c ∈ (t.toList.dropWhile isBlank).head?, c ≠ '(' ∧ c ≠ ',') :
    (∀ b, compile t = .ok b → ∃ p q, Program.ofSource s = .ok p ∧ Program.ofSource t = .ok q ∧
      (p ≠ [] → q ≠ [] → compile (s ++ "\n" ++ t) = .ok (a ++ "\n" ++ b)) ∧
      (p = [] → compile (s ++ "\n" ++ t) = .ok b) ∧
      (q = [] → compile (s ++ "\n" ++ t) = .ok a)) ∧
    ∀ e, compile t = .error e →
      compile (s ++ "\n" ++ t) = .error (e.down (1 + s.toList.count '\n')) := by
  obtain ⟨p, hp, hpa⟩ := compile_eq_ok_iff.1 hs
  have hjoin := Program.ofSource_append hp ht hfirst
  constructor
  · intro b hb
    obtain ⟨q, hq, hqb⟩ := compile_eq_ok_iff.1 hb
    rw [hq] at hjoin
    refine ⟨p, q, hp, hq, fun hp₀ hq₀ => ?_, ?_, ?_⟩
    · exact compile_eq_ok_iff.2 ⟨p ++ q, hjoin, Program.emit_append hpa hqb hp₀ hq₀⟩
    · rintro rfl
      exact compile_eq_ok_iff.2 ⟨q, hjoin, hqb⟩
    · rintro rfl
      exact compile_eq_ok_iff.2 ⟨p, by simpa [Except.map] using hjoin, hpa⟩
  · intro e he
    refine compile_eq_error_iff.2 ?_
    rcases compile_eq_error_iff.1 he with ht | ⟨q, f, hq, hf, rfl⟩
    · rw [ht] at hjoin
      exact .inl hjoin
    · rw [hq] at hjoin
      exact .inr ⟨p ++ q, f, hjoin, Program.emit_append_of_error hpa hf, rfl⟩

/-- A statement behind another one, and an error that is reported on the second line. -/
theorem compile_append_newline_cd :
    compile ("run \"cd\", dir" ++ "\n" ++ " print(1)") = .ok ("cd \"$dir\"" ++ "\n" ++ "echo 1") ∧
    compile ("run \"cd\", dir" ++ "\n" ++ " val = 1") =
      .error (.parse ⟨.expected .identifier (.symbol '='), ⟨2, 6⟩⟩) := by
  have hs : compile "run \"cd\", dir" = .ok "cd \"$dir\"" := by decide +kernel
  constructor
  · have hfirst : (" print(1)".toList.dropWhile isBlank).head? = some 'p' := by decide +kernel
    have hok := (compile_append_newline (t := " print(1)") hs (by decide) (by
      rw [hfirst]
      simp)).1
    obtain ⟨p, q, hp, hq, happ, -, -⟩ := hok "echo 1" (by decide +kernel)
    refine happ ?_ ?_ <;> rintro rfl
    · exact absurd hp (by decide +kernel)
    · exact absurd hq (by decide +kernel)
  · have hfirst : (" val = 1".toList.dropWhile isBlank).head? = some 'v' := by decide +kernel
    have herror := (compile_append_newline (t := " val = 1") hs (by decide) (by
      rw [hfirst]
      simp)).2
    exact herror (.parse ⟨.expected .identifier (.symbol '='), ⟨1, 6⟩⟩) (by decide +kernel)

end Shellwright
