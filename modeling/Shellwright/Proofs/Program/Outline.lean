import Shellwright.Proofs.Program.Reading

/-!
# The grammar without its limits

Two things are asked of a program on top of its grammar: that pipes hold commands only, and that
nothing is nested too deeply. An outline is a token list that the grammar alone allows: between the
braces of a pipe any statements may stand, and there is no limit to nesting.

## Main definitions

* `Stmt.Outline`, `Program.Outline`: the token lists that the grammar alone takes for statements and
  for programs.

## Main statements

* `Program.outline_of_ofKinds`: what is read as a program has the outline of one.
-/
namespace Shellwright

open Token (Kind)

/-- The token does not go on with the statement that these tokens are: a comma goes on with a
command, and an opening parenthesis with a name. -/
def Token.EndsAt (ks : List Kind) (k : Kind) : Prop :=
  (k = .symbol ',' → ks.head? ≠ some (.keyword .run)) ∧ (k = .symbol '(' → endsInName ks = false)

/-- The tokens of a statement whose bodies and pipes hold any statements, in any depth. -/
inductive Stmt.Outline : List Kind → Prop where
  | decl (binding : Binding) (name : String) (value : Expr) :
      Outline (.keyword binding.keyword :: .ident name :: .symbol '=' :: value.kinds)
  | run {command : Invocation} (h : command ≠ []) : Outline (Invocation.kinds command)
  | ifThen (cond : Expr) {items : List (List Kind)} (h : ∀ x ∈ items, Outline x) :
      Outline (.keyword .if_ :: (cond.kinds ++ braced items.flatten))
  | forIn (name : String) (iterable : Expr) {items : List (List Kind)}
      (h : ∀ x ∈ items, Outline x) :
      Outline (.keyword .for_ :: .ident name :: .keyword .in_ ::
        (iterable.kinds ++ braced items.flatten))
  | pipe {items : List (List Kind)} (h : ∀ x ∈ items, Outline x) :
      Outline (.keyword .pipe :: braced items.flatten)
  | call (name : String) (args : List Expr) : Outline (Expr.call name args).kinds

/-- The tokens of statements one after the other, with any symbols around them that do not go on
with the statement before them. -/
inductive Program.Outline : List Kind → Prop where
  | nil : Outline []
  | symbol (c : Char) {ks : List Kind} (h : Outline ks) : Outline (.symbol c :: ks)
  | stmt {x ks : List Kind} (h : Stmt.Outline x) (ends : Token.EndsAt x (Token.next ks))
      (tail : Outline ks) : Outline (x ++ ks)

namespace Stmt

theorem endsAt_iff {s : Stmt} {k : Kind} : s.EndsAt k ↔ Token.EndsAt s.kinds k := by
  have hrun : s.isRun = false ↔ s.kinds.head? ≠ some (.keyword .run) := by
    cases s with
    | decl binding name value => cases binding <;> simp [isRun, kinds, Binding.keyword]
    | expr value => cases value <;> simp [isRun, kinds, Expr.kinds]
    | _ => simp [isRun, kinds, Invocation.kinds]
  rw [EndsAt, Token.EndsAt, hrun]

mutual

/-- Every well-formed statement has the outline of one. -/
theorem outline_kinds : ∀ {s : Stmt}, s.wellFormed = true → Outline s.kinds
  | .decl binding name value, _ => .decl binding name value
  | .run command, h => .run (by simpa [wellFormed] using h)
  | .ifThen cond body, h => by
    obtain ⟨items, hitems, hkinds⟩ := @exists_outlines body (by simpa [wellFormed] using h)
    rw [kinds, hkinds]
    exact .ifThen cond hitems
  | .forIn name iterable body, h => by
    obtain ⟨items, hitems, hkinds⟩ := @exists_outlines body (by simpa [wellFormed] using h)
    rw [kinds, hkinds]
    exact .forIn name iterable hitems
  | .pipe commands, h => by
    rw [kinds, List.flatMap_def]
    refine .pipe fun x hx => ?_
    obtain ⟨command, hmem, rfl⟩ := List.mem_map.1 hx
    simp only [wellFormed, List.all_eq_true] at h
    exact .run (by simpa using h command hmem)
  | .expr value, h => by
    cases value with
    | call name args => exact .call name args
    | _ => cases h

theorem exists_outlines : ∀ {ss : List Stmt}, wellFormedList ss = true →
    ∃ items : List (List Kind), (∀ x ∈ items, Outline x) ∧ kindsList ss = items.flatten
  | [], _ => ⟨[], by simp, rfl⟩
  | s :: ss, h => by
    rw [wellFormedList, Bool.and_eq_true] at h
    obtain ⟨items, hitems, hkinds⟩ := exists_outlines h.2
    exact ⟨s.kinds :: items, by simpa using ⟨outline_kinds h.1, hitems⟩,
      by simp [kindsList, hkinds]⟩

end

/-- No statement begins with a symbol. -/
theorem Outline.next_ne_symbol {x : List Kind} (h : Outline x) (rest : List Kind) (c : Char) :
    Token.next (x ++ rest) ≠ .symbol c := by
  cases h <;> simp [Token.next, Invocation.kinds, Expr.kinds]

end Stmt

namespace Program

variable {ks : List Kind}

theorem outline_of_ofKinds {p : Program} (h : ofKinds ks = .ok p) : Outline ks := by
  fun_induction ofKinds ks generalizing p with
  | case1 => exact .nil
  | case2 c rest ih => exact .symbol c (ih h)
  | case3 => cases h
  | case4 => cases h
  | case5 k rest hk s mid hs ss hss ih =>
    obtain ⟨⟨hwell, -⟩, hks, hends⟩ := run_statement_eq_ok.1 hs
    rw [hks]
    exact .stmt (Stmt.outline_kinds hwell) (Stmt.endsAt_iff.1 hends) (ih hss)

theorem Outline.of_stmt {x : List Kind} (h : Stmt.Outline x) (ends : Token.EndsAt x .eof) :
    Outline x := by
  rw [← List.append_nil x]
  exact .stmt h ends .nil

theorem Outline.of_symbol_cons {c : Char} (h : Outline (.symbol c :: ks)) : Outline ks := by
  generalize hls : Kind.symbol c :: ks = ls at h
  cases h with
  | nil => cases hls
  | symbol d h =>
    obtain ⟨-, rfl⟩ := List.cons.inj hls
    exact h
  | stmt h _ _ => exact absurd (congrArg Token.next hls.symm) (h.next_ne_symbol _ c)

/-- An outline that begins with anything but a symbol begins with a statement. -/
theorem Outline.exists_stmt (h : Outline ks) (hne : ks ≠ [])
    (hsym : ∀ c, Token.next ks ≠ .symbol c) :
    ∃ x rest, ks = x ++ rest ∧ Stmt.Outline x ∧ Token.EndsAt x (Token.next rest) ∧
      Outline rest := by
  cases h with
  | nil => exact absurd rfl hne
  | symbol c _ => exact absurd rfl (hsym c)
  | stmt h ends tail => exact ⟨_, _, rfl, h, ends, tail⟩

end Program

end Shellwright
