import Shellwright.Proofs.Outcome
import Shellwright.Proofs.Pairing
import Shellwright.Script.Lowering

/-!
# What programs are lowered to

Which expression may stand in which place, and what word it becomes there. A fact about every
statement and its command is proved along the lowering, one case to a construct.

## Main definitions

* `Script.Command.Kept`: a relation that every construct keeps.

## Main statements

* `Script.words_eq_ok`: the words of a command.
* `Script.Command.Kept.ofStmts`: such a relation holds between a program and its script.
-/
namespace Shellwright.Script

variable {e : Expr} {w : Word}

namespace Word

theorem ofValue_eq_ok : ofValue e = .ok w ↔ (∃ text, e = .string text ∧ w = quoted text) ∨
    (∃ digits, e = .number digits ∧ w = bare digits) ∨
      ∃ name, e = .var name ∧ w = quoted (reference name) := by
  cases e <;> simp [ofValue, misplaced, eq_comm]

theorem ofCommand_eq_ok : ofCommand e = .ok w ↔ (∃ text, e = .string text ∧ w = bare text) ∨
    ∃ name, e = .var name ∧ w = bare (reference name) := by
  cases e <;> simp [ofCommand, misplaced, eq_comm]

theorem ofPattern_eq_ok : ofPattern e = .ok w ↔ (∃ text, e = .string text ∧ w = bare text) ∨
    ∃ name, e = .var name ∧ w = bare (reference name) := by
  cases e <;> simp [ofPattern, misplaced, eq_comm]

end Word

/-- The dollar sign is not blank. -/
theorem allBlank_reference (name : String) : Text.allBlank (reference name) = false := by
  have hdollar : Text.isBlank '$' = false := by decide
  simp [reference, Text.allBlank, hdollar]

/-! ## Built-in functions -/

theorem soleArgument_eq_ok {function : String} {args : List Expr} :
    soleArgument function args = .ok e ↔ args = [e] := by
  unfold soleArgument
  split <;> simp_all

/-- Where only a call of `function` may stand, its argument decides. -/
theorem builtin_eq_ok {lower word : Expr → Except Fault Word} {function : String} {role : Role}
    (call : ∀ args, lower (.call function args) = soleArgument function args >>= word)
    (other : ∀ e, (∀ args, e = .call function args → False) → lower e = misplaced e role) :
    lower e = .ok w ↔ ∃ arg, e = .call function [arg] ∧ word arg = .ok w := by
  by_cases h : ∃ args, e = .call function args
  · obtain ⟨args, rfl⟩ := h
    simp [call, soleArgument_eq_ok]
  · rw [other e fun args he => h ⟨args, he⟩]
    simp only [misplaced, reduceCtorEq, false_iff]
    rintro ⟨arg, rfl, -⟩
    exact h ⟨_, rfl⟩

theorem tested_eq_ok :
    tested e = .ok w ↔ ∃ arg, e = .call "exists" [arg] ∧ Word.ofValue arg = .ok w :=
  builtin_eq_ok tested.eq_1 tested.eq_2

theorem iterated_eq_ok :
    iterated e = .ok w ↔ ∃ arg, e = .call "glob" [arg] ∧ Word.ofPattern arg = .ok w :=
  builtin_eq_ok iterated.eq_1 iterated.eq_2

theorem printed_eq_ok :
    printed e = .ok w ↔ ∃ arg, e = .call "print" [arg] ∧ Word.ofValue arg = .ok w :=
  builtin_eq_ok printed.eq_1 printed.eq_2

/-! ## Commands -/

theorem words_eq_ok {c : Invocation} {ws : List Word} : words c = .ok ws ↔
    ∃ command args w vs, c = command :: args ∧ Word.ofCommand command = .ok w ∧
      List.Forall₂ (fun e v => Word.ofValue e = .ok v) args vs ∧
      ws = if Text.allBlank w.text then vs else w :: vs := by
  cases c with
  | nil => simp [words]
  | cons command args =>
    simp only [words, Except.bind_eq_ok, Except.mapM_eq_ok, List.cons.injEq]
    constructor
    · rintro ⟨w, hw, vs, hvs, h⟩
      cases h
      exact ⟨command, args, w, vs, ⟨rfl, rfl⟩, hw, hvs, rfl⟩
    · rintro ⟨_, _, w, vs, ⟨rfl, rfl⟩, hw, hvs, rfl⟩
      exact ⟨w, hw, vs, hvs, rfl⟩

namespace Command

/-- A relation between statements and their commands that every construct keeps. -/
structure Kept (P : Stmt → Command → Prop) : Prop where
  decl : ∀ {binding name value w}, Word.ofValue value = .ok w →
    P (.decl binding name value) (assign name w)
  run : ∀ {command ws}, words command = .ok ws → P (.run command) (simple ws)
  ifThen : ∀ {cond body w cs}, tested cond = .ok w → List.Forall₂ P body cs →
    P (.ifThen cond body) (ifExists w cs)
  forIn : ∀ {name iterable body w cs}, iterated iterable = .ok w → List.Forall₂ P body cs →
    P (.forIn name iterable body) (forEach name w cs)
  pipe : ∀ {commands stages}, List.Forall₂ (fun c ws => words c = .ok ws) commands stages →
    P (.pipe commands) (pipeline stages)
  expr : ∀ {value w}, printed value = .ok w → P (.expr value) (simple [.bare "echo", w])

variable {P : Stmt → Command → Prop}

mutual

theorem Kept.ofStmt (h : Kept P) : ∀ (s : Stmt) {c : Command}, Command.ofStmt s = .ok c → P s c
  | .decl _ _ value, c, hs => by
    obtain ⟨w, hw, hc⟩ := Except.bind_eq_ok.1 hs
    cases hc
    exact h.decl hw
  | .run command, c, hs => by
    obtain ⟨ws, hws, hc⟩ := Except.bind_eq_ok.1 hs
    cases hc
    exact h.run hws
  | .ifThen cond body, c, hs => by
    obtain ⟨w, hw, hs⟩ := Except.bind_eq_ok.1 hs
    obtain ⟨cs, hcs, hc⟩ := Except.bind_eq_ok.1 hs
    cases hc
    exact h.ifThen hw (h.ofStmts body hcs)
  | .forIn _ iterable body, c, hs => by
    obtain ⟨w, hw, hs⟩ := Except.bind_eq_ok.1 hs
    obtain ⟨cs, hcs, hc⟩ := Except.bind_eq_ok.1 hs
    cases hc
    exact h.forIn hw (h.ofStmts body hcs)
  | .pipe commands, c, hs => by
    obtain ⟨stages, hstages, hc⟩ := Except.bind_eq_ok.1 hs
    cases hc
    exact h.pipe (Except.mapM_eq_ok.1 hstages)
  | .expr value, c, hs => by
    obtain ⟨w, hw, hc⟩ := Except.bind_eq_ok.1 hs
    cases hc
    exact h.expr hw

theorem Kept.ofStmts (h : Kept P) :
    ∀ (ss : List Stmt) {cs : List Command}, Command.ofStmts ss = .ok cs → List.Forall₂ P ss cs
  | [], cs, hs => by
    cases hs
    exact .nil
  | s :: ss, cs, hs => by
    obtain ⟨c, hc, hs⟩ := Except.bind_eq_ok.1 hs
    obtain ⟨cs', hcs, hs⟩ := Except.bind_eq_ok.1 hs
    cases hs
    exact .cons (h.ofStmt s hc) (h.ofStmts ss hcs)

end

end Command

end Shellwright.Script
