import Mathlib.Data.List.DropRight
import Shellwright.Position

/-!
# Positions in a text

A position is counted up one character at a time. What it comes to depends only on the text passed:
its newlines give the line, and its last line gives the column. Going on always leads further in the
order of reading.

## Main definitions

* `Position.behind`: the position behind a text, read off the text as a whole.
* The order of positions: by line, and by column on one line.

## Main statements

* `Position.start_after`: counting comes to that position.
* `Position.lt_after`: behind a text stands a later position than in front of it.
-/
namespace Shellwright.Position

/-- The position behind a text that stands at the front: one line for each newline in it, and one
column for each character behind the last newline. -/
def behind (cs : List Char) : Position where
  line := 1 + cs.count '\n'
  column := 1 + (cs.rtakeWhile (· ≠ '\n')).length

theorem start_after (cs : List Char) : start.after cs = behind cs := by
  induction cs using List.reverseRecOn with
  | nil => rfl
  | append_singleton cs c ih =>
    rw [after_append, ih, after_cons, after_nil]
    by_cases h : c = '\n' <;> simp [advance, behind, h, Nat.add_assoc]

instance : LT Position := ⟨fun p q => p.line < q.line ∨ p.line = q.line ∧ p.column < q.column⟩

theorem lt_def {p q : Position} :
    p < q ↔ p.line < q.line ∨ p.line = q.line ∧ p.column < q.column := Iff.rfl

instance (p q : Position) : Decidable (p < q) := decidable_of_iff _ lt_def.symm

theorem lt_trans {p q r : Position} (h : p < q) (g : q < r) : p < r := by
  rw [lt_def] at *
  omega

theorem ne_of_lt {p q : Position} (h : p < q) : p ≠ q := by
  rintro rfl
  rw [lt_def] at h
  omega

theorem lt_advance (p : Position) (c : Char) : p < p.advance c := by
  by_cases h : c = '\n' <;> simp [advance, lt_def, h]

theorem lt_after (p : Position) {cs : List Char} (h : cs ≠ []) : p < p.after cs := by
  induction cs generalizing p with
  | nil => exact absurd rfl h
  | cons c cs ih =>
    rw [after_cons]
    cases cs with
    | nil => exact p.lt_advance c
    | cons d ds => exact lt_trans (p.lt_advance c) (ih _ (by simp))

/-- A longer text ends later. -/
theorem behind_lt_append (cs : List Char) {ds : List Char} (h : ds ≠ []) :
    behind cs < behind (cs ++ ds) := by
  rw [← start_after, ← start_after, after_append]
  exact lt_after _ h

end Shellwright.Position
