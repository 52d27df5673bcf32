/-!
# Character classes as sorted spans

A class of characters is held as the list of its maximal runs of code points, in ascending order.
Looking a code point up stops at the first span that begins above it, so the low planes are cheap.

## Main statements

* `Span.covers_iff`: on a sorted list the early stop loses nothing.
-/
namespace Shellwright.Text

/-- A run of consecutive code points, both ends included. -/
structure Span where
  first : Nat
  last : Nat
deriving DecidableEq

namespace Span

/-- Whether some span holds `n`, for spans in ascending order. -/
def covers : List Span → Nat → Bool
  | [], _ => false
  | s :: rest, n => s.first ≤ n && (n ≤ s.last || covers rest n)

/-- Each span lies wholly above the one before it. -/
def Sorted : List Span → Prop
  | [] => True
  | [s] => s.first ≤ s.last
  | s :: t :: rest => s.first ≤ s.last ∧ s.last < t.first ∧ Sorted (t :: rest)

instance Sorted.decidable : (ss : List Span) → Decidable (Sorted ss)
  | [] => inferInstanceAs (Decidable True)
  | [s] => inferInstanceAs (Decidable (s.first ≤ s.last))
  | s :: t :: rest =>
    have := Sorted.decidable (t :: rest)
    inferInstanceAs (Decidable (s.first ≤ s.last ∧ s.last < t.first ∧ Sorted (t :: rest)))

theorem Sorted.tail {s : Span} {rest : List Span} (h : Sorted (s :: rest)) : Sorted rest := by
  cases rest with
  | nil => trivial
  | cons t rest => exact h.2.2

theorem Sorted.first_le_last {s : Span} {rest : List Span} (h : Sorted (s :: rest)) :
    s.first ≤ s.last := by
  cases rest with
  | nil => exact h
  | cons _ _ => exact h.1

theorem Sorted.lt_first {s t : Span} {rest : List Span} (h : Sorted (s :: rest)) (ht : t ∈ rest) :
    s.last < t.first := by
  induction rest generalizing s with
  | nil => simp at ht
  | cons u rest ih =>
    have hu := h.tail.first_le_last
    rcases List.mem_cons.1 ht with rfl | ht
    · exact h.2.1
    · have := ih h.tail ht
      have := h.2.1
      omega

theorem covers_iff {ss : List Span} (h : Sorted ss) (n : Nat) :
    covers ss n = true ↔ ∃ s ∈ ss, s.first ≤ n ∧ n ≤ s.last := by
  induction ss with
  | nil => simp [covers]
  | cons s rest ih =>
    have hlt := fun t => h.lt_first (t := t)
    have hle := h.first_le_last
    simp only [covers, Bool.and_eq_true, Bool.or_eq_true, decide_eq_true_eq, ih h.tail,
      List.mem_cons, exists_eq_or_imp]
    constructor
    · rintro ⟨h1, h2 | h2⟩
      · exact .inl ⟨h1, h2⟩
      · exact .inr h2
    · rintro (⟨h1, h2⟩ | ⟨t, ht, h1, h2⟩)
      · exact ⟨h1, .inl h2⟩
      · exact ⟨by have := hlt t ht; omega, .inr ⟨t, ht, h1, h2⟩⟩

end Span

end Shellwright.Text
