import Shellwright.Text.Span

/-!
# Blank characters

The characters that separate tokens: those with the Unicode property White_Space. A text is blank
when it holds nothing else.
-/
namespace Shellwright.Text

def blankSpans : List Span :=
  [⟨0x9, 0xD⟩, ⟨0x20, 0x20⟩, ⟨0x85, 0x85⟩, ⟨0xA0, 0xA0⟩, ⟨0x1680, 0x1680⟩, ⟨0x2000, 0x200A⟩,
   ⟨0x2028, 0x2029⟩, ⟨0x202F, 0x202F⟩, ⟨0x205F, 0x205F⟩, ⟨0x3000, 0x3000⟩]

theorem blankSpans_sorted : Span.Sorted blankSpans := by decide

def isBlank (c : Char) : Bool := Span.covers blankSpans c.toNat

/-- Nothing but blank characters; the empty text is blank. -/
def allBlank (s : String) : Bool := s.toList.all isBlank

theorem isBlank_iff (c : Char) :
    isBlank c = true ↔ ∃ s ∈ blankSpans, s.first ≤ c.toNat ∧ c.toNat ≤ s.last :=
  Span.covers_iff blankSpans_sorted _

end Shellwright.Text
