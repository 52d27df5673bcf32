import Shellwright.Text.Blank
import Shellwright.Text.Letter
import Shellwright.Token

/-!
# Spellings

Which texts spell a sequence of token kinds: the lexemes in order with blanks between them, where a
lexeme that could go on with the next character is set off from it. This says what scanning undoes
without saying how to scan.
-/
namespace Shellwright.Token

open Text

namespace Kind

/-- A letter, then letters and ASCII digits. -/
def IsWord : List Char → Prop
  | [] => False
  | c :: cs => isLetter c ∧ ∀ d ∈ cs, isWordChar d

instance : DecidablePred IsWord
  | [] => inferInstanceAs (Decidable False)
  | c :: cs => decidable_of_iff (isLetter c ∧ cs.all isWordChar) (by simp [IsWord])

/-- The kinds that a text can hold. -/
def Shaped : Kind → Prop
  | ident name => IsWord name.toList ∧ Keyword.ofText? name = none
  | string text => '"' ∉ text.toList
  | number digits => digits ≠ "" ∧ ∀ c ∈ digits.toList, c.isDigit
  | keyword _ => True
  | symbol c => ¬ isBlank c ∧ ¬ isLetter c ∧ ¬ c.isDigit ∧ c ≠ '"'
  | eof => False

instance : DecidablePred Shaped
  | ident name => inferInstanceAs (Decidable (IsWord name.toList ∧ Keyword.ofText? name = none))
  | string text => inferInstanceAs (Decidable ('"' ∉ text.toList))
  | number digits =>
    decidable_of_iff (digits ≠ "" ∧ digits.toList.all Char.isDigit) (by simp [Shaped])
  | keyword _ => inferInstanceAs (Decidable True)
  | symbol c =>
    inferInstanceAs (Decidable (¬ isBlank c ∧ ¬ isLetter c ∧ ¬ c.isDigit ∧ c ≠ '"'))
  | eof => inferInstanceAs (Decidable False)

/-- Whether a lexeme goes on with the character `c` when nothing stands between. -/
def absorbs (k : Kind) (c : Char) : Bool :=
  match k with
  | ident _ | keyword _ => isWordChar c
  | number _ => c.isDigit
  | string _ | symbol _ | eof => false

end Kind

/-- The text spells the kinds. -/
inductive Spells : List Char → List Kind → Prop where
  | nil {blanks : List Char} (h : ∀ c ∈ blanks, isBlank c) : Spells blanks []
  | cons {blanks rest : List Char} {k : Kind} {ks : List Kind} (h : ∀ c ∈ blanks, isBlank c)
      (shaped : k.Shaped) (apart : ∀ c ∈ rest.head?, k.absorbs c = false) (tail : Spells rest ks) :
      Spells (blanks ++ k.lexeme.toList ++ rest) (k :: ks)

end Shellwright.Token
