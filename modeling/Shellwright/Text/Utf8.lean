/-!
# Bytes and text

Text is stored as UTF-8. Reading bytes back either insists on valid UTF-8, or puts the replacement
character for each longest run of bytes that could have begun a character and does not complete it.
-/
namespace Shellwright.Text

abbrev Bytes := List UInt8

def encode (s : String) : Bytes := s.toUTF8.toList

/-- Reads valid UTF-8 only. -/
def decode? (bs : Bytes) : Option String := String.fromUTF8? ⟨bs.toArray⟩

/-- The number of continuation bytes that a first byte calls for, and the range of the first of
them; the others range over `80` to `BF`. -/
def continuation (b : UInt8) : Option (Nat × UInt8 × UInt8) :=
  if 0xC2 ≤ b ∧ b ≤ 0xDF then some (1, 0x80, 0xBF)
  else if b = 0xE0 then some (2, 0xA0, 0xBF)
  else if b = 0xED then some (2, 0x80, 0x9F)
  else if 0xE1 ≤ b ∧ b ≤ 0xEF then some (2, 0x80, 0xBF)
  else if b = 0xF0 then some (3, 0x90, 0xBF)
  else if 0xF1 ≤ b ∧ b ≤ 0xF3 then some (3, 0x80, 0xBF)
  else if b = 0xF4 then some (3, 0x80, 0x8F)
  else none

/-- Takes up to `n` continuation bytes, the first of them between `lo` and `hi`, and adds their bits
to `code`. The character is the replacement character if one is missing. -/
def complete : (n : Nat) → (lo hi : UInt8) → (code : Nat) → Bytes → Char × Bytes
  | 0, _, _, code, bs => (Char.ofNat code, bs)
  | n + 1, lo, hi, code, b :: bs =>
    if lo ≤ b ∧ b ≤ hi then complete n 0x80 0xBF (code * 64 + (b.toNat - 0x80)) bs
    else ('\uFFFD', b :: bs)
  | _ + 1, _, _, _, [] => ('\uFFFD', [])

theorem length_complete (n : Nat) (lo hi : UInt8) (code : Nat) (bs : Bytes) :
    (complete n lo hi code bs).2.length ≤ bs.length := by
  fun_induction complete n lo hi code bs with
  | case1 => exact Nat.le_refl _
  | case2 n lo hi code b bs _ ih => exact Nat.le_succ_of_le ih
  | case3 => exact Nat.le_refl _
  | case4 => exact Nat.le_refl _

/-- The first character of `b :: bs`, and the bytes behind it. -/
def firstChar (b : UInt8) (bs : Bytes) : Char × Bytes :=
  if b < 0x80 then (Char.ofNat b.toNat, bs)
  else match continuation b with
    | some (n, lo, hi) => complete n lo hi (b.toNat % 1 <<< (6 - n)) bs
    | none => ('\uFFFD', bs)

theorem length_firstChar (b : UInt8) (bs : Bytes) : (firstChar b bs).2.length ≤ bs.length := by
  unfold firstChar
  split
  · exact Nat.le_refl _
  · split
    · exact length_complete ..
    · exact Nat.le_refl _

def lossyChars : Bytes → List Char
  | [] => []
  | b :: bs => (firstChar b bs).1 :: lossyChars (firstChar b bs).2
termination_by bs => bs.length
decreasing_by
  have := length_firstChar b bs
  simp
  omega

/-- Reads any bytes as text. -/
def lossy (bs : Bytes) : String := String.ofList (lossyChars bs)

end Shellwright.Text
