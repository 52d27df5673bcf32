import Shellwright.Text.Utf8

/-!
# Octet strings

Text whose characters stand for one byte each. What a shell handles is bytes, whether or not they
make up characters, and an octet string keeps them one by one.
-/
namespace Shellwright.Text

/-- The octet string of some bytes. -/
def octets (bs : Bytes) : String := String.ofList (bs.map fun b => Char.ofNat b.toNat)

/-- The bytes of an octet string. -/
def bytes (s : String) : Bytes := s.toList.map fun c => c.toNat.toUInt8

/-- The octet string of the UTF-8 form of a text. -/
def toOctets (s : String) : String := octets (encode s)

/-- The text whose UTF-8 form an octet string is, as far as it is one. -/
def ofOctets (s : String) : String := lossy (bytes s)

/-- The parts of a text between separators; without a separator it is one part. -/
def parts (separator : Char) (s : String) : List String :=
  (s.toList.splitOn separator).map String.ofList

theorem toNat_ofNat_byte (b : UInt8) : (Char.ofNat b.toNat).toNat = b.toNat := by
  have h : b.toNat < 256 := b.toNat_lt
  have hv : b.toNat.isValidChar := Or.inl (by omega)
  rw [Char.ofNat, dif_pos hv]
  rfl

@[simp] theorem bytes_octets (bs : Bytes) : bytes (octets bs) = bs := by
  simp only [bytes, octets, String.toList_ofList, List.map_map]
  calc
    bs.map _ = bs.map id := List.map_congr_left fun b _ => by
      simp [Function.comp, toNat_ofNat_byte]
    _ = bs := List.map_id bs

end Shellwright.Text
