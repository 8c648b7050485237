/-!
# Words as bytes

Whole numbers of 32 bits as four bytes, the least significant byte first, and texts as their
encoding followed by a zero byte.
-/

namespace Coscript.Bytes

/-- The four bytes of a number's 32 low bits. -/
def ofWord (n : Nat) : List UInt8 :=
  [UInt8.ofNat n, UInt8.ofNat (n / 0x100), UInt8.ofNat (n / 0x10000), UInt8.ofNat (n / 0x1000000)]

/-- The number with four bytes. -/
def toWord (a b c d : UInt8) : Nat :=
  a.toNat + b.toNat * 0x100 + c.toNat * 0x10000 + d.toNat * 0x1000000

/-- The signed number with the same 32 bits. -/
def signed (n : Nat) : Int :=
  if n < 0x80000000 then n else (n : Int) - 0x100000000

/-- The bytes of a text. -/
def ofText (s : String) : List UInt8 := s.toUTF8.data.toList

/-- The text with these bytes, if they encode one. -/
def toText? (bytes : List UInt8) : Option String := String.fromUTF8? ⟨bytes.toArray⟩

/-- A text and the zero byte that ends it. -/
def ofTerminated (s : String) : List UInt8 := ofText s ++ [0]

/-- Reading four bytes back gives the 32 low bits. -/
theorem toWord_ofWord (n : Nat) :
    toWord (UInt8.ofNat n) (UInt8.ofNat (n / 0x100)) (UInt8.ofNat (n / 0x10000))
      (UInt8.ofNat (n / 0x1000000)) = n % 0x100000000 := by
  simp only [toWord, UInt8.toNat_ofNat']
  omega

/-- A text is the one with its bytes. -/
theorem toText?_ofText (s : String) : toText? (ofText s) = some s := by
  have h : toText? (ofText s) = String.fromUTF8? s.toByteArray := by
    simp [toText?, ofText, String.toUTF8]
  rw [h, String.fromUTF8?, dif_pos s.isValidUTF8]
  rfl

end Coscript.Bytes
