import Mathlib

/-!
Go's `unicode/utf8` decoding of one rune, read through core's verified UTF-8
decoder: `ByteArray.utf8DecodeChar?` accepts exactly the well-formed
sequences, and `DecodeRune` returns `RuneError` of width one on any other
non-empty input. Encoding is `String.utf8EncodeChar`, which is what
`bytes.Buffer.WriteRune` appends for a valid rune. A byte read as a rune
(`rune(b)`, `UInt8.toChar`) encodes as itself below `0x80` and as two bytes
from there on.
-/

namespace ContainerFS.Utf8

def runeError : Char := '\uFFFD'

/-- `utf8.DecodeRune`: the first rune and its width. -/
def decodeRune (b : List UInt8) : Char × ℕ :=
  if b = [] then (runeError, 0)
  else
    match b.toByteArray.utf8DecodeChar? 0 with
    | some c => (c, c.utf8Size)
    | none => (runeError, 1)

theorem toNat_val_toChar (b : UInt8) : b.toChar.val.toNat = b.toNat := by
  simp [UInt8.toChar]

/-- `rune(b)` of a byte from `0x80` on encodes as two bytes. -/
theorem length_utf8EncodeChar_toChar_of_le {b : UInt8} (h : 0x80 ≤ b) :
    (String.utf8EncodeChar b.toChar).length = 2 := by
  have hb := UInt8.le_iff_toNat_le.mp h
  have hlt := b.toNat_lt
  simp only [UInt8.reduceToNat] at hb
  rw [String.length_utf8EncodeChar, Char.utf8Size_eq_two_iff, UInt32.lt_iff_toNat_lt,
    UInt32.le_iff_toNat_le, toNat_val_toChar]
  simp only [UInt32.reduceToNat]
  omega

end ContainerFS.Utf8
