/-!
# Big-endian words

Class files store every number with its most significant byte first. A word is put together from its bytes and taken apart again, and the two directions undo each other.
-/

namespace Retoken.BigEndian

def word16 (hi lo : UInt8) : UInt16 :=
  UInt16.ofNat (hi.toNat * 256 + lo.toNat)

def bytes16 (word : UInt16) : List UInt8 :=
  [UInt8.ofNat (word.toNat / 256), UInt8.ofNat word.toNat]

def word32 (a b c d : UInt8) : UInt32 :=
  UInt32.ofNat (((a.toNat * 256 + b.toNat) * 256 + c.toNat) * 256 + d.toNat)

def bytes32 (word : UInt32) : List UInt8 :=
  [UInt8.ofNat (word.toNat / 0x1000000), UInt8.ofNat (word.toNat / 0x10000),
    UInt8.ofNat (word.toNat / 0x100), UInt8.ofNat word.toNat]

def word64 (hi lo : UInt32) : UInt64 :=
  UInt64.ofNat (hi.toNat * 0x100000000 + lo.toNat)

def bytes64 (word : UInt64) : List UInt8 :=
  bytes32 (UInt32.ofNat (word.toNat / 0x100000000)) ++ bytes32 (UInt32.ofNat word.toNat)

@[simp] theorem length_bytes16 (word : UInt16) : (bytes16 word).length = 2 := rfl

@[simp] theorem length_bytes32 (word : UInt32) : (bytes32 word).length = 4 := rfl

theorem toNat_word16 (hi lo : UInt8) : (word16 hi lo).toNat = hi.toNat * 256 + lo.toNat := by
  have := hi.toNat_lt
  have := lo.toNat_lt
  simp only [word16, UInt16.toNat_ofNat']
  omega

theorem toNat_word32 (a b c d : UInt8) :
    (word32 a b c d).toNat
      = ((a.toNat * 256 + b.toNat) * 256 + c.toNat) * 256 + d.toNat := by
  have := a.toNat_lt
  have := b.toNat_lt
  have := c.toNat_lt
  have := d.toNat_lt
  simp only [word32, UInt32.toNat_ofNat']
  omega

theorem bytes16_word16 (hi lo : UInt8) : bytes16 (word16 hi lo) = [hi, lo] := by
  have := hi.toNat_lt
  have := lo.toNat_lt
  simp only [bytes16, toNat_word16, List.cons.injEq, and_true]
  constructor <;> apply UInt8.toNat_inj.mp <;> simp only [UInt8.toNat_ofNat'] <;> omega

theorem bytes32_word32 (a b c d : UInt8) : bytes32 (word32 a b c d) = [a, b, c, d] := by
  have := a.toNat_lt
  have := b.toNat_lt
  have := c.toNat_lt
  have := d.toNat_lt
  simp only [bytes32, toNat_word32, List.cons.injEq, and_true]
  refine ⟨?_, ?_, ?_, ?_⟩ <;> apply UInt8.toNat_inj.mp <;> simp only [UInt8.toNat_ofNat'] <;> omega

theorem word16_bytes (word : UInt16) :
    word16 (UInt8.ofNat (word.toNat / 256)) (UInt8.ofNat word.toNat) = word := by
  have := word.toNat_lt
  apply UInt16.toNat_inj.mp
  simp only [toNat_word16, UInt8.toNat_ofNat']
  omega

theorem word32_bytes (word : UInt32) :
    word32 (UInt8.ofNat (word.toNat / 0x1000000)) (UInt8.ofNat (word.toNat / 0x10000))
      (UInt8.ofNat (word.toNat / 0x100)) (UInt8.ofNat word.toNat) = word := by
  have := word.toNat_lt
  apply UInt32.toNat_inj.mp
  simp only [toNat_word32, UInt8.toNat_ofNat']
  omega

theorem toNat_word64 (hi lo : UInt32) : (word64 hi lo).toNat = hi.toNat * 0x100000000 + lo.toNat := by
  have := hi.toNat_lt
  have := lo.toNat_lt
  simp only [word64, UInt64.toNat_ofNat']
  omega

theorem word64_halves (word : UInt64) :
    word64 (UInt32.ofNat (word.toNat / 0x100000000)) (UInt32.ofNat word.toNat) = word := by
  have := word.toNat_lt
  apply UInt64.toNat_inj.mp
  simp only [toNat_word64, UInt32.toNat_ofNat']
  omega

theorem bytes64_word64 (hi lo : UInt32) : bytes64 (word64 hi lo) = bytes32 hi ++ bytes32 lo := by
  have := hi.toNat_lt
  have := lo.toNat_lt
  have high : UInt32.ofNat ((word64 hi lo).toNat / 0x100000000) = hi := by
    apply UInt32.toNat_inj.mp
    simp only [toNat_word64, UInt32.toNat_ofNat']
    omega
  have low : UInt32.ofNat (word64 hi lo).toNat = lo := by
    apply UInt32.toNat_inj.mp
    simp only [toNat_word64, UInt32.toNat_ofNat']
    omega
  rw [bytes64, high, low]

end Retoken.BigEndian
