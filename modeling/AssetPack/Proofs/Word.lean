import AssetPack.Bytes
import Mathlib.Algebra.Group.Nat.Defs

/-!
# Words and their bytes

`LittleEndian.encode` and `LittleEndian.decode` undo each other: on byte strings always, on numbers
as long as the number fits the width. For the 32-bit and 64-bit words of the formats nothing is left
to fit, so there the two directions are stated without a bound. As a signed number, bytes have the
value that two's complement gives them at their width.

## Main definitions

* `LittleEndian.signedValue`: the number that bytes write in two's complement.

## Main results

* `LittleEndian.decode_lt`: what `width` bytes can write.
* `LittleEndian.decode_encode`: reading a number that was written.
* `LittleEndian.ofNat_decode_word`, `LittleEndian.word_ofNat_decode`: the inverse pair for words.
* `LittleEndian.ofNat_decode_long`, `LittleEndian.long_ofNat_decode`: the same for 64-bit words.
* `LittleEndian.signedValue_word`, `LittleEndian.signedValue_long`: signed words and their bytes.
-/

namespace AssetPack.LittleEndian

theorem decode_lt (bytes : Bytes) : decode bytes < 256 ^ bytes.length := by
  induction bytes with
  | nil => simp [decode]
  | cons b rest ih =>
    have hb : b.toNat < 256 := b.toNat_lt
    simp only [decode, List.length_cons, Nat.pow_succ]
    omega

theorem decode_encode {width n : Nat} (h : n < 256 ^ width) : decode (encode width n) = n := by
  induction width generalizing n with
  | zero =>
    simp only [Nat.pow_zero] at h
    simp only [encode, decode]
    omega
  | succ width ih =>
    have hdiv : n / 256 < 256 ^ width := by
      rw [Nat.div_lt_iff_lt_mul (by decide), ← Nat.pow_succ]
      exact h
    simp only [encode, decode, ih hdiv, UInt8.toNat_ofNat']
    omega

@[simp] theorem length_word (w : UInt32) : (word w).length = 4 := length_encode 4 w.toNat

@[simp] theorem ofNat_decode_word (w : UInt32) : UInt32.ofNat (decode (word w)) = w := by
  rw [word, decode_encode w.toNat_lt, UInt32.ofNat_toNat]

theorem toNat_ofNat_decode_word {bytes : Bytes} (h : bytes.length = 4) :
    (UInt32.ofNat (decode bytes)).toNat = decode bytes := by
  have hlt : decode bytes < 2 ^ 32 := by
    have := decode_lt bytes
    rw [h] at this
    exact this
  rw [UInt32.toNat_ofNat', Nat.mod_eq_of_lt hlt]

/-- Four bytes are the word that they write. -/
theorem word_ofNat_decode {bytes : Bytes} (h : bytes.length = 4) :
    word (UInt32.ofNat (decode bytes)) = bytes := by
  rw [word, toNat_ofNat_decode_word h, ← h, encode_decode]

/-- A word in front of other bytes, as a reader finds it. -/
theorem ofNat_decode_take_word (w : UInt32) (rest : Bytes) :
    UInt32.ofNat (decode ((word w ++ rest).take 4)) = w := by
  rw [List.take_left' (length_word w), ofNat_decode_word]

@[simp] theorem length_long (w : UInt64) : (long w).length = 8 := length_encode 8 w.toNat

@[simp] theorem ofNat_decode_long (w : UInt64) : UInt64.ofNat (decode (long w)) = w := by
  rw [long, decode_encode w.toNat_lt, UInt64.ofNat_toNat]

theorem toNat_ofNat_decode_long {bytes : Bytes} (h : bytes.length = 8) :
    (UInt64.ofNat (decode bytes)).toNat = decode bytes := by
  have hlt : decode bytes < 2 ^ 64 := by
    have := decode_lt bytes
    rw [h] at this
    exact this
  rw [UInt64.toNat_ofNat', Nat.mod_eq_of_lt hlt]

/-- Eight bytes are the 64-bit word that they write. -/
theorem long_ofNat_decode {bytes : Bytes} (h : bytes.length = 8) :
    long (UInt64.ofNat (decode bytes)) = bytes := by
  rw [long, toNat_ofNat_decode_long h, ← h, encode_decode]

/-! ### Two's complement -/

/-- The number that bytes write in two's complement, least significant byte first. -/
def signedValue (bytes : Bytes) : Int :=
  if 2 * decode bytes < 256 ^ bytes.length then decode bytes
  else decode bytes - (256 ^ bytes.length : Nat)

theorem toInt_toInt32_ofNat_decode {bytes : Bytes} (h : bytes.length = 4) :
    (UInt32.ofNat (decode bytes)).toInt32.toInt = signedValue bytes := by
  rw [← Int32.toInt_toBitVec, UInt32.toBitVec_toInt32, BitVec.toInt_eq_toNat_cond,
    UInt32.toNat_toBitVec, toNat_ofNat_decode_word h, signedValue, h]
  rfl

theorem toInt_toInt64_ofNat_decode {bytes : Bytes} (h : bytes.length = 8) :
    (UInt64.ofNat (decode bytes)).toInt64.toInt = signedValue bytes := by
  rw [← Int64.toInt_toBitVec, UInt64.toBitVec_toInt64, BitVec.toInt_eq_toNat_cond,
    UInt64.toNat_toBitVec, toNat_ofNat_decode_long h, signedValue, h]
  rfl

theorem signedValue_word (v : Int32) : signedValue (word v.toUInt32) = v.toInt := by
  rw [← toInt_toInt32_ofNat_decode (length_word _), ofNat_decode_word, Int32.toInt32_toUInt32]

theorem signedValue_long (v : Int64) : signedValue (long v.toUInt64) = v.toInt := by
  rw [← toInt_toInt64_ofNat_decode (length_long _), ofNat_decode_long, Int64.toInt64_toUInt64]

/-- A 64-bit word is negative if its highest bit is set. -/
theorem lt_zero_iff_toUInt64 (v : Int64) : v < 0 ↔ 2 ^ 63 ≤ v.toUInt64.toNat := by
  have hlt := v.toUInt64.toBitVec.isLt
  rw [Int64.lt_iff_toInt_lt]
  show v.toUInt64.toBitVec.toInt < 0 ↔ 2 ^ 63 ≤ v.toUInt64.toBitVec.toNat
  rw [BitVec.toInt_eq_toNat_cond]
  split
  · omega
  · omega

end AssetPack.LittleEndian
