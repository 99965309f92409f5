/-!
# Byte lists and little-endian words

Every format of this library is a concatenation of bytes and little-endian words, so the two notions
live together. A byte string is a plain `List UInt8`: `take`, `drop` and `++` are its whole algebra.

## Main definitions

* `Bytes`: a byte string.
* `Bytes.holds`: whether at least `n` bytes are there. It looks at no more than `n` of them, so a
  length word of four thousand million costs nothing.
* `LittleEndian.decode`, `LittleEndian.encode`: words of any width.
* `roundUpToFour`: the next multiple of four.
-/

namespace AssetPack

/-- A byte string. -/
abbrev Bytes := List UInt8

namespace Bytes

/-- Whether `bytes` has at least `n` elements. -/
def holds : Bytes → Nat → Bool
  | _, 0 => true
  | [], _ + 1 => false
  | _ :: rest, n + 1 => holds rest n

@[simp] theorem holds_iff (bytes : Bytes) (n : Nat) : holds bytes n = true ↔ n ≤ bytes.length := by
  induction bytes generalizing n with
  | nil => cases n <;> simp [holds]
  | cons b rest ih => cases n <;> simp [holds, ih]

/-- The bytes of a text in UTF-8. -/
def ofText (text : String) : Bytes := text.toList.flatMap String.utf8EncodeChar

end Bytes

namespace LittleEndian

/-- The number that the bytes write, least significant byte first. -/
def decode : Bytes → Nat
  | [] => 0
  | b :: rest => b.toNat + 256 * decode rest

/-- The low `width` bytes of a number, least significant byte first. -/
def encode : Nat → Nat → Bytes
  | 0, _ => []
  | width + 1, n => UInt8.ofNat n :: encode width (n / 256)

@[simp] theorem length_encode (width n : Nat) : (encode width n).length = width := by
  induction width generalizing n with
  | zero => rfl
  | succ width ih => simp [encode, ih]

theorem encode_decode (bytes : Bytes) : encode bytes.length (decode bytes) = bytes := by
  induction bytes with
  | nil => rfl
  | cons b rest ih =>
    have hb : b.toNat < 256 := b.toNat_lt
    have hdiv : (b.toNat + 256 * decode rest) / 256 = decode rest := by omega
    have hmod : UInt8.ofNat (b.toNat + 256 * decode rest) = b := by
      apply UInt8.toNat_inj.mp
      rw [UInt8.toNat_ofNat']
      omega
    simp only [List.length_cons, decode, encode, hdiv, hmod, ih]

/-- A 32-bit word as its four bytes. -/
def word (w : UInt32) : Bytes := encode 4 w.toNat

/-- A 64-bit word as its eight bytes. -/
def long (w : UInt64) : Bytes := encode 8 w.toNat

end LittleEndian

/-- The least multiple of four that is not below `n`, in 64-bit arithmetic. -/
def roundUpToFour (n : UInt64) : UInt64 := (n + 3) &&& ~~~3

end AssetPack
