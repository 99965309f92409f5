import AssetPack.Text.Numeral
import Mathlib.Data.List.Basic

/-!
# Numerals are read back

Two readers beside the two writers: one for decimal numerals with a sign, one for bytes in
hexadecimal. Each is written without the writer, and refuses what the writer does not write: the
first takes a minus sign and digits, the second takes pairs of upper-case digits with one blank
between two pairs.

## Main definitions

* `IsDecimal`, `readDecimal?`: the form of a decimal numeral, and the number that it writes.
* `IsHexDump`, `readHexBytes?`: the form of bytes in hexadecimal, and the bytes.

## Main results

* `isDecimal_signed`, `readDecimal?_signed`
* `isHexDump_hexBytes`, `readHexBytes?_hexBytes`
-/

namespace AssetPack.Numeral

/-! ### Decimal numerals -/

/-- The digits of a decimal numeral: at least one, and no zero in front of others. -/
structure IsDigits (digits : List Char) : Prop where
  nonempty : digits ≠ []
  isDigit : ∀ c ∈ digits, c.isDigit = true
  no_leading_zero : digits.head? = some '0' → digits = ['0']

/-- A decimal numeral: digits, and a minus sign in front of them if it is negative. There is no plus
sign, and zero has no sign at all. -/
def IsDecimal (s : String) : Prop :=
  ∃ digits, IsDigits digits ∧ (s.toList = digits ∨ s.toList = '-' :: digits ∧ digits ≠ ['0'])

/-- The number that decimal digits write. -/
def readDigits? (digits : List Char) : Option Nat :=
  if digits = [] then none
  else if digits.all Char.isDigit then some (Nat.ofDigitChars 10 digits 0)
  else none

/-- The number that a decimal numeral writes. -/
def readDecimal? (s : String) : Option Int :=
  match s.toList with
  | '-' :: digits => (readDigits? digits).map fun n => -Int.ofNat n
  | digits => (readDigits? digits).map Int.ofNat

theorem eq_zero_of_toDigits {n : Nat} (h : Nat.toDigits 10 n = ['0']) : n = 0 := by
  have hvalue := Nat.ofDigitChars_toDigits (b := 10) (n := n) (by decide) (by decide)
  rw [h] at hvalue
  exact hvalue.symm

/-- The digits of a number have no zero in front. -/
theorem isDigits_toDigits (n : Nat) : IsDigits (Nat.toDigits 10 n) where
  nonempty := Nat.toDigits_ne_nil
  isDigit c hc := Nat.isDigit_of_mem_toDigits (by decide) (by decide) hc
  no_leading_zero := by
    induction n using Nat.strongRecOn with
    | ind n ih =>
      intro hhead
      rw [Nat.toDigits_eq_if (by decide)] at hhead ⊢
      split at hhead
      · next hlt =>
        rw [if_pos hlt]
        simpa using hhead
      · next hge =>
        rw [List.head?_append_of_ne_nil _ Nat.toDigits_ne_nil] at hhead
        have hzero : n / 10 = 0 := eq_zero_of_toDigits (ih (n / 10) (by omega) hhead)
        omega

theorem readDigits?_toDigits (n : Nat) : readDigits? (Nat.toDigits 10 n) = some n := by
  have hdigits := isDigits_toDigits n
  rw [readDigits?, if_neg hdigits.nonempty, if_pos (List.all_eq_true.2 hdigits.isDigit),
    Nat.ofDigitChars_toDigits (by decide) (by decide)]

theorem toList_decimal (n : Nat) {width : Nat} (h : width ≤ 1) :
    (decimal n width).toList = Nat.toDigits 10 n := by
  have hlength : width - (Nat.toDigits 10 n).length = 0 := by
    have := Nat.length_toDigits_pos (b := 10) (n := n)
    omega
  rw [decimal, String.toList_ofList, padLeft, hlength]
  rfl

theorem toList_signed (n : Int) :
    (signed n).toList =
      if n < 0 then '-' :: Nat.toDigits 10 n.natAbs else Nat.toDigits 10 n.natAbs := by
  rw [signed]
  split
  · rw [String.toList_append, toList_decimal _ (by decide)]
    rfl
  · exact toList_decimal _ (Nat.le_refl 1)

theorem signed_eq_toString (n : Int) : signed n = toString n := by
  apply String.toList_inj.1
  rw [toList_signed]
  cases n with
  | ofNat m =>
    have hnonneg : ¬ Int.ofNat m < 0 := Int.not_lt.2 (Int.natCast_nonneg m)
    rw [if_neg hnonneg]
    exact Nat.toList_repr.symm
  | negSucc m =>
    have hrepr : toString (Int.negSucc m) = "-" ++ (m + 1).repr := rfl
    rw [if_pos (Int.negSucc_lt_zero m), hrepr, String.toList_append, Nat.toList_repr]
    rfl

theorem isDecimal_signed (n : Int) : IsDecimal (signed n) := by
  refine ⟨Nat.toDigits 10 n.natAbs, isDigits_toDigits _, ?_⟩
  rw [toList_signed]
  split
  · next hneg =>
    refine .inr ⟨rfl, fun hzero => ?_⟩
    have habs : n.natAbs = 0 := eq_zero_of_toDigits hzero
    omega
  · exact .inl rfl

/-- **A decimal numeral is read back.** -/
theorem readDecimal?_signed (n : Int) : readDecimal? (signed n) = some n := by
  rw [readDecimal?, toList_signed]
  by_cases hneg : n < 0
  · simp only [if_pos hneg, readDigits?_toDigits, Option.map_some, Option.some.injEq,
      Int.ofNat_eq_natCast]
    omega
  · have hdigits := isDigits_toDigits n.natAbs
    rw [if_neg hneg]
    split
    · next digits heq =>
      have hsign := hdigits.isDigit '-' (by rw [heq]; exact List.mem_cons_self)
      exact absurd hsign (by decide)
    · rw [readDigits?_toDigits, Option.map_some, Option.some.injEq, Int.ofNat_eq_natCast]
      omega

theorem blank_not_mem_signed (n : Int) : ' ' ∉ (signed n).toList := by
  have hblank : ' ' ∉ Nat.toDigits 10 n.natAbs := fun hmem =>
    absurd ((isDigits_toDigits n.natAbs).isDigit ' ' hmem) (by decide)
  rw [toList_signed]
  split
  · simpa using hblank
  · exact hblank

/-! ### Bytes in hexadecimal -/

/-- The hexadecimal digits in the order of their values. -/
def hexAlphabet : List Char :=
  ['0', '1', '2', '3', '4', '5', '6', '7', '8', '9', 'A', 'B', 'C', 'D', 'E', 'F']

/-- Pairs of upper-case hexadecimal digits with a blank between two pairs. -/
def IsHexDump (s : String) : Prop :=
  ∃ pairs : List (List Char), s.toList = List.intercalate [' '] pairs ∧
    ∀ pair ∈ pairs, pair.length = 2 ∧ ∀ c ∈ pair, c ∈ hexAlphabet

/-- The byte that two hexadecimal digits write. -/
def readHexByte? : List Char → Option UInt8
  | [high, low] =>
    match hexAlphabet.idxOf? high, hexAlphabet.idxOf? low with
    | some h, some l => some (UInt8.ofNat (h * 16 + l))
    | _, _ => none
  | _ => none

/-- The bytes that pairs of hexadecimal digits with blanks between them write. -/
def readHexBytes? (s : String) : Option Bytes :=
  if s = "" then some [] else (s.toList.splitOn ' ').mapM readHexByte?

theorem hexDigit_mem_hexAlphabet : ∀ n < 16, hexDigit n ∈ hexAlphabet := by decide

theorem idxOf?_hexDigit : ∀ n < 16, hexAlphabet.idxOf? (hexDigit n) = some n := by decide

theorem readHexByte?_hexByte (b : UInt8) : readHexByte? (hexByte b) = some b := by
  have hb := b.toNat_lt
  rw [hexByte, readHexByte?, idxOf?_hexDigit _ (by omega), idxOf?_hexDigit _ (by omega)]
  simp only [Option.some.injEq]
  rw [show b.toNat / 16 * 16 + b.toNat % 16 = b.toNat by omega, UInt8.ofNat_toNat]

theorem mem_hexAlphabet_of_mem_hexByte {b : UInt8} {c : Char} (h : c ∈ hexByte b) :
    c ∈ hexAlphabet := by
  have hb := b.toNat_lt
  rw [hexByte, List.mem_cons, List.mem_singleton] at h
  rcases h with rfl | rfl
  · exact hexDigit_mem_hexAlphabet _ (by omega)
  · exact hexDigit_mem_hexAlphabet _ (by omega)

theorem isHexDump_hexBytes (bytes : Bytes) : IsHexDump (hexBytes bytes) := by
  refine ⟨bytes.map hexByte, by rw [hexBytes, String.toList_ofList], fun pair hpair => ?_⟩
  obtain ⟨b, -, rfl⟩ := List.mem_map.1 hpair
  exact ⟨rfl, fun c => mem_hexAlphabet_of_mem_hexByte⟩

theorem mapM_readHexByte?_hexByte (bytes : Bytes) :
    (bytes.map hexByte).mapM readHexByte? = some bytes := by
  induction bytes with
  | nil => rfl
  | cons b bytes ih =>
    rw [List.map_cons, List.mapM_cons, readHexByte?_hexByte, ih]
    rfl

/-- **Bytes in hexadecimal are read back.** -/
theorem readHexBytes?_hexBytes (bytes : Bytes) : readHexBytes? (hexBytes bytes) = some bytes := by
  cases bytes with
  | nil => rfl
  | cons b bytes =>
    have hblank : ∀ pair ∈ (b :: bytes).map hexByte, ' ' ∉ pair := by
      intro pair hpair hmem
      obtain ⟨b, -, rfl⟩ := List.mem_map.1 hpair
      exact absurd (mem_hexAlphabet_of_mem_hexByte hmem) (by decide)
    have hsplit : (hexBytes (b :: bytes)).toList.splitOn ' ' = (b :: bytes).map hexByte := by
      rw [hexBytes, String.toList_ofList]
      exact List.splitOn_intercalate ' ' hblank (by simp)
    have hne : hexBytes (b :: bytes) ≠ "" := by
      intro hempty
      rw [hempty] at hsplit
      exact absurd (congrArg List.head? hsplit) (by simp [hexByte])
    rw [readHexBytes?, if_neg hne, hsplit, mapM_readHexByte?_hexByte]

theorem blank_mem_hexBytes {bytes : Bytes} (h : 2 ≤ bytes.length) :
    ' ' ∈ (hexBytes bytes).toList := by
  match bytes, h with
  | a :: b :: bytes, _ =>
    rw [hexBytes, String.toList_ofList, List.map_cons,
      List.intercalate_cons_of_ne_nil (by simp)]
    simp

end AssetPack.Numeral
