import AssetPack.Text.Utf8

/-!
# Well-formed UTF-8 is read back unchanged

The transducer of `Utf8.decode` forgives damage, so it is not obvious that it changes nothing where
there is none. It does not: the bytes of a character are read as that character, whatever follows.
The ranges of the second byte are where this could go wrong, and there the proof uses that a
character is neither an overlong form nor a surrogate nor past `10FFFF`.

## Main results

* `Utf8.decode_encodeChar_append`: one character in front of other bytes.
* `Utf8.decode_ofText_append`: a text in front of other bytes.
* `Utf8.text_ofText_nuls`: a text with NULs behind is read as the text.
* `Utf8.length_ofText`: the size of a text is the number of its bytes.
-/

namespace AssetPack.Utf8

/-! ### Single steps -/

theorem decodeFrom_of_ascii {b : UInt8} (h : b < 0x80) (rest : Bytes) :
    decodeFrom none (b :: rest) = Char.ofNat b.toNat :: decodeFrom none rest := by
  simp [decodeFrom, step, fresh, h]

theorem decodeFrom_of_opening {b : UInt8} {p : Pending} (hb : ¬ b < 0x80)
    (h : opening b = some p) (rest : Bytes) :
    decodeFrom none (b :: rest) = decodeFrom (some p) rest := by
  simp [decodeFrom, step, fresh, hb, h]

theorem toNat_tail {n : Nat} (h : n < 64) : (UInt8.ofNat (n + 0x80)).toNat = n + 0x80 := by
  rw [UInt8.toNat_ofNat', Nat.mod_eq_of_lt (by omega)]

/-- The last byte of a sequence writes the character. -/
theorem decodeFrom_last {bits n : Nat} {low high : UInt8} (hn : n < 64)
    (hlow : low.toNat ≤ n + 0x80) (hhigh : n + 0x80 ≤ high.toNat) (rest : Bytes) :
    decodeFrom (some ⟨bits, 0, low, high⟩) (UInt8.ofNat (n + 0x80) :: rest) =
      Char.ofNat (bits * 64 + n) :: decodeFrom none rest := by
  have htail := toNat_tail hn
  have hlow' : low ≤ UInt8.ofNat (n + 0x80) := by rwa [UInt8.le_iff_toNat_le, htail]
  have hhigh' : UInt8.ofNat (n + 0x80) ≤ high := by rwa [UInt8.le_iff_toNat_le, htail]
  simp [-UInt8.ofNat_add, decodeFrom, step, hlow', hhigh', htail]

/-- A byte inside a sequence is collected, and after it the range of the next is the usual one. -/
theorem decodeFrom_more {bits more n : Nat} {low high : UInt8} (hn : n < 64)
    (hlow : low.toNat ≤ n + 0x80) (hhigh : n + 0x80 ≤ high.toNat) (rest : Bytes) :
    decodeFrom (some ⟨bits, more + 1, low, high⟩) (UInt8.ofNat (n + 0x80) :: rest) =
      decodeFrom (some ⟨bits * 64 + n, more, 0x80, 0xBF⟩) rest := by
  have htail := toNat_tail hn
  have hlow' : low ≤ UInt8.ofNat (n + 0x80) := by rwa [UInt8.le_iff_toNat_le, htail]
  have hhigh' : UInt8.ofNat (n + 0x80) ≤ high := by rwa [UInt8.le_iff_toNat_le, htail]
  simp [-UInt8.ofNat_add, decodeFrom, step, hlow', hhigh', htail]

/-! ### Lead bytes

All lead bytes of one length open sequences that differ in their bits, except at the two ends of
the range. -/

theorem opening_two : ∀ n < 32, 2 ≤ n →
    opening (UInt8.ofNat (n + 0xC0)) = some ⟨n, 0, 0x80, 0xBF⟩ := by
  decide

theorem opening_three : ∀ n < 16, opening (UInt8.ofNat (n + 0xE0)) =
    some ⟨n, 1, if n = 0 then 0xA0 else 0x80, if n = 13 then 0x9F else 0xBF⟩ := by
  decide

theorem opening_four : ∀ n < 5, opening (UInt8.ofNat (n + 0xF0)) =
    some ⟨n, 2, if n = 0 then 0x90 else 0x80, if n = 4 then 0x8F else 0xBF⟩ := by
  decide

/-- A lead byte is no character of its own. -/
theorem not_ascii_ofNat {n : Nat} (hlow : 0x80 ≤ n) (hhigh : n < 256) : ¬ UInt8.ofNat n < 0x80 := by
  rw [UInt8.lt_iff_toNat_lt, UInt8.toNat_ofNat', Nat.mod_eq_of_lt hhigh]
  exact Nat.not_lt.mpr hlow

/-! ### Texts -/

/-- The usual range is the whole range of a tail byte. -/
theorem tail_bounds {n : Nat} (h : n < 64) :
    (0x80 : UInt8).toNat ≤ n + 0x80 ∧ n + 0x80 ≤ (0xBF : UInt8).toNat := by
  change 0x80 ≤ n + 0x80 ∧ n + 0x80 ≤ 0xBF
  omega

/-- **One character.** -/
theorem decode_encodeChar_append (c : Char) (rest : Bytes) :
    decode (String.utf8EncodeChar c ++ rest) = c :: decode rest := by
  have hvalid : c.val.toNat < 0xD800 ∨ 0xDFFF < c.val.toNat ∧ c.val.toNat < 0x110000 := c.valid
  have hc : ∀ n, n = c.val.toNat → Char.ofNat n = c := by
    rintro n rfl
    exact Char.ofNat_toNat c
  simp only [decode, String.utf8EncodeChar]
  generalize c.val.toNat = v at hvalid hc ⊢
  split
  · next h =>
    have hascii : UInt8.ofNat v < 0x80 := by
      rw [UInt8.lt_iff_toNat_lt, UInt8.toNat_ofNat', Nat.mod_eq_of_lt (by omega)]
      change v < 128
      omega
    rw [List.singleton_append, decodeFrom_of_ascii hascii, UInt8.toNat_ofNat',
      hc _ (Nat.mod_eq_of_lt (by omega))]
  · split
    · have hlead := opening_two (v / 64 % 0x20) (by omega) (by omega)
      have h₁ : v % 0x40 < 64 := by omega
      simp only [List.cons_append, List.nil_append]
      rw [decodeFrom_of_opening (not_ascii_ofNat (by omega) (by omega)) hlead,
        decodeFrom_last h₁ (tail_bounds h₁).1 (tail_bounds h₁).2, hc _ (by omega)]
    · split
      · have hlead := opening_three (v / 4096 % 0x10) (by omega)
        have h₁ : v / 64 % 0x40 < 64 := by omega
        have h₂ : v % 0x40 < 64 := by omega
        -- the character has no shorter form
        have hlow : (if v / 4096 % 0x10 = 0 then 0xA0 else 0x80 : UInt8).toNat ≤
            v / 64 % 0x40 + 0x80 := by
          split
          · show 0xA0 ≤ v / 64 % 0x40 + 0x80
            omega
          · exact (tail_bounds h₁).1
        -- and it is no surrogate
        have hhigh : v / 64 % 0x40 + 0x80 ≤
            (if v / 4096 % 0x10 = 13 then 0x9F else 0xBF : UInt8).toNat := by
          split
          · show v / 64 % 0x40 + 0x80 ≤ 0x9F
            omega
          · exact (tail_bounds h₁).2
        simp only [List.cons_append, List.nil_append]
        rw [decodeFrom_of_opening (not_ascii_ofNat (by omega) (by omega)) hlead,
          decodeFrom_more h₁ hlow hhigh,
          decodeFrom_last h₂ (tail_bounds h₂).1 (tail_bounds h₂).2, hc _ (by omega)]
      · have hlead := opening_four (v / 262144 % 0x08) (by omega)
        have h₁ : v / 4096 % 0x40 < 64 := by omega
        have h₂ : v / 64 % 0x40 < 64 := by omega
        have h₃ : v % 0x40 < 64 := by omega
        have hlow : (if v / 262144 % 0x08 = 0 then 0x90 else 0x80 : UInt8).toNat ≤
            v / 4096 % 0x40 + 0x80 := by
          split
          · show 0x90 ≤ v / 4096 % 0x40 + 0x80
            omega
          · exact (tail_bounds h₁).1
        -- nothing is past the last character
        have hhigh : v / 4096 % 0x40 + 0x80 ≤
            (if v / 262144 % 0x08 = 4 then 0x8F else 0xBF : UInt8).toNat := by
          split
          · show v / 4096 % 0x40 + 0x80 ≤ 0x8F
            omega
          · exact (tail_bounds h₁).2
        simp only [List.cons_append, List.nil_append]
        rw [decodeFrom_of_opening (not_ascii_ofNat (by omega) (by omega)) hlead,
          decodeFrom_more h₁ hlow hhigh,
          decodeFrom_more h₂ (tail_bounds h₂).1 (tail_bounds h₂).2,
          decodeFrom_last h₃ (tail_bounds h₃).1 (tail_bounds h₃).2, hc _ (by omega)]

/-- **A text.** -/
theorem decode_ofText_append (s : String) (rest : Bytes) :
    decode (Bytes.ofText s ++ rest) = s.toList ++ decode rest := by
  rw [Bytes.ofText]
  induction s.toList with
  | nil => rfl
  | cons c chars ih =>
    rw [List.flatMap_cons, List.append_assoc, decode_encodeChar_append, ih, List.cons_append]

theorem decode_nuls (n : Nat) :
    decode (List.replicate n 0) = List.replicate n (Char.ofNat 0) := by
  induction n with
  | zero => rfl
  | succ n ih =>
    rw [List.replicate_succ, List.replicate_succ, ← ih, decode, decodeFrom_of_ascii (by decide)]
    rfl

/-- Trimming takes the NULs behind a text, and nothing of a text that does not end in one. -/
theorem trimNuls_append_nuls {chars : List Char} (h : chars.getLast? ≠ some (Char.ofNat 0))
    (n : Nat) : trimNuls (chars ++ List.replicate n (Char.ofNat 0)) = chars := by
  rw [trimNuls, List.reverse_append, List.reverse_replicate,
    List.dropWhile_append_of_pos (by simp)]
  have hkeep : chars.reverse.dropWhile (· == Char.ofNat 0) = chars.reverse := by
    rw [List.getLast?_eq_head?_reverse] at h
    cases hrev : chars.reverse with
    | nil => rfl
    | cons last front =>
      have hlast : last ≠ Char.ofNat 0 := by simpa [hrev] using h
      rw [List.dropWhile_cons_of_neg (by simpa using hlast)]
  rw [hkeep, List.reverse_reverse]

theorem text_ofText_nuls {s : String} (h : s.toList.getLast? ≠ some (Char.ofNat 0)) (n : Nat) :
    text (Bytes.ofText s ++ List.replicate n 0) = s := by
  rw [text, decode_ofText_append, decode_nuls, trimNuls_append_nuls h, String.ofList_toList]

/-- The size of a text is the number of its bytes. -/
theorem length_ofText (s : String) : (Bytes.ofText s).length = s.utf8ByteSize := by
  have hbytes : (String.ofList s.toList).toByteArray.size = (Bytes.ofText s).length := by
    rw [String.toByteArray_ofList, List.utf8Encode, List.size_toByteArray, Bytes.ofText]
  rw [← hbytes, String.ofList_toList, String.size_toByteArray]

end AssetPack.Utf8
